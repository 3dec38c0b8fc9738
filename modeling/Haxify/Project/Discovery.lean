import Haxify.Config.Chain
import Haxify.Glob.Match

/-!
# Finding the files of a project

A configuration names files one by one, takes files by patterns, and leaves
files out by patterns. A pattern without wildcards whose last name has no dot
names a directory and all that is below it.
-/

namespace Haxify.Discovery

/-- The directories that are left out unless a configuration says otherwise. -/
def usualExcludes : List String := ["node_modules", "bower_components", "jspm_packages"]

/-- The text without any repetitions of `start` at its beginning. -/
def dropStarts (start : List Char) (chars : List Char) : List Char :=
  match start, chars with
  | [], chars => chars
  | first :: others, chars =>
    if (first :: others).isPrefixOf chars then
      dropStarts (first :: others) (chars.drop (others.length + 1))
    else chars
termination_by chars.length
decreasing_by
  rename_i starts
  have := (List.isPrefixOf_iff_prefix.1 starts).length_le
  simp only [List.length_drop, List.length_cons] at *
  omega

/-- A pattern without dots that mean nothing in front and slashes at the end. -/
def trimmedPattern (pattern : String) : String :=
  String.ofList ((dropStarts ['.', '/'] pattern.toList).reverse.dropWhile (· == '/')).reverse

def namesDirectory (pattern : String) : Bool :=
  let last := (Text.splitOn '/' pattern).getLastD pattern
  !(pattern.toList.any fun char => char == '*' || char == '?' || char == '[')
    && !last.toList.contains '.'

/-- The globs that a pattern of a configuration stands for. Patterns of what is left out
also match the directory itself, so that nothing below it is looked at. -/
def expand (isExclude : Bool) (pattern : String) : List String :=
  let pattern := trimmedPattern pattern
  if pattern == "" then []
  else if namesDirectory pattern then
    (pattern ++ "/**/*") :: (if isExclude then [pattern] else [])
  else pattern :: (if isExclude then [pattern ++ "/**"] else [])

def compile (pattern : String) : Except ProjectError Glob.Pattern :=
  match Glob.Pattern.read pattern with
  | .ok compiled => .ok compiled
  | .error error => .error (.invalidPattern pattern error)

def compileAll (isExclude : Bool) (patterns : List String) :
    Except ProjectError (List Glob.Pattern) :=
  (patterns.flatMap (expand isExclude)).mapM compile

/-- A pattern relative to another directory, if it lies below it. -/
def rebase (base : Path) (pattern : String) (target : Path) : String :=
  match (base.join ⟨pattern⟩).normalize.relativeTo? target with
  | some relative => relative.text
  | none => pattern

/-- The patterns of what is left out, seen from a directory. -/
def excludePatterns (config : Config.Resolved) (base : Path) : List String :=
  match config.exclude with
  | some exclude => exclude.patterns.map fun pattern => rebase exclude.base pattern base
  | none =>
    usualExcludes ++ ((config.outDir.bind (·.relativeTo? base)).map (·.text)).toList

def listedFiles (store : Files.Store) (files : Config.PatternSet) :
    Except ProjectError (List Path) :=
  files.patterns.mapM fun name =>
    let path := (files.base.join ⟨name⟩).normalize
    if store.isFile path then .ok path else .error (.notListed path)

/-- The patterns of what is taken: all, if the configuration neither has patterns nor
lists files. -/
def includePatterns (config : Config.Resolved) : Option Config.PatternSet :=
  match config.include?, config.files with
  | some patterns, _ => some patterns
  | none, some _ => none
  | none, none => some ⟨config.directory, ["**/*"]⟩

def pathOf (names : List String) : String := Text.joinWith "/" names

def anyAccepts (patterns : List Glob.Pattern) (path : String) : Bool :=
  patterns.any fun pattern => pattern.accepts path

/-- Whether a file is taken: its name is that of a source, a pattern takes it, and no
pattern leaves out it or a directory on the way to it. -/
def isTaken (taken leftOut : List Glob.Pattern) (names : List String) : Bool :=
  (TypeScript.SourceKind.ofPath? ⟨pathOf names⟩).isSome
    && !((List.range names.length).any fun count =>
      anyAccepts leftOut (pathOf (names.take (count + 1))))
    && anyAccepts taken (pathOf names)

/-- The files below a directory that are taken. -/
def matchingFiles (store : Files.Store) (config : Config.Resolved)
    (patterns : Config.PatternSet) : Except ProjectError (List Path) := do
  let taken ← compileAll false patterns.patterns
  let leftOut ← compileAll true (excludePatterns config patterns.base)
  match store.place patterns.base with
  | .error failure => throw (.unreadable patterns.base failure)
  | .ok place =>
    return ((store.filesBelow place).filter fun (names, _) => isTaken taken leftOut names).map
      fun (names, _) => (patterns.base.join ⟨pathOf names⟩).normalize

def discover (store : Files.Store) (config : Config.Resolved) :
    Except ProjectError (List Path) := do
  let listed ← match config.files with
    | some files => listedFiles store files
    | none => pure []
  let matching ← match includePatterns config with
    | some patterns => matchingFiles store config patterns
    | none => pure []
  return Path.sortedSet (listed ++ matching)

end Haxify.Discovery
