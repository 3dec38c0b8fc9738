import Haxify.Project.Error

/-!
# Configurations that build on others

A configuration may extend others. Its own values win, then those of the last
base that has one. Patterns keep the directory of the configuration that set
them. A configuration that is reached again while it is being read is an error.
-/

namespace Haxify.Config

/-- Patterns with the directory they are relative to. -/
structure PatternSet where
  /-- The directory. -/
  base : Path
  patterns : List String
deriving DecidableEq, Repr

/-- What a configuration and those it builds on say together. -/
structure Resolved where
  path : Path
  directory : Path
  files : Option PatternSet
  include? : Option PatternSet
  /-- Files to leave out. -/
  exclude : Option PatternSet
  /-- The directory that source paths are taken relative to. -/
  rootDir : Option Path
  /-- Where the compiler would write. -/
  outDir : Option Path
  /-- How JSX would be compiled. -/
  jsx : Option String
deriving DecidableEq, Repr

/-- The configuration at a path with nothing said in it. -/
def Resolved.empty (path : Path) : Resolved :=
  ⟨path, path.directory, none, none, none, none, none, none⟩

/-- Takes over what a base says. -/
def Resolved.over (resolved base : Resolved) : Resolved :=
  { resolved with
    files := base.files.or resolved.files
    include? := base.include?.or resolved.include?
    exclude := base.exclude.or resolved.exclude
    rootDir := base.rootDir.or resolved.rootDir
    outDir := base.outDir.or resolved.outDir
    jsx := base.jsx.or resolved.jsx }

/-- What the settings of one file say, seen from the directory it lies in. -/
def Settings.resolved (settings : Settings) (path : Path) : Resolved :=
  let directory := path.directory
  { path
    directory
    files := settings.files.map (⟨directory, ·⟩)
    include? := settings.include?.map (⟨directory, ·⟩)
    exclude := settings.exclude.map (⟨directory, ·⟩)
    rootDir := settings.options.rootDir.map fun text => (directory.join ⟨text⟩).normalize
    outDir := settings.options.outDir.map fun text => (directory.join ⟨text⟩).normalize
    jsx := settings.options.jsx }

def settingsAt (store : Files.Store) (path : Path) : Except ProjectError Settings :=
  match store.readText path with
  | .error failure => .error (.unreadable path failure)
  | .ok text =>
    match Settings.read text with
    | .error error => .error (.malformedConfig path error)
    | .ok settings => .ok settings

/-- The paths at which the base of a configuration may stand, in order of preference. -/
def baseCandidates (directory : Path) (specifier : String) : List Path :=
  let isPath := Text.beginsWith specifier "." || (⟨specifier⟩ : Path).isAbsolute
  let candidate :=
    if isPath then directory.join ⟨specifier⟩
    else (directory.join ⟨"node_modules"⟩).join ⟨specifier⟩
  if candidate.extension?.isSome then [candidate]
  else [candidate, candidate.withExtension "json", candidate.join ⟨"tsconfig.json"⟩]

def locateBase (store : Files.Store) (path : Path) (specifier : String) :
    Except ProjectError Path :=
  match (baseCandidates path.directory specifier).find? store.isFile with
  | some found => .ok found
  | none => .error (.missingBase path specifier)

def absolute (store : Files.Store) (path : Path) : Path :=
  (store.workingDirectory.join path).normalize

/-- The normalized absolute paths at which the store has files. A path may start with
the parent of the root directory, which is the root directory again. -/
def filePaths (store : Files.Store) : List Path :=
  (store.filesBelow []).flatMap fun (names, _) =>
    let components := names.map Path.Component.name
    [.ofComponents (.root :: components), .ofComponents (.root :: .parent :: components)]

/-- Resolves a configuration with those it builds on. `unread` holds the files that
are not being read already, so a file that can be read and is not among them is
one that builds on itself. -/
def resolveAmong (store : Files.Store) (unread : List Path) (path : Path) :
    Except ProjectError Resolved := do
  let settings ← settingsAt store path
  if unread.contains path then
    let bases := (settings.extends?.map Extends.specifiers).getD []
    let inherited ← bases.foldlM (fun resolved specifier => do
      let base ← locateBase store path specifier
      return resolved.over (← resolveAmong store (unread.erase path) (absolute store base)))
      (Resolved.empty path)
    return inherited.over (settings.resolved path)
  else throw (.circularExtends path)
termination_by unread.length
decreasing_by
  have member : path ∈ unread := List.contains_iff_mem.1 ‹_›
  have := List.length_erase_of_mem member
  have := List.length_pos_of_mem member
  omega

/-- The configuration at a path with those it builds on. -/
def load (store : Files.Store) (path : Path) : Except ProjectError Resolved :=
  resolveAmong store (filePaths store) (absolute store path)

end Haxify.Config
