import Haxify.Project.SourceFile

/-!
# Programs

All files of a project in the order of their paths, and how a module specifier
leads from one file to another.
-/

namespace Haxify

/-- What a module specifier refers to, seen from a file. -/
inductive ModuleTarget where
  /-- A file of the project, by its number. -/
  | project (index : Nat)
  /-- A module from elsewhere. -/
  | external (specifier : String)
  | unresolved (specifier : String)
deriving DecidableEq, Repr

/-- The files of a project. -/
structure Program where
  /-- The configuration file it was loaded from. -/
  configPath : Option Path
  /-- The directory that source paths are taken relative to. -/
  root : Path
  /-- The package that all modules lie in. -/
  basePackage : String
  /-- The files in the order of their paths. -/
  files : List SourceFile

namespace Program

/-- The path of a source below the root directory. A declaration file elsewhere counts
by its name alone. -/
def relativePath (root path : Path) (kind : TypeScript.SourceKind) : Except ProjectError Path :=
  match path.relativeTo? root with
  | some relative => .ok relative
  | none =>
    if kind = .declaration then .ok ⟨path.fileName?.getD ""⟩
    else .error (.outsideRoot path root)

def claimant? (files : List SourceFile) (address : Haxe.Address) : Option SourceFile :=
  files.find? fun file => file.isLowered && file.address == address

/-- The file made of one source behind the files before it. Sources that are not
TypeScript are passed over. -/
def addSource (grammar : Grammar) (root : Path) (basePackage : String) (files : List SourceFile)
    (path : Path) (source : String) : Except ProjectError (List SourceFile) :=
  match TypeScript.SourceKind.ofPath? path with
  | none => .ok files
  | some kind => do
    let relative ← relativePath root path kind
    let address := Haxe.Address.ofSource relative basePackage
    if kind ≠ .declaration then
      if let some first := claimant? files address then
        throw (.addressCollision first.path path address)
    let tree ← SourceFile.parse grammar path kind source
    return files ++ [
      { path, relative, kind, source, tree, address
        imports := TypeScript.importsOf tree
        exports := TypeScript.exportsOf tree }]

/-- The program of some sources, which are taken in the order of their paths. -/
def assemble (grammar : Grammar) (root : Path) (basePackage : String)
    (sources : List (Path × String)) : Except ProjectError Program := do
  let sorted := sources.mergeSort fun left right => left.1.notAfter right.1
  let files ← sorted.foldlM (fun files (path, source) =>
    addSource grammar root basePackage files path source) []
  return ⟨none, root, basePackage, files⟩

def ofSources (grammar : Grammar) (root : Path) (basePackage : String)
    (sources : List (Path × String)) : Except ProjectError Program :=
  let root := root.normalize
  assemble grammar root basePackage
    (sources.map fun (path, source) => ((root.join path).normalize, source))

/-- The files that modules are made of, with their numbers. -/
def lowered (program : Program) : List (Nat × SourceFile) :=
  (program.files.zipIdx.filter (·.1.isLowered)).map fun (file, index) => (index, file)

def findFrom (path : Path) (index : Nat) : List SourceFile → Option Nat
  | [] => none
  | file :: rest =>
    (findFrom path (index + 1) rest).or (if file.path = path then some index else none)

/-- The number of the file with a normalized path. -/
def findPath (program : Program) (path : Path) : Option Nat :=
  findFrom path 0 program.files

/-- The number of the file with a path. -/
def find (program : Program) (path : Path) : Option Nat :=
  program.findPath path.normalize

/-- Whether a specifier is a path and not the name of a module from elsewhere. -/
def isRelativeSpecifier (specifier : String) : Bool :=
  Text.beginsWith specifier "./" || Text.beginsWith specifier "../" || specifier == "."
    || specifier == ".." || Text.beginsWith specifier "/"

/-- Endings of script names, each with the endings of the sources they stand for. -/
def scriptEndings : List (String × List String) :=
  [(".js", [".ts", ".tsx", ".d.ts"]), (".jsx", [".tsx"]), (".mjs", [".mts", ".d.mts"]),
   (".cjs", [".cts", ".d.cts"])]

def dropEnding (text ending : String) : String :=
  String.ofList (text.toList.take (text.length - ending.length))

/-- The paths that a joined specifier may stand for, in order of preference. -/
def candidates (joined : Path) : List Path :=
  match scriptEndings.find? fun (ending, _) => Text.endsIn joined.text ending with
  | some (ending, endings) => endings.map fun source => ⟨dropEnding joined.text ending ++ source⟩
  | none =>
    if (TypeScript.SourceKind.ofPath? joined).isSome then [joined]
    else
      [".ts", ".tsx", ".d.ts"].map (fun ending => ⟨joined.text ++ ending⟩)
        ++ ["index.ts", "index.tsx", "index.d.ts"].map fun name => joined.join ⟨name⟩

/-- What a specifier refers to, seen from a file at a path. -/
def resolveFrom (program : Program) (path : Path) (specifier : String) : ModuleTarget :=
  if isRelativeSpecifier specifier then
    match (candidates (path.directory.join ⟨specifier⟩).normalize).findSome? program.findPath with
    | some index => .project index
    | none => .unresolved specifier
  else .external specifier

/-- The Haxe path of a member of a file's module. -/
def memberPath (program : Program) (index : Nat) (member : String) : String :=
  match program.files[index]? with
  | some file => file.address.member member
  | none => member

end Program

end Haxify
