import Haxify.Project.Program

/-!
# Following exports

An import names an export of another file, which may itself be a rename, a name
passed on, or one of all the names passed on from a third file. The search
follows that chain to the file and member that declare the value. A query that was
asked before is not asked again, so the search ends on every project, cyclic
ones included.
-/

namespace Haxify

/-- What an exported name stands for. -/
inductive ResolvedExport where
  | member (index : Nat) (name : String) (kind : TypeScript.DeclarationKind)
  /-- A file of the project as a whole. -/
  | whole (index : Nat)
  /-- A member of a module from elsewhere; none is its default export. -/
  | foreign (specifier : String) (name : Option String)
  /-- Something declared in a declaration file, which has no module of its own. -/
  | ambient
deriving DecidableEq, Repr

namespace Exports

/-- A file by its number, and a name it may export. -/
abbrev Query := Nat × String

/-- Where a name comes from, one step on. -/
inductive Origin where
  /-- It is known. -/
  | found (result : ResolvedExport)
  /-- It is what the first of these queries that leads anywhere gives. -/
  | follow (queries : List Query)
deriving DecidableEq, Repr

/-- Where an exported name comes from, one step on. -/
inductive Step where
  /-- A name of the file under another name: a member of its own, whose kind depends
  on what it stands for. -/
  | renamed (member : String) (origin : Origin)
  | plain (origin : Origin)
deriving DecidableEq, Repr

/-- The name of a foreign member; none for the default export. -/
def foreignMember (imported : String) : Option String :=
  if imported == "default" then none else some imported

/-- Where a name imported into a file from another module comes from; a star stands for
the module as a whole. -/
def importOrigin (program : Program) (file : SourceFile) (specifier imported : String) : Origin :=
  match program.resolveFrom file.path specifier with
  | .project target =>
    if imported == "*" then .found (.whole target) else .follow [(target, imported)]
  | .external specifier =>
    if imported == "*" then .follow [] else .found (.foreign specifier (foreignMember imported))
  | .unresolved _ => .follow []

/-- The name that an import statement takes for a local one; a star stands for the
module as a whole. -/
def importedAs? (binding : TypeScript.ImportBinding) (localName : String) : Option String :=
  if binding.defaultName == some localName then some "default"
  else if binding.wholeName == some localName then some "*"
  else (binding.named.find? (·.localName == localName)).map (·.imported)

/-- Where a name bound at the top level of a file comes from: its declaration there, or
else the first import that binds it. -/
def localOrigin (program : Program) (index : Nat) (file : SourceFile) (localName : String) :
    Origin :=
  match file.exports.kindOf? localName with
  | some kind => .found (.member index (Haxe.sanitize localName) kind)
  | none =>
    let imported := file.imports.findSome? fun binding =>
      (importedAs? binding localName).map fun name => (binding.specifier, name)
    match imported with
    | some (specifier, name) => importOrigin program file specifier name
    | none => .follow []

/-- The files of the project all of whose names a file passes on. -/
def wildcardTargets (program : Program) (file : SourceFile) : List Nat :=
  file.exports.wildcards.filterMap fun specifier =>
    match program.resolveFrom file.path specifier with
    | .project target => some target
    | _ => none

/-- Where a name comes from that is neither a default nor listed as an export: a
name passed on, or else a name of the files passed on as a whole. -/
def passedOn (program : Program) (file : SourceFile) (name : String) : Origin :=
  match file.exports.reExports.find? (·.exported == name) with
  | some passed => importOrigin program file passed.specifier passed.imported
  | none =>
    if name == "default" then .follow []
    else .follow ((wildcardTargets program file).map fun target => (target, name))

/-- Where a name that is no default export comes from. -/
def namedStep (program : Program) (index : Nat) (file : SourceFile) (name : String) : Step :=
  match file.exports.named.find? (·.exported == name) with
  | some entry =>
    let origin := localOrigin program index file entry.localName
    if entry.isRenamed then .renamed (Haxe.sanitize name) origin else .plain origin
  | none => .plain (passedOn program file name)

/-- Where an exported name of a file comes from, one step on. -/
def step (program : Program) (query : Query) : Step :=
  match program.files[query.1]? with
  | none => .plain (.follow [])
  | some file =>
    if !file.isLowered then .plain (.found .ambient)
    else
      match (if query.2 == "default" then file.exports.default? else none) with
      | some (.named localName) => .plain (localOrigin program query.1 file localName)
      | some (.anonymous kind) => .plain (.found (.member query.1 Haxe.defaultMember kind))
      | none => namedStep program query.1 file query.2

/-- The kind of a member that is another name for something. -/
def renamedKind : Option ResolvedExport → TypeScript.DeclarationKind
  | some (.member _ _ .classType) => .classType
  | some (.member _ _ .interfaceType) | some (.member _ _ .typeAlias) => .typeAlias
  | _ => .variable

/-- What the first of the pending queries that leads anywhere gives. `unasked` holds
the queries that may still be asked. -/
def search (program : Program) (unasked : List Query) (pending : List Query) :
    Option ResolvedExport :=
  match pending with
  | [] => none
  | query :: rest =>
    if unasked.contains query then
      match step program query with
      | .plain (.found result) => some result
      | .plain (.follow queries) => search program (unasked.erase query) (queries ++ rest)
      | .renamed member (.found result) =>
        some (.member query.1 member (renamedKind (some result)))
      | .renamed member (.follow queries) =>
        some (.member query.1 member
          (renamedKind (search program (unasked.erase query) queries)))
    else search program unasked rest
termination_by (unasked.length, pending.length)
decreasing_by
  all_goals simp_wf
  iterate 2
    · have member : query ∈ unasked := List.contains_iff_mem.1 ‹_›
      have := List.length_erase_of_mem member
      have := List.length_pos_of_mem member
      omega
  · omega

def askedNames (file : SourceFile) : List String :=
  file.imports.flatMap (fun binding => binding.named.map (·.imported))
    ++ file.exports.reExports.map (·.imported)

/-- All queries that a search for one name can come to. -/
def queries (program : Program) (name : String) : List Query :=
  let names := (name :: "default" :: program.files.flatMap askedNames).eraseDups
  (List.range program.files.length).flatMap fun index => names.map fun name => (index, name)

def resolve (program : Program) (index : Nat) (name : String) : Option ResolvedExport :=
  search program (queries program name) [(index, name)]

/-- What a name at the top level of a file stands for. -/
def resolveLocal (program : Program) (index : Nat) (localName : String) : Option ResolvedExport :=
  match program.files[index]? with
  | none => none
  | some file =>
    match localOrigin program index file localName with
    | .found result => some result
    | .follow pending => search program (queries program "default") pending

end Exports

end Haxify
