import Haxify.Foreign.Collect
import Haxify.Lower.Imports
import Haxify.Proofs.Exports
import Haxify.Proofs.Registry

/-!
# Foreign names are declared

The foreign modules of a program are collected before any file is lowered, by a look at its
imports, its exports and its trees. Lowering a file then spells foreign names by paths into
the extern classes. Main statement: what is collected is exactly what some file uses as a
value, and every path that lowering spells for a foreign import, for a member of a foreign
module as a whole, or for a name that comes from a foreign module through other files, is
that of a static which the extern class declares.
-/

namespace Haxify.Foreign

open List
open TypeScript (Node decodeLiteral ImportBinding ReExport)

/-- A node that reads a member of a name: a property by its name, or an element by a text. -/
structure Accesses (node : Node) (name member : String) : Prop where
  object : ∃ object, node.field? "object" = some object ∧ object.kind = "identifier" ∧
    object.text = name
  property : ∃ field property,
    (node.kind = "member_expression" ∧ field = "property" ∨
      node.kind = "subscript_expression" ∧ field = "index") ∧
    node.field? field = some property ∧
    (property.kind = "property_identifier" ∧ member = property.text ∨
      property.kind = "string" ∧ member = decodeLiteral property.text)

def useOfMember : Option String → Use
  | none => .default
  | some name => .member name

/-- A statement of a lowered file that imports from a foreign module. -/
structure ImportsFrom (program : Program) (specifier : String) (file : SourceFile)
    (binding : ImportBinding) : Prop where
  known : file ∈ program.files
  lowered : file.isLowered
  listed : binding ∈ file.imports
  resolved : program.resolveFrom file.path binding.specifier = .external specifier

/-- A name that a lowered file passes on from a foreign module. -/
structure PassesFrom (program : Program) (specifier : String) (file : SourceFile)
    (passed : ReExport) : Prop where
  known : file ∈ program.files
  lowered : file.isLowered
  listed : passed ∈ file.exports.reExports
  resolved : program.resolveFrom file.path passed.specifier = .external specifier
  part : passed.imported ≠ "*"

/-- A use that some file of a program makes of a foreign module as a value. -/
inductive Justified (program : Program) (specifier : String) : Use → Prop where
  | whole {file binding} (imports : ImportsFrom program specifier file binding)
      (values : binding.typeOnly = false)
      (taken : binding.defaultName.isSome ∨ binding.wholeName.isSome ∨
        ∃ name ∈ binding.named, name.typeOnly = false) : Justified program specifier .whole
  | default {file binding localName} (imports : ImportsFrom program specifier file binding)
      (values : binding.typeOnly = false) (bound : binding.defaultName = some localName) :
      Justified program specifier .default
  | named {file binding name} (imports : ImportsFrom program specifier file binding)
      (values : binding.typeOnly = false) (inside : name ∈ binding.named)
      (value : name.typeOnly = false) : Justified program specifier (useOf name.imported)
  | accessed {file binding localName node member}
      (imports : ImportsFrom program specifier file binding) (values : binding.typeOnly = false)
      (bound : binding.wholeName = some localName) (inside : node ∈ file.tree.descendants)
      (accesses : Accesses node localName member) : Justified program specifier (.member member)
  | passed {file passed} (passes : PassesFrom program specifier file passed)
      (values : passed.typeOnly = false) : Justified program specifier (useOf passed.imported)

/-- A path to a static that the extern class of a module declares. -/
def Declares (registry : Registry) (specifier path : String) : Prop :=
  ∃ binding ∈ registry.bindings, binding.descriptor.specifier = specifier ∧
    ∃ static ∈ binding.descriptor.statics, path = binding.address.qualified ++ "." ++ static.name

/-- An entry of a lowered file that names a member of a foreign module, and whether it names
it as a type only. -/
inductive Names (program : Program) (specifier : String) (member : Option String) : Bool → Prop
  where
  | default {file binding localName} (imports : ImportsFrom program specifier file binding)
      (bound : binding.defaultName = some localName) (same : member = none) :
      Names program specifier member binding.typeOnly
  | named {file binding name} (imports : ImportsFrom program specifier file binding)
      (inside : name ∈ binding.named) (same : member = Exports.foreignMember name.imported) :
      Names program specifier member (binding.typeOnly || name.typeOnly)
  | passed {file passed} (passes : PassesFrom program specifier file passed)
      (same : member = Exports.foreignMember passed.imported) :
      Names program specifier member passed.typeOnly

section Collecting

variable {program : Program} {file : SourceFile} {specifier : String} {use : Use}
variable {binding : ImportBinding} {member : Option String}

theorem memberAccess?_eq_some_iff {name member : String} {node : Node} :
    memberAccess? name node = some member ↔ Accesses node name member := by
  have field_iff {field : String} : accessField? node.kind = some field ↔
      (node.kind = "member_expression" ∧ field = "property" ∨
        node.kind = "subscript_expression" ∧ field = "index") := by
    rw [accessField?]
    by_cases isMember : node.kind = "member_expression"
    · simp [isMember, eq_comm]
    · by_cases isElement : node.kind = "subscript_expression"
      · simp [isElement, eq_comm]
      · simp [isMember, isElement]
  have name_iff {property : Node} : accessedName? property = some member ↔
      (property.kind = "property_identifier" ∧ member = property.text ∨
        property.kind = "string" ∧ member = decodeLiteral property.text) := by
    rw [accessedName?]
    by_cases isName : property.kind = "property_identifier"
    · simp [isName, eq_comm]
    · by_cases isText : property.kind = "string"
      · simp [isText, eq_comm]
      · simp [isName, isText]
  simp only [memberAccess?, Option.bind_eq_bind, Option.bind_eq_some_iff]
  constructor
  · rintro ⟨field, kind, object, foundObject, property, foundProperty, named⟩
    split at named
    · rename_i isName
      rw [Bool.and_eq_true, beq_iff_eq, beq_iff_eq] at isName
      exact ⟨⟨object, foundObject, isName⟩, field, property, field_iff.mp kind, foundProperty,
        name_iff.mp named⟩
    · cases named
  · rintro ⟨⟨object, foundObject, isName⟩, field, property, kind, foundProperty, named⟩
    refine ⟨field, field_iff.mpr kind, object, foundObject, property, foundProperty, ?_⟩
    rw [if_pos (by rw [Bool.and_eq_true, beq_iff_eq, beq_iff_eq]; exact isName)]
    exact name_iff.mpr named

theorem takesValues_iff :
    takesValues binding ↔ binding.typeOnly = false ∧
      (binding.defaultName.isSome ∨ binding.wholeName.isSome ∨
        ∃ name ∈ binding.named, name.typeOnly = false) := by
  simp [takesValues, or_assoc]

theorem mem_usesOf {written : String} {uses : List Use} :
    (specifier, use) ∈ usesOf program file written uses ↔
      program.resolveFrom file.path written = .external specifier ∧ use ∈ uses := by
  rw [usesOf]
  split
  · rename_i found resolved
    rw [resolved, mem_map]
    constructor
    · rintro ⟨action, member, same⟩
      cases same
      exact ⟨rfl, member⟩
    · rintro ⟨same, member⟩
      cases same
      exact ⟨use, member, rfl⟩
  · rename_i other
    refine iff_of_false (by simp) fun both => other specifier both.1

theorem mem_importUses {tree : Node} :
    use ∈ importUses tree binding ↔ takesValues binding ∧
      (use = .whole ∨ (use = .default ∧ binding.defaultName.isSome) ∨
        (∃ name ∈ binding.named, name.typeOnly = false ∧ use = useOf name.imported) ∨
        ∃ name node member, binding.wholeName = some name ∧ node ∈ tree.descendants ∧
          Accesses node name member ∧ use = .member member) := by
  rw [importUses]
  by_cases values : takesValues binding
  · rw [if_pos values]
    simp only [values, true_and, mem_append, mem_cons, mem_map, mem_flatMap,
      mem_filter, Option.mem_toList, accessedMembers, mem_filterMap,
      memberAccess?_eq_some_iff]
    constructor
    · rintro (((rfl | ⟨name, bound, rfl⟩) | ⟨name, ⟨inside, value⟩, rfl⟩) |
        ⟨member, ⟨name, bound, node, inside, accesses⟩, rfl⟩)
      · exact .inl rfl
      · exact .inr (.inl ⟨rfl, by rw [Option.mem_def.mp bound]; rfl⟩)
      · exact .inr (.inr (.inl ⟨name, inside, by simpa using value, rfl⟩))
      · exact .inr (.inr (.inr ⟨name, node, member, bound, inside, accesses, rfl⟩))
    · rintro (rfl | ⟨rfl, bound⟩ | ⟨name, inside, value, rfl⟩ |
        ⟨name, node, member, bound, inside, accesses, rfl⟩)
      · exact .inl (.inl (.inl rfl))
      · obtain ⟨name, found⟩ := Option.isSome_iff_exists.mp bound
        exact .inl (.inl (.inr ⟨name, found, rfl⟩))
      · exact .inl (.inr ⟨name, ⟨inside, by simpa using value⟩, rfl⟩)
      · exact .inr ⟨member, ⟨name, bound, node, inside, accesses⟩, rfl⟩
  · rw [if_neg values]
    exact iff_of_false (by simp) fun both => values both.1

theorem ImportsFrom.mem_fileUses (imports : ImportsFrom program specifier file binding)
    (member : use ∈ importUses file.tree binding) :
    (specifier, use) ∈ (program.files.filter (·.isLowered)).flatMap (fileUses program) := by
  have kept := mem_filter.mpr ⟨imports.known, imports.lowered⟩
  refine mem_flatMap.mpr ⟨file, kept, mem_append_left _ ?_⟩
  exact mem_flatMap.mpr ⟨binding, imports.listed, mem_usesOf.mpr ⟨imports.resolved, member⟩⟩

theorem PassesFrom.mem_fileUses {passed : ReExport}
    (passes : PassesFrom program specifier file passed) (values : passed.typeOnly = false) :
    (specifier, useOf passed.imported) ∈
      (program.files.filter (·.isLowered)).flatMap (fileUses program) := by
  have kept := mem_filter.mpr ⟨passes.known, passes.lowered⟩
  have listed : useOf passed.imported ∈ passedUses passed := by
    rw [passedUses, if_neg (by simp [values, passes.part])]
    exact mem_singleton.mpr rfl
  refine mem_flatMap.mpr ⟨file, kept, mem_append_right _ ?_⟩
  exact mem_flatMap.mpr ⟨passed, passes.listed, mem_usesOf.mpr ⟨passes.resolved, listed⟩⟩

theorem mem_fileUses_iff :
    (specifier, use) ∈ (program.files.filter (·.isLowered)).flatMap (fileUses program) ↔
      Justified program specifier use := by
  constructor
  · simp only [mem_flatMap, mem_filter, fileUses, mem_append, mem_usesOf]
    rintro ⟨file, ⟨known, lowered⟩,
      ⟨binding, listed, resolved, member⟩ | ⟨passed, listed, resolved, member⟩⟩
    · have imports : ImportsFrom program specifier file binding :=
        ⟨known, lowered, listed, resolved⟩
      obtain ⟨values, action⟩ := mem_importUses.mp member
      obtain ⟨value, taken⟩ := takesValues_iff.mp values
      rcases action with rfl | ⟨rfl, bound⟩ | ⟨name, inside, named, rfl⟩ |
        ⟨name, node, accessed, bound, inside, accesses, rfl⟩
      · exact .whole imports value taken
      · obtain ⟨localName, found⟩ := Option.isSome_iff_exists.mp bound
        exact .default imports value found
      · exact .named imports value inside named
      · exact .accessed imports value bound inside accesses
    · rw [passedUses] at member
      split at member
      · cases member
      rename_i values
      rw [Bool.or_eq_true, not_or, beq_iff_eq] at values
      rw [mem_singleton.mp member]
      exact .passed ⟨known, lowered, listed, resolved, values.2⟩ ((Bool.not_eq_true _).mp values.1)
  · intro justified
    cases justified with
    | whole imports values taken =>
      exact imports.mem_fileUses (mem_importUses.mpr
        ⟨takesValues_iff.mpr ⟨values, taken⟩, .inl rfl⟩)
    | @default file binding localName imports values bound =>
      have some : binding.defaultName.isSome := by rw [bound]; rfl
      exact imports.mem_fileUses (mem_importUses.mpr
        ⟨takesValues_iff.mpr ⟨values, .inl some⟩, .inr (.inl ⟨rfl, some⟩)⟩)
    | named imports values inside value =>
      exact imports.mem_fileUses (mem_importUses.mpr
        ⟨takesValues_iff.mpr ⟨values, .inr (.inr ⟨_, inside, value⟩)⟩,
          .inr (.inr (.inl ⟨_, inside, value, rfl⟩))⟩)
    | @accessed file binding localName node member imports values bound inside accesses =>
      have some : binding.wholeName.isSome := by rw [bound]; rfl
      exact imports.mem_fileUses (mem_importUses.mpr
        ⟨takesValues_iff.mpr ⟨values, .inr (.inl some)⟩,
          .inr (.inr (.inr ⟨localName, node, member, bound, inside, accesses, rfl⟩))⟩)
    | passed passes values => exact passes.mem_fileUses values

theorem records_registryOf (program : Program) :
    Records ((program.files.filter (·.isLowered)).flatMap (fileUses program))
      ((registryOf program).bindings.map (·.descriptor)) := by
  rw [registryOf, Registry.around, map_descriptor_assign]
  exact records_recordAll _

theorem exists_memberPath (justified : Justified program specifier (useOfMember member)) :
    ∃ path, (registryOf program).memberPath? specifier member = some path ∧
      Declares (registryOf program) specifier path := by
  have records := records_registryOf program
  have recorded := mem_fileUses_iff.mpr justified
  obtain ⟨module, listed, same⟩ := records.listed specifier _ recorded
  obtain ⟨binding, known, rfl⟩ := mem_map.mp listed
  have found := (find?_eq_some_iff records.sorted).mpr ⟨known, same⟩
  refine ⟨_, by rw [Registry.memberPath?, Registry.address?, found]; rfl, binding, known, same, ?_⟩
  rw [← same] at recorded
  cases member with
  | none =>
    have marked := (records.default _ listed).mpr recorded
    refine ⟨⟨Haxe.defaultMember, some "default"⟩, mem_append_left _ ?_, rfl⟩
    rw [if_pos marked]
    exact mem_singleton.mpr rfl
  | some name =>
    have inside := (records.member _ listed name).mpr recorded
    exact ⟨Static.ofMember name, mem_append_right _ (mem_map_of_mem inside), rfl⟩

theorem useOf_eq (imported : String) :
    useOf imported = useOfMember (Exports.foreignMember imported) := by
  rw [useOf, Exports.foreignMember]
  split
  · rfl
  · rfl

theorem Names.justified (names : Names program specifier member false) :
    Justified program specifier (useOfMember member) := by
  generalize flag : false = typeOnly at names
  cases names with
  | default imports bound same =>
    rw [same]
    exact .default imports flag.symm bound
  | named imports inside same =>
    obtain ⟨values, value⟩ := Bool.or_eq_false_iff.mp flag.symm
    rw [same, ← useOf_eq]
    exact .named imports values inside value
  | passed passes same =>
    rw [same, ← useOf_eq]
    exact .passed passes flag.symm

theorem names_of_resolve {index : Nat} {name : String}
    (found : Exports.resolve program index name = some (.foreign specifier member)) :
    ∃ typeOnly, Names program specifier member typeOnly := by
  obtain ⟨query, listed, last, chain, ends⟩ := Exports.search_sound found
  generalize target : Exports.targetOf (.foreign specifier member) = reached at ends
  cases ends with
  | ambient | expression | renamed | passedWhole | declared | importedWhole => cases target
  | passedForeign made unlisted here resolved part =>
    cases target
    have inside := mem_of_find?_eq_some here
    exact ⟨_, .passed ⟨mem_of_getElem? made.here, made.lowered, inside, resolved, part⟩ rfl⟩
  | @importedForeign _ file localName written _ imported here undeclared first resolved part =>
    cases target
    obtain ⟨other, made⟩ := Exports.lowered_of_bound chain
    cases made.here.symm.trans here
    obtain ⟨binding, inside, taken⟩ := exists_of_findSome?_eq_some first
    obtain ⟨name, known, same⟩ := Option.map_eq_some_iff.mp taken
    cases same
    have imports : ImportsFrom program specifier file binding :=
      ⟨mem_of_getElem? here, made.lowered, inside, resolved⟩
    rw [Exports.importedAs?] at known
    split at known
    · rename_i isDefault
      cases known
      exact ⟨_, .default imports (eq_of_beq isDefault) rfl⟩
    · split at known
      · cases known
        exact absurd rfl part
      · obtain ⟨entry, listed, rfl⟩ := Option.map_eq_some_iff.mp known
        exact ⟨_, .named imports (mem_of_find?_eq_some listed) rfl⟩

end Collecting

end Haxify.Foreign

namespace Haxify.Lower

open Foreign List

variable {imports : Imports} {name specifier imported localName path base : String} {target : Nat}
variable {typeOnly : Bool} {member : Option String}
variable {α : Type}

section Spelling

variable {program : Program} {registry : Registry} {binding : TypeScript.ImportBinding}
variable {after : Imports} {file : SourceFile}

/-- A part of what a file imports: a line, or a name with its spelling. -/
inductive Imports.Part where
  | line (text : String)
  | spelled (name : String) (spelling : Spelling)

def Imports.Has (imports : Imports) : Imports.Part → Prop
  | .line text => text ∈ imports.lines
  | .spelled name spelling => (name, spelling) ∈ imports.spellings

/-- What there is afterwards is what there was before and what is brought. -/
def Brings (brings : Imports.Part → Prop) (before after : Imports) : Prop :=
  ∀ part, after.Has part ↔ before.Has part ∨ brings part

/-- The names that a statement binds. -/
def boundByImport (binding : TypeScript.ImportBinding) : List String :=
  binding.defaultName.toList ++ binding.wholeName.toList ++ binding.named.map (·.localName)

/-- What a statement brings that imports from a foreign module: the spelling of its default name,
of the name of the module as a whole, or of one of its names. -/
inductive ForeignBrings (registry : Registry) (binding : TypeScript.ImportBinding)
    (specifier : String) : Imports.Part → Prop where
  | default {name : String} {spelling : Spelling} (bound : binding.defaultName = some name)
      (spells : foreignSpelling registry binding specifier binding.typeOnly none = .ok spelling) :
      ForeignBrings registry binding specifier (.spelled name spelling)
  | whole {name : String} {spelling : Spelling} (bound : binding.wholeName = some name)
      (same : spelling = foreignWhole registry binding specifier) :
      ForeignBrings registry binding specifier (.spelled name spelling)
  | named {name : TypeScript.ImportedName} {spelling : Spelling} (listed : name ∈ binding.named)
      (spells : foreignSpelling registry binding specifier (binding.typeOnly || name.typeOnly)
        (Exports.foreignMember name.imported) = .ok spelling) :
      ForeignBrings registry binding specifier (.spelled name.localName spelling)

/-- What one name brings that is imported from a file of the project. -/
inductive NameBrings (program : Program) (registry : Registry) (target : Nat)
    (imported localName : String) : Imports.Part → Prop where
  | member {index : Nat} {member : String} {kind : TypeScript.DeclarationKind}
      (found : Exports.resolve program target imported = some (.member index member kind)) :
      NameBrings program registry target imported localName
        (.line (Imports.line (program.memberPath index member) member localName))
  | whole {index : Nat} (found : Exports.resolve program target imported = some (.whole index)) :
      NameBrings program registry target imported localName
        (.spelled localName (.projectModule index))
  | foreign {specifier path : String} {member : Option String}
      (found : Exports.resolve program target imported = some (.foreign specifier member))
      (known : registry.memberPath? specifier member = some path) :
      NameBrings program registry target imported localName (.spelled localName (.foreign path))

/-- What one import statement brings. -/
inductive StatementBrings (program : Program) (registry : Registry) (path : Path)
    (binding : TypeScript.ImportBinding) : Imports.Part → Prop where
  | foreign {specifier : String} {part : Imports.Part}
      (resolved : program.resolveFrom path binding.specifier = .external specifier)
      (brings : ForeignBrings registry binding specifier part) :
      StatementBrings program registry path binding part
  | whole {target : Nat} {name : String} {spelling : Spelling}
      (resolved : program.resolveFrom path binding.specifier = .project target)
      (bound : binding.wholeName = some name)
      (same : spelling = if (program.files[target]?).any (·.isLowered) then .projectModule target
        else .ambientModule) :
      StatementBrings program registry path binding (.spelled name spelling)
  | named {target : Nat} {wanted : String × String} {part : Imports.Part}
      (resolved : program.resolveFrom path binding.specifier = .project target)
      (made : (program.files[target]?).any (·.isLowered)) (listed : wanted ∈ wantedNames binding)
      (brings : NameBrings program registry target wanted.1 wanted.2 part) :
      StatementBrings program registry path binding part

section Bringing

variable {before between : Imports} {first second : Imports.Part → Prop}

theorem Brings.trans (brings : Brings first before between) (more : Brings second between after) :
    Brings (fun part => first part ∨ second part) before after := by
  intro part
  rw [more part, brings part, or_assoc]

theorem Brings.congr (brings : Brings first before after)
    (same : ∀ part, first part ↔ second part) :
    Brings second before after := by
  intro part
  rw [brings part, same part]

theorem brings_adding (imports : Imports) (line : String) :
    Brings (· = .line line) imports (imports.adding line) := by
  intro part
  rw [Imports.adding]
  split
  · rename_i there
    refine ⟨.inl, fun known => known.elim id ?_⟩
    rintro rfl
    exact contains_iff_mem.mp there
  · cases part <;> simp [Imports.Has]

theorem brings_spelling (imports : Imports) (name : String) (spelling : Spelling) :
    Brings (· = .spelled name spelling) imports (imports.spelling name spelling) := by
  intro part
  cases part <;> simp [Imports.Has, Imports.spelling, or_comm]

theorem brings_spelling_bind {spelled : Except Unsupported Spelling}
    (run : (do return imports.spelling name (← spelled)) = Except.ok after) :
    Brings (fun part => ∃ spelling, spelled = .ok spelling ∧ part = .spelled name spelling)
      imports after := by
  obtain ⟨spelling, found, same⟩ := Program.bind_eq_ok.mp run
  cases same
  simpa [found] using brings_spelling imports name spelling

theorem brings_whole (whole? : Option String) (spelling : Spelling) :
    Brings (fun part => ∃ name, whole? = some name ∧ part = .spelled name spelling) imports
      (whole?.toList.foldl (fun imports name => imports.spelling name spelling) imports) := by
  cases whole? with
  | none => simp [Brings]
  | some name => simpa using brings_spelling imports name spelling

/-- Steps taken one after another bring what each of them brings, and each of them is taken. -/
theorem brings_foldlM {brings : α → Imports.Part → Prop} {items : List α}
    {step : Imports → α → Except Unsupported Imports}
    (run : items.foldlM step imports = .ok after)
    (each : ∀ item before after, step before item = .ok after → Brings (brings item) before after) :
    Brings (fun part => ∃ item ∈ items, brings item part) imports after ∧
      ∀ item ∈ items, ∃ before after, step before item = .ok after := by
  induction items generalizing imports with
  | nil =>
    rw [foldlM_nil] at run
    cases run
    simp [Brings]
  | cons item rest rest_brings =>
    rw [foldlM_cons] at run
    obtain ⟨between, taken, behind⟩ := Program.bind_eq_ok.mp run
    obtain ⟨later, all⟩ := rest_brings behind
    refine ⟨((each item _ _ taken).trans later).congr (by simp), ?_⟩
    exact forall_mem_cons.mpr ⟨⟨_, _, taken⟩, all⟩

end Bringing

theorem brings_importForeign (run : importForeign registry binding specifier imports = .ok after) :
    Brings (ForeignBrings registry binding specifier) imports after ∧
      ∀ name ∈ boundByImport binding,
        ∃ spelling, ForeignBrings registry binding specifier (.spelled name spelling) := by
  rw [importForeign] at run
  split at run
  · cases run
  obtain ⟨withDefault, first, rest⟩ := Program.bind_eq_ok.mp run
  obtain ⟨default, defaultTaken⟩ := brings_foldlM first fun _ _ _ => brings_spelling_bind
  obtain ⟨named, namedTaken⟩ := brings_foldlM rest fun _ _ _ => brings_spelling_bind
  refine ⟨((default.trans (brings_whole _ _)).trans named).congr fun part => ⟨?_, ?_⟩, ?_⟩
  · rintro ((⟨name, bound, spelling, spells, rfl⟩ | ⟨name, bound, rfl⟩) |
      ⟨name, listed, spelling, spells, rfl⟩)
    · exact .default (Option.mem_toList.mp bound) spells
    · exact .whole bound rfl
    · exact .named listed spells
  · intro brings
    cases brings with
    | default bound spells =>
      exact .inl (.inl ⟨_, Option.mem_toList.mpr bound, _, spells, rfl⟩)
    | whole bound same => exact .inl (.inr ⟨_, bound, by rw [same]⟩)
    | named listed spells => exact .inr ⟨_, listed, _, spells, rfl⟩
  · intro name bound
    rcases mem_append.mp bound with earlier | entry
    · rcases mem_append.mp earlier with isDefault | isWhole
      · obtain ⟨_, _, taken⟩ := defaultTaken name isDefault
        obtain ⟨spelling, spells, _⟩ := Program.bind_eq_ok.mp taken
        exact ⟨spelling, .default (Option.mem_toList.mp isDefault) spells⟩
      · exact ⟨_, .whole (Option.mem_toList.mp isWhole) rfl⟩
    · obtain ⟨given, listed, rfl⟩ := mem_map.mp entry
      obtain ⟨_, _, taken⟩ := namedTaken given listed
      obtain ⟨spelling, spells, _⟩ := Program.bind_eq_ok.mp taken
      exact ⟨spelling, .named listed spells⟩

theorem brings_importName
    (run : importName program registry binding target imports imported localName = .ok after) :
    Brings (NameBrings program registry target imported localName) imports after := by
  rw [importName] at run
  split at run
  · cases run
  · rename_i found
    cases run
    refine (brings_adding _ _).congr fun part => ⟨?_, fun brings => ?_⟩
    · rintro rfl
      exact .member found
    · cases brings <;> simp_all
  · rename_i found
    cases run
    refine (brings_spelling _ _ _).congr fun part => ⟨?_, fun brings => ?_⟩
    · rintro rfl
      exact .whole found
    · cases brings <;> simp_all
  · rename_i found
    split at run
    · rename_i known
      cases run
      refine (brings_spelling _ _ _).congr fun part => ⟨?_, fun brings => ?_⟩
      · rintro rfl
        exact .foreign found known
      · cases brings <;> simp_all
    · cases run
  · cases run
    refine fun part => ⟨.inl, fun known => known.elim id fun brings => ?_⟩
    cases brings <;> simp_all

theorem brings_importStatement {path : Path}
    (run : importStatement program registry path imports binding = .ok after) :
    Brings (StatementBrings program registry path binding) imports after := by
  rw [importStatement] at run
  split at run
  · rename_i specifier resolved
    refine (brings_importForeign run).1.congr fun part => ⟨.foreign resolved, fun brings => ?_⟩
    cases brings <;> simp_all
  · cases run
  · rename_i target resolved
    rw [importProject] at run
    dsimp only at run
    split at run
    · rename_i made
      refine ((brings_whole _ _).trans (brings_foldlM run
        fun _ _ _ => brings_importName).1).congr fun part => ⟨?_, fun brings => ?_⟩
      · rintro (⟨name, bound, rfl⟩ | ⟨wanted, listed, brings⟩)
        · exact .whole resolved bound (if_pos made).symm
        · exact .named resolved made listed brings
      · cases brings with
        | foreign other _ => cases resolved.symm.trans other
        | whole again bound same =>
          cases resolved.symm.trans again
          exact .inl ⟨_, bound, by rw [same, if_pos made]⟩
        | named again _ listed brings =>
          cases resolved.symm.trans again
          exact .inr ⟨_, listed, brings⟩
    · rename_i declares
      cases run
      refine (brings_whole _ _).congr fun part => ⟨?_, fun brings => ?_⟩
      · rintro ⟨name, bound, rfl⟩
        exact .whole resolved bound (if_neg declares).symm
      · cases brings <;> simp_all

variable (run : importsOf program registry file = .ok imports)
include run

/-- A file imports what its statements bring. -/
theorem has_importsOf (part : Imports.Part) :
    imports.Has part ↔
      ∃ binding ∈ file.imports, StatementBrings program registry file.path binding part := by
  rw [(brings_foldlM run fun _ _ _ => brings_importStatement).1 part]
  refine or_iff_right fun nothing => ?_
  cases part <;> cases nothing

omit run in
theorem foreignSpelling_eq_foreign
    (spelled : foreignSpelling registry binding specifier typeOnly member = .ok (.foreign path)) :
    typeOnly = false ∧ registry.memberPath? specifier member = some path := by
  rw [foreignSpelling] at spelled
  split at spelled
  · cases spelled
  rename_i value
  rw [foreignValue] at spelled
  split at spelled
  · rename_i found known
    cases spelled
    exact ⟨(Bool.not_eq_true _).mp value, known⟩
  · cases spelled

omit run in
theorem foreignSpelling_ne_foreignModule :
    foreignSpelling registry binding specifier typeOnly member ≠ .ok (.foreignModule base) := by
  intro spelled
  rw [foreignSpelling] at spelled
  split at spelled
  · cases spelled
  rw [foreignValue] at spelled
  split at spelled
  · cases spelled
  · cases spelled

omit run in
theorem foreignWhole_ne_foreign : foreignWhole registry binding specifier ≠ .foreign path := by
  rw [foreignWhole]
  split
  · split <;> simp
  · simp

/-- A name that is spelled as a member of a foreign module has the path of that member. -/
theorem memberPath?_of_spelled (spelled : (name, Spelling.foreign path) ∈ imports.spellings) :
    ∃ specifier member, registry.memberPath? specifier member = some path := by
  obtain ⟨binding, _, brings⟩ := (has_importsOf run (.spelled name (.foreign path))).mp spelled
  cases brings with
  | foreign resolved brings =>
    cases brings with
    | default bound spells | named listed spells =>
      exact ⟨_, _, (foreignSpelling_eq_foreign spells).2⟩
    | whole bound same => exact absurd same.symm foreignWhole_ne_foreign
  | whole resolved bound same => split at same <;> cases same
  | named resolved made listed brings =>
    cases brings with
    | foreign found known => exact ⟨_, _, known⟩

omit run in
theorem declares_of_foreignBrings (imports : ImportsFrom program specifier file binding)
    (brings : ForeignBrings (registryOf program) binding specifier
      (.spelled name (.foreign path))) :
    Declares (registryOf program) specifier path := by
  have declared {member : Option String}
      (justified : Justified program specifier (useOfMember member))
      (known : (registryOf program).memberPath? specifier member = some path) :
      Declares (registryOf program) specifier path := by
    obtain ⟨found, same, declares⟩ := exists_memberPath justified
    cases known.symm.trans same
    exact declares
  cases brings with
  | default bound value =>
    obtain ⟨values, known⟩ := foreignSpelling_eq_foreign value
    have justified : Justified program specifier (useOfMember none) := .default imports values bound
    exact declared justified known
  | whole bound same => exact absurd same.symm foreignWhole_ne_foreign
  | named inside value =>
    obtain ⟨values, known⟩ := foreignSpelling_eq_foreign value
    obtain ⟨ours, theirs⟩ := Bool.or_eq_false_iff.mp values
    refine declared ?_ known
    rw [← useOf_eq]
    exact .named imports ours inside theirs

/-- A name that is spelled as a foreign module was imported as a whole, for its values, and
is spelled by the address of its extern class. -/
theorem whole_of_spelled (spelled : (name, Spelling.foreignModule base) ∈ imports.spellings) :
    ∃ binding ∈ file.imports, ∃ specifier address,
      program.resolveFrom file.path binding.specifier = .external specifier ∧
        binding.wholeName = some name ∧ binding.typeOnly = false ∧
        registry.address? specifier = some address ∧ base = address.qualified := by
  obtain ⟨binding, listed, brings⟩ :=
    (has_importsOf run (.spelled name (.foreignModule base))).mp spelled
  cases brings with
  | foreign resolved brings =>
    cases brings with
    | default bound value | named inside value =>
      exact absurd value foreignSpelling_ne_foreignModule
    | whole bound same =>
      rw [foreignWhole] at same
      split at same
      · rename_i address found
        split at same
        · cases same
        rename_i values
        cases same
        exact ⟨binding, listed, _, address, resolved, bound,
          (Bool.not_eq_true _).mp values, found, rfl⟩
      · cases same
  | whole resolved bound same => split at same <;> cases same
  | named resolved made wanted brings => cases brings

omit run

/-- Where a name is spelled as a foreign module, every member that the file reads of it is
spelled by a path that is declared. -/
theorem moduleMember_declares {view : View} (known : file ∈ program.files)
    (lowered : file.isLowered) (run : importsOf program (registryOf program) file = .ok imports)
    (spellings : view.context.spellings = imports.spellings)
    (spelled : view.spelling? name = some (.foreignModule base)) :
    ∃ specifier binding, ImportsFrom program specifier file binding ∧
      binding.wholeName = some name ∧
      ∀ node ∈ file.tree.descendants, ∀ member, Accesses node name member →
        ∃ path, view.moduleMember name member = .ok (some path) ∧
          Declares (registryOf program) specifier path := by
  have listed : (name, Spelling.foreignModule base) ∈ imports.spellings := by
    rw [View.spelling?] at spelled
    split at spelled
    · cases spelled
    obtain ⟨_, _, split, _⟩ := lookup_eq_some_iff.mp spelled
    rw [← spellings, split]
    exact mem_append_right _ (.head _)
  obtain ⟨binding, inside, specifier, address, resolved, bound, values, found, rfl⟩ :=
    whole_of_spelled run listed
  have imported : ImportsFrom program specifier file binding := ⟨known, lowered, inside, resolved⟩
  refine ⟨specifier, binding, imported, bound, fun node below member accesses => ?_⟩
  have justified : Justified program specifier (useOfMember (some member)) :=
    .accessed imported values bound below accesses
  obtain ⟨path, same, declares⟩ := exists_memberPath justified
  rw [Registry.memberPath?, found] at same
  cases same
  exact ⟨_, by rw [View.moduleMember, spelled]; rfl, declares⟩

end Spelling

/-- Collecting foreign modules and lowering files agree. What an import from a foreign module
spells as a value is a static that its extern class declares, and so is every member read of
a foreign module that is spelled as a whole. A name that comes from a foreign module through
other files is named by an entry of some file, and declared unless that entry is for types
only. And all that is collected is used by some file as a value. -/
theorem foreign_names_are_declared (program : Program) :
    (∀ file binding specifier, ImportsFrom program specifier file binding →
      ∀ imports after, importForeign (registryOf program) binding specifier imports = .ok after →
        ∀ name path, (name, Spelling.foreign path) ∈ after.spellings →
          (name, Spelling.foreign path) ∈ imports.spellings ∨
            Declares (registryOf program) specifier path) ∧
      (∀ file ∈ program.files, file.isLowered →
        ∀ imports, importsOf program (registryOf program) file = .ok imports →
          ∀ view : View, view.context.spellings = imports.spellings →
            ∀ name base, view.spelling? name = some (.foreignModule base) →
              ∃ specifier binding, ImportsFrom program specifier file binding ∧
                binding.wholeName = some name ∧
                ∀ node ∈ file.tree.descendants, ∀ member, Accesses node name member →
                  ∃ path, view.moduleMember name member = .ok (some path) ∧
                    Declares (registryOf program) specifier path) ∧
      (∀ index name specifier member,
        Exports.resolve program index name = some (.foreign specifier member) →
          ∃ typeOnly, Names program specifier member typeOnly ∧
            (typeOnly = false → ∃ path,
              (registryOf program).memberPath? specifier member = some path ∧
                Declares (registryOf program) specifier path)) ∧
      ∀ binding ∈ (registryOf program).bindings,
        (∃ use, Justified program binding.descriptor.specifier use) ∧
          (binding.descriptor.usesDefault →
            Justified program binding.descriptor.specifier .default) ∧
          ∀ name ∈ binding.descriptor.members,
            Justified program binding.descriptor.specifier (.member name) := by
  refine ⟨?_, ?_, ?_, ?_⟩
  · intro file binding specifier imported imports after run name path member
    have brings := (brings_importForeign run).1 (.spelled name (.foreign path))
    exact (brings.mp member).imp_right (declares_of_foreignBrings imported)
  · intro file known lowered imports run view spellings name base spelled
    exact moduleMember_declares known lowered run spellings spelled
  · intro index name specifier member found
    obtain ⟨typeOnly, names⟩ := names_of_resolve found
    refine ⟨typeOnly, names, ?_⟩
    rintro rfl
    exact exists_memberPath names.justified
  · intro binding member
    have records := records_registryOf program
    have listed := mem_map_of_mem (f := fun binding : Binding => binding.descriptor) member
    refine ⟨?_, fun marked => ?_, fun name inside => ?_⟩
    · obtain ⟨use, used⟩ := records.used _ listed
      exact ⟨use, mem_fileUses_iff.mp used⟩
    · exact mem_fileUses_iff.mp ((records.default _ listed).mp marked)
    · exact mem_fileUses_iff.mp ((records.member _ listed name).mp inside)

end Haxify.Lower
