import Haxify.Lower.Type
import Haxify.Proofs.Tree
import Mathlib.Data.List.Basic

/-!
# What a type can be seen to depend on

Rules of the lowering look at their context in few ways: how a name is spelled, what a name
of another file stands for, and where its module lies. Contexts that answer alike agree, and
a type reads the same in views that agree. The statements follow the rules for types.
-/

namespace Haxify.Lower

open List

theorem mem_of_lookup {α : Type} {key : String} {value : α} {table : List (String × α)}
    (found : table.lookup key = some value) : (key, value) ∈ table := by
  obtain ⟨before, behind, listed, _⟩ := lookup_eq_some_iff.mp found
  simp [listed]

/-- Contexts that answer alike whatever a rule may ask. -/
structure Context.Agrees (first second : Context) : Prop where
  index : first.index = second.index
  tree : first.file.tree = second.file.tree
  exports : first.file.exports = second.file.exports
  indent : first.indent = second.indent
  spellings : first.spellings = second.spellings
  takenTemps : first.takenTemps = second.takenTemps
  resolve : Exports.resolve first.program = Exports.resolve second.program
  /-- Names of the file itself stand for the same. -/
  resolveLocal : Exports.resolveLocal first.program = Exports.resolveLocal second.program
  memberPath : first.program.memberPath = second.program.memberPath
  foreignPath : first.registry.memberPath? = second.registry.memberPath?

/-- Views of agreeing contexts in the same scopes. -/
structure View.Agrees (first second : View) : Prop where
  context : first.context.Agrees second.context
  scopes : first.scopes = second.scopes

namespace View.Agrees

variable {first second : View}
variable (agrees : first.Agrees second)
include agrees

theorem isLocal (name : String) : first.isLocal name = second.isLocal name := by
  rw [View.isLocal, View.isLocal, agrees.scopes]

theorem spelling? (name : String) : first.spelling? name = second.spelling? name := by
  rw [View.spelling?, View.spelling?, agrees.isLocal, agrees.context.spellings]

theorem moduleMember (name member : String) :
    first.moduleMember name member = second.moduleMember name member := by
  simp only [View.moduleMember, agrees.spelling?, agrees.context.resolve,
    agrees.context.memberPath, agrees.context.foreignPath]

theorem exportedType (index : Nat) (name : String) :
    exportedType first.context.program index name =
      exportedType second.context.program index name := by
  simp only [Lower.exportedType, agrees.context.resolve, agrees.context.memberPath]

end View.Agrees

/-- The file of the project that a spelling stands for as a whole, which is all that matters of
it for types. -/
def Spelling.project? : Spelling → Option Nat
  | .projectModule index => some index
  | _ => none

structure View.SpellsTypes (node : Part) (first second : View) : Prop where
  known : ∀ part ∈ node.descendants, (first.spelling? part.text).isSome =
    (second.spelling? part.text).isSome
  /-- The name in front of a type stands for the same file of the project. -/
  owner : ∀ part ∈ node.field? "module", (first.spelling? part.text).map Spelling.project? =
    (second.spelling? part.text).map Spelling.project?
  exportedType : ∀ index name, Lower.exportedType first.context.program index name =
    Lower.exportedType second.context.program index name

theorem View.Agrees.spellsTypes {first second : View} (agrees : first.Agrees second) (node : Part) :
    View.SpellsTypes node first second :=
  ⟨fun part _ => by rw [agrees.spelling?], fun part _ => by rw [agrees.spelling?],
    agrees.exportedType⟩

def Rendering.TypedBy (relation : View → View → Prop) (rendering : Rendering) : Prop :=
  ∀ first second : View, relation first second → rendering.type first = rendering.type second

abbrev Rendering.Typed (rendering : Rendering) : Prop := rendering.TypedBy View.Agrees

section Types

variable {relation : View → View → Prop} {first second : View} {node : Part}
variable (agrees : relation first second)
include agrees

theorem typeOf?_congr {part : Option Part}
    (typed : ∀ inner ∈ part, inner.Every (Rendering.TypedBy relation)) :
    typeOf? first part = typeOf? second part := by
  cases part with
  | none => rfl
  | some inner => exact (typed inner rfl).top first second agrees

variable (typed : node.Every (Rendering.TypedBy relation))
include typed

theorem typeOf?_field (field : String) :
    typeOf? first (node.field? field) = typeOf? second (node.field? field) :=
  typeOf?_congr agrees fun _ found => typed.field found

theorem innerType_congr : innerType node first = innerType node second :=
  typeOf?_congr agrees fun _ found => typed.first found

theorem typeSuffix_congr (field : String) :
    typeSuffix first (node.field? field) = typeSuffix second (node.field? field) := by
  cases found : node.field? field with
  | none => rfl
  | some part =>
    have same := (typed.field found).top first second agrees
    simp only [typeSuffix, Option.map_some, same]

theorem typesOf_congr : typesOf first node = typesOf second node :=
  map_congr_left fun _ member => (typed.named member).top first second agrees

theorem typeArguments_congr (field : String) :
    typeArguments first (node.field? field) = typeArguments second (node.field? field) := by
  cases found : node.field? field with
  | none => rfl
  | some list =>
    simp only [typeArguments, Option.map_some, typesOf_congr agrees (typed.field found)]

theorem typeParameter?_congr : typeParameter? first node = typeParameter? second node := by
  rw [typeParameter?, typeParameter?]
  cases found : (node.field? "constraint").bind (·.first?) with
  | none => rfl
  | some bound =>
    obtain ⟨clause, foundClause, foundBound⟩ := Option.bind_eq_some_iff.mp found
    have same := ((typed.field foundClause).first foundBound).top first second agrees
    simp only [same]

theorem typeParameters_congr (field : String) :
    typeParameters first (node.field? field) = typeParameters second (node.field? field) := by
  cases found : node.field? field with
  | none => rfl
  | some list =>
    have same : list.named.filterMap (typeParameter? first) =
        list.named.filterMap (typeParameter? second) :=
      filterMap_congr fun _ member =>
        typeParameter?_congr agrees ((typed.field found).named member)
    simp only [typeParameters, Option.map_some, same]

variable (spells : View.SpellsTypes node first second)
include spells

omit agrees typed in
theorem namedType_congr {part : Part} (inside : part ∈ node.descendants) (arguments : List String) :
    namedType first part.text arguments = namedType second part.text arguments := by
  rw [namedType.eq_def, namedType.eq_def, spells.known part inside]

omit agrees typed in
theorem qualifiedType_congr : qualifiedType node first = qualifiedType node second := by
  simp only [qualifiedType]
  split
  · rfl
  rename_i owner found
  have same := spells.owner owner (Option.eq_some_of_filter_eq_some found)
  cases one : first.spelling? owner.text with
  | none => cases other : second.spelling? owner.text <;> simp_all
  | some spelling =>
    cases other : second.spelling? owner.text with
    | none => simp_all
    | some also =>
      rw [one, other] at same
      cases spelling <;> cases also <;> simp_all [Spelling.project?, spells.exportedType]

omit typed in
theorem genericType_congr (typed : node.Every (Rendering.TypedBy relation)) :
    genericType node first = genericType node second := by
  have arguments : ((node.field? "type_arguments").map (typesOf first)).getD [] =
      ((node.field? "type_arguments").map (typesOf second)).getD [] := by
    cases found : node.field? "type_arguments" with
    | none => rfl
    | some list => simp only [Option.map_some, typesOf_congr agrees (typed.field found)]
  cases found : node.field? "name" with
  | none => simp only [genericType, found]
  | some name =>
    have same := (typed.field found).top first second agrees
    have inside := TypeScript.Tree.mem_children_of_field? found
    have named := namedType_congr spells (TypeScript.Tree.mem_descendants_of_mem_children inside)
    simp only [genericType, found, arguments, same, named]

omit spells

theorem unionType_congr : unionType node first = unionType node second := by
  have arms : ((node.flatten "union_type").filter (!isNullish ·)).map
        (fun arm => arm.value.type first) =
      ((node.flatten "union_type").filter (!isNullish ·)).map fun arm => arm.value.type second :=
    map_congr_left fun _ member =>
      (typed.flatten (mem_filter.mp member).1).top first second agrees
  simp only [unionType, arms]

theorem restElement_congr (field : String) :
    restElement first (node.field? field) = restElement second (node.field? field) := by
  simp only [restElement]
  split
  · rfl
  rename_i part found
  obtain ⟨typing, foundTyping, foundPart⟩ := Option.bind_eq_some_iff.mp found
  have inside : part.Every (Rendering.TypedBy relation) := by
    split at foundPart
    · exact (typed.field foundTyping).first foundPart
    · cases foundPart
      exact typed.field foundTyping
  split
  · exact innerType_congr agrees inside
  split
  · split
    · rename_i element foundElement
      obtain ⟨list, foundList, foundFirst⟩ := Option.bind_eq_some_iff.mp foundElement
      rw [((inside.field foundList).first foundFirst).top first second agrees]
    · rfl
  · rfl

theorem parameterType?_congr : parameterType? first node = parameterType? second node := by
  simp only [parameterType?, restElement_congr agrees typed, typeOf?_field agrees typed]

theorem functionType_congr : functionType node first = functionType node second := by
  have parameters : (((node.field? "parameters").map (·.named)).getD []).filterMap
        (parameterType? first) =
      (((node.field? "parameters").map (·.named)).getD []).filterMap (parameterType? second) := by
    cases found : node.field? "parameters" with
    | none => rfl
    | some list =>
      exact filterMap_congr fun _ member =>
        parameterType?_congr agrees ((typed.field found).named member)
  simp only [functionType, parameters, typeOf?_field agrees typed]

theorem signatureParameter?_congr (position : Nat) :
    signatureParameter? first position node = signatureParameter? second position node := by
  simp only [signatureParameter?, restElement_congr agrees typed, typeOf?_field agrees typed]

theorem signatureParameters_congr (field : String) :
    signatureParameters first (node.field? field) =
      signatureParameters second (node.field? field) := by
  cases found : node.field? field with
  | none => rfl
  | some list =>
    refine foldl_ext _ _ _ fun done part member => ?_
    rw [signatureParameter?_congr agrees ((typed.field found).named member)]

theorem typeMember?_congr : typeMember? first node = typeMember? second node := by
  simp only [typeMember?, typeOf?_field agrees typed, signatureParameters_congr agrees typed]

theorem typeMembers?_congr : typeMembers? first node = typeMembers? second node := by
  have each : ∀ parts : List Part, (∀ part ∈ parts, part.Every (Rendering.TypedBy relation)) →
      parts.mapM (typeMember? first) = parts.mapM (typeMember? second) := by
    intro parts typed
    induction parts with
    | nil => rw [mapM_nil, mapM_nil]
    | cons part rest rest_same =>
      rw [mapM_cons, mapM_cons, typeMember?_congr agrees (typed part (.head _)),
        rest_same fun other member => typed other (.tail _ member)]
  exact each node.named fun _ member => typed.named member

theorem indexedType?_congr : indexedType? first node = indexedType? second node := by
  rw [indexedType?, indexedType?]
  split
  · rename_i only listed
    have inside : only.Every (Rendering.TypedBy relation) := typed.named (listed ▸ mem_cons_self)
    have same : typeOf? first ((only.field? "type").or only.named.getLast?) =
        typeOf? second ((only.field? "type").or only.named.getLast?) := by
      refine typeOf?_congr agrees fun part found => ?_
      rcases Option.or_eq_some_iff.mp found with direct | ⟨_, last⟩
      · exact inside.field direct
      · exact inside.named (mem_of_mem_getLast? last)
    rw [same]
  · rfl

theorem objectType_congr : objectType node first = objectType node second := by
  rw [objectType, objectType, indexedType?_congr agrees typed, typeMembers?_congr agrees typed]

omit typed

theorem typeRules_congr (spells : View.SpellsTypes node first second)
    (typed : node.Every (Rendering.TypedBy relation)) :
    ∀ rule ∈ typeRules, rule.2 node first = rule.2 node second := by
  have inner := innerType_congr agrees typed
  have types := typesOf_congr agrees typed
  have named := namedType_congr spells TypeScript.Tree.mem_descendants_self []
  simp only [typeRules, forall_mem_cons]
  exact ⟨inner, inner, inner, trivial, trivial, trivial, named, named, qualifiedType_congr spells,
    genericType_congr agrees spells typed, by rw [inner], inner, inner, trivial,
    unionType_congr agrees typed, by rw [types], functionType_congr agrees typed,
    objectType_congr agrees typed, by simp⟩

theorem renderType_congr (spells : View.SpellsTypes node first second)
    (typed : node.Every (Rendering.TypedBy relation)) :
    renderType node first = renderType node second := by
  rw [renderType, renderType]
  split
  · rename_i rule found
    exact typeRules_congr agrees spells typed (node.kind, rule) (mem_of_lookup found)
  · rfl

end Types

end Haxify.Lower
