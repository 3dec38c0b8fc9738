import Haxify.Lower.Statement
import Haxify.Proofs.Brackets
import Haxify.Proofs.TypeViews

/-!
# Brackets in types

What is copied from a source into the Haxe text is legible: it has no brackets and quotes. A
sound node is legible and balanced as a type. One statement for each rule for types: where the
nodes below are sound, the type is balanced.
-/

namespace Haxify.Lower

open List
open Haxe (Balanced Unmarked balanced_joinWith)

variable {name parameter type : String} {arguments : List String}

def copiedKinds : List String := ["identifier", "type_identifier", "property_identifier", "number"]

def updateOperators : List String := ["++", "--"]

def assignmentOperators : List String :=
  ["+=", "-=", "*=", "/=", "%=", "^=", "&=", "|=", ">>=", ">>>=", "<<=", "**=", "&&=", "||=", "??="]

def spelledKinds : List String :=
  ["true", "false", "this", "super"] ++ updateOperators ++ assignmentOperators

/-- The fields of nodes from which a text is copied, and the kinds of what may fill them. -/
def copiedFields : List (String × String × List String) :=
  [("member_expression", "property", ["property_identifier", "private_property_identifier"]),
   ("generic_type", "name", ["type_identifier", "nested_type_identifier"]),
   ("type_parameter", "name", ["type_identifier"]),
   ("class_declaration", "name", ["type_identifier"]),
   ("interface_declaration", "name", ["type_identifier"]),
   ("type_alias_declaration", "name", ["type_identifier"]),
   ("enum_declaration", "name", ["identifier"]),
   ("update_expression", "operator", updateOperators),
   ("augmented_assignment_expression", "operator", assignmentOperators)]

/-- A node of which only texts without marks are copied. -/
structure Legible {α : Type} (node : TypeScript.Tree α) : Prop where
  copied : node.kind ∈ copiedKinds → Unmarked node.text
  spelled : node.kind ∈ spelledKinds → node.text = node.kind
  /-- The fields that are copied from hold names or operators. -/
  field : ∀ slot ∈ copiedFields, node.kind = slot.1 → ∀ part ∈ node.field? slot.2.1,
    part.kind ∈ slot.2.2
  label : node.kind = "switch_case" → ∀ part ∈ node.field? "value",
    isNegativeNumber part.unparenthesized → Unmarked part.unparenthesized.text

/-- A context in which names are spelled without marks. -/
structure Context.Spelled (context : Context) : Prop where
  value : ∀ name path, (name, .foreign path) ∈ context.spellings → Unmarked path
  whole : ∀ name path, (name, .foreignModule path) ∈ context.spellings → Unmarked path
  member : ∀ target name index found kind,
    Exports.resolve context.program target name = some (.member index found kind) →
      Unmarked (context.program.memberPath index found)
  foreign : ∀ specifier name path, context.registry.memberPath? specifier name = some path →
    Unmarked path
  indent : Unmarked context.indent

/-- A legible node whose rendering as a type is balanced. -/
structure Sound (node : Part) : Prop where
  legible : Legible node
  type : ∀ view : View, view.context.Spelled → Balanced (node.value.type view)

abbrev SoundTree (node : Part) : Prop := node.Throughout Sound

variable {view : View} {node : Part}

section Spellings

theorem mem_of_spelling? {spelling : Spelling}
    (found : view.spelling? name = some spelling) : (name, spelling) ∈ view.context.spellings := by
  rw [View.spelling?] at found
  split at found
  · cases found
  · exact mem_of_lookup found

theorem unmarked_moduleMember (spelled : view.context.Spelled) {member path : String}
    (found : view.moduleMember name member = .ok (some path)) :
    Unmarked path := by
  rw [View.moduleMember] at found
  split at found
  · rename_i whole spelling
    cases found
    have plain := spelled.whole name whole (mem_of_spelling? spelling)
    exact (plain.append (by decide)).append (Haxe.unmarked_sanitize member)
  · split at found
    · cases found
      exact spelled.member _ _ _ _ _ ‹_›
    · split at found
      · cases found
        exact spelled.foreign _ _ _ ‹_›
      · cases found
    · cases found
  · cases found
  · cases found

end Spellings

section Types

theorem balanced_withArguments {base : String} (front : Balanced base)
    (each : ∀ argument ∈ arguments, Balanced argument) :
    Balanced (withArguments base arguments) := by
  rw [withArguments]
  split
  · exact front
  · have joined : Balanced (Text.joinWith ", " arguments) := balanced_joinWith (by decide) each
    simp +decide [Haxe.Balanced, front.read_append, joined.read_append]

variable (spelled : view.context.Spelled)
include spelled

theorem balanced_typeOf? {part : Option Part}
    (sound : ∀ inner ∈ part, SoundTree inner) : Balanced (typeOf? view part) := by
  cases part with
  | none => exact (by decide : Balanced dynamicType)
  | some inner => exact (sound inner rfl).top.type view spelled

variable (sound : SoundTree node)
include sound

theorem balanced_field (field : String) : Balanced (typeOf? view (node.field? field)) :=
  balanced_typeOf? spelled fun _ found => sound.field found

theorem balanced_innerType : Balanced (innerType node view) :=
  balanced_typeOf? spelled fun _ found => sound.first found

theorem balanced_typeSuffix (field : String) : Balanced (typeSuffix view (node.field? field)) := by
  cases found : node.field? field with
  | none => exact rfl
  | some part =>
    have inner := (sound.field found).top.type view spelled
    exact (by decide : Unmarked ": ").balanced.append inner

theorem balanced_of_mem_typesOf : ∀ type ∈ typesOf view node, Balanced type := by
  intro type member
  obtain ⟨part, listed, rfl⟩ := mem_map.mp member
  exact (sound.named listed).top.type view spelled

theorem balanced_typeArguments (field : String) :
    Balanced (typeArguments view (node.field? field)) := by
  apply balanced_withArguments (by decide)
  cases found : node.field? field with
  | none => simp
  | some list => exact balanced_of_mem_typesOf spelled (sound.field found)

theorem balanced_typeParameter?
    (given : typeParameter? view node = some parameter) : Balanced parameter := by
  rw [typeParameter?] at given
  split at given
  · rename_i isParameter
    obtain ⟨name, found, rfl⟩ := Option.map_eq_some_iff.mp given
    have kind := sound.top.legible.field ("type_parameter", "name", ["type_identifier"])
      (by decide) (eq_of_beq isParameter) name found
    have plain := (sound.field found).top.legible.copied (by rw [mem_singleton.mp kind]; decide)
    split
    · rename_i bound foundBound
      obtain ⟨clause, foundClause, inner⟩ := Option.bind_eq_some_iff.mp foundBound
      have type := ((sound.field foundClause).first inner).top.type view spelled
      exact (plain.append (by decide)).balanced.append type
    · exact plain.balanced
  · cases given

theorem balanced_typeParameters (field : String) :
    Balanced (typeParameters view (node.field? field)) := by
  apply balanced_withArguments (by decide)
  cases found : node.field? field with
  | none => simp
  | some list =>
    intro parameter member
    obtain ⟨part, listed, given⟩ := mem_filterMap.mp member
    exact balanced_typeParameter? spelled ((sound.field found).named listed) given

omit spelled sound in
theorem balanced_namedType (view : View)
    (plain : Unmarked name) (each : ∀ argument ∈ arguments, Balanced argument) :
    Balanced (namedType view name arguments) := by
  have first : Balanced (arguments.headD dynamicType) := by
    cases arguments with
    | nil => exact rfl
    | cons argument rest => exact each argument (.head _)
  have second : Balanced ((arguments[1]?).getD dynamicType) := by
    cases found : arguments[1]? with
    | none => exact rfl
    | some argument => exact each argument (mem_of_getElem? found)
  rw [namedType.eq_def]
  split
  · exact rfl
  split
  iterate 2 simp +decide [Haxe.Balanced, -headD_eq_head?_getD, first.read_append]
  · simp +decide [Haxe.Balanced, second.read_append]
  · exact balanced_withArguments rfl each
  iterate 11 exact rfl
  · exact balanced_withArguments plain.balanced each

omit spelled sound in
theorem balanced_unqualifiedType (name : String) : Balanced (unqualifiedType name) := by
  rw [unqualifiedType]
  split
  · exact (Haxe.unmarked_of_isIdentifier ‹_›).balanced
  · exact rfl

omit sound in
theorem balanced_qualifiedType (node : Part) : Balanced (qualifiedType node view) := by
  simp only [qualifiedType]
  split
  · exact balanced_unqualifiedType _
  split
  · rw [exportedType]
    split
    · exact (spelled.member _ _ _ _ _ ‹_›).balanced
    · exact rfl
  · exact rfl
  · exact balanced_unqualifiedType _

theorem balanced_genericType (isGeneric : node.kind = "generic_type") :
    Balanced (genericType node view) := by
  have each : ∀ argument ∈ ((node.field? "type_arguments").map (typesOf view)).getD [],
      Balanced argument := by
    cases found : node.field? "type_arguments" with
    | none => simp
    | some list => exact balanced_of_mem_typesOf spelled (sound.field found)
  simp only [genericType]
  split
  · exact rfl
  rename_i name found
  have inner := (sound.field found).top.type view spelled
  have kind := sound.top.legible.field ("generic_type", "name",
    ["type_identifier", "nested_type_identifier"]) (by decide) isGeneric name found
  split
  · split
    · exact inner
    · exact balanced_withArguments inner each
  · rename_i unqualified
    have isName : name.kind = "type_identifier" := by
      rw [beq_iff_eq] at unqualified
      simpa [unqualified] using kind
    have plain := (sound.field found).top.legible.copied (by rw [isName]; decide)
    exact balanced_namedType view plain each

omit spelled sound in
theorem balanced_eitherType {arms : List String} (each : ∀ arm ∈ arms, Balanced arm) :
    Balanced (eitherType arms) := by
  induction arms with
  | nil => exact rfl
  | cons arm rest rest_balanced =>
    have first := each arm (.head _)
    cases rest with
    | nil => exact first
    | cons next others =>
      have behind := rest_balanced fun other member => each other (.tail _ member)
      rw [eitherType]
      simp +decide [Haxe.Balanced, first.read_append, behind.read_append]
      exact cons_ne_nil next others

theorem balanced_unionType : Balanced (unionType node view) := by
  have base : Balanced (eitherType (((node.flatten "union_type").filter (!isNullish ·)).map
      fun arm => arm.value.type view).eraseDups) := by
    apply balanced_eitherType
    intro type member
    obtain ⟨arm, listed, rfl⟩ := mem_map.mp (mem_eraseDups.mp member)
    exact (sound.flatten (mem_filter.mp listed).1).top.type view spelled
  simp only [unionType, unionOf]
  split
  · simp +decide [Haxe.Balanced, base.read_append]
  · exact base

omit spelled sound in
theorem balanced_wrapFunction (balanced : Balanced type) : Balanced (wrapFunction type) := by
  rw [wrapFunction]
  split
  · simp +decide [Haxe.Balanced, balanced.read_append]
  · exact balanced

theorem balanced_restElement (field : String) :
    Balanced (restElement view (node.field? field)) := by
  have inside {part : Part} (found : ((node.field? field).bind fun part =>
        if part.kind == "type_annotation" then part.first? else some part) = some part) :
      SoundTree part := by
    obtain ⟨typing, foundTyping, inner⟩ := Option.bind_eq_some_iff.mp found
    split at inner
    · exact (sound.field foundTyping).first inner
    · cases inner
      exact sound.field foundTyping
  simp only [restElement]
  split
  · exact rfl
  rename_i part found
  split
  · exact balanced_typeOf? spelled fun _ first => (inside found).first first
  split
  · split
    · rename_i element foundElement
      obtain ⟨list, foundList, first⟩ := Option.bind_eq_some_iff.mp foundElement
      split
      · exact (((inside found).field foundList).first first).top.type view spelled
      · exact rfl
    · exact rfl
  · exact rfl

theorem balanced_parameterType? (given : parameterType? view node = some type) : Balanced type := by
  have typing := balanced_field spelled sound "type"
  have element := balanced_restElement spelled sound "type"
  simp only [parameterType?] at given
  split at given
  · cases given
  split at given
  · cases given
  split at given
  · cases given
    simp +decide [Haxe.Balanced, element.read_append]
  · split at given
    · cases given
      simp +decide [Haxe.Balanced, typing.read_append]
    · cases given
      exact typing

theorem balanced_functionType : Balanced (functionType node view) := by
  have result := balanced_wrapFunction (balanced_field spelled sound "return_type")
  simp only [functionType, arrowType]
  split
  · exact (by decide : Unmarked "Void -> ").balanced.append result
  refine ((balanced_joinWith (by decide) ?_).append (rfl : Balanced " -> ")).append result
  intro part member
  obtain ⟨type, listed, rfl⟩ := mem_map.mp member
  obtain ⟨parameter, inside, given⟩ := mem_filterMap.mp listed
  apply balanced_wrapFunction
  cases found : node.field? "parameters" with
  | none => simp [found] at inside
  | some list =>
    rw [found] at inside
    exact balanced_parameterType? spelled ((sound.field found).named inside) given

omit spelled sound in
theorem balanced_signature {front parameters result : String} (front_balanced : Balanced front)
    (inside : Balanced parameters) (behind : Balanced result) :
    Balanced (front ++ "(" ++ parameters ++ "): " ++ result ++ ";") := by
  simp +decide [Haxe.Balanced, front_balanced.read_append, inside.read_append, behind.read_append]

omit spelled sound in
theorem unmarked_memberName? (given : memberName? node = some name) : Unmarked name := by
  simp only [memberName?] at given
  split at given
  · split at given
    · cases given
      exact Haxe.unmarked_of_isIdentifier ‹_›
    · cases given
  · split at given
    · split at given
      · cases given
        exact Haxe.unmarked_of_isIdentifier ‹_›
      · cases given
    · cases given

theorem balanced_signatureParameter? {position : Nat}
    (given : signatureParameter? view position node = some parameter) : Balanced parameter := by
  have typing := balanced_field spelled sound "type"
  have element := balanced_restElement spelled sound "type"
  have colon {text : String} (plain : Unmarked text) : Balanced (text ++ ": ") :=
    (plain.append (by decide)).balanced
  simp only [signatureParameter?] at given
  split at given
  · cases given
  split at given
  · cases given
    refine (colon (Unmarked.append ?_ (Haxe.unmarked_sanitize _))).append typing
    split <;> decide
  · split at given
    · cases given
      refine (colon (Unmarked.append (by decide) ?_)).append element
      rename_i pattern _ _ _
      cases pattern.first? with
      | none => exact rfl
      | some name => exact Haxe.unmarked_sanitize name.text
    · split at given
      · cases given
      cases given
      have named : Unmarked ("arg" ++ toString position) :=
        Unmarked.append (by decide) (Haxe.unmarked_toString position)
      exact (colon named).append typing

theorem balanced_signatureParameters (field : String) :
    ∀ parameter ∈ signatureParameters view (node.field? field), Balanced parameter := by
  cases found : node.field? field with
  | none => simp [signatureParameters]
  | some list =>
    refine foldlRecOn (motive := (∀ parameter ∈ ·, Balanced parameter)) list.named _
      (forall_mem_nil _) fun done before part member => ?_
    refine forall_mem_append.mpr ⟨before, fun parameter new => ?_⟩
    exact balanced_signatureParameter? spelled ((sound.field found).named member)
      (Option.mem_toList.mp new)

theorem balanced_typeMember? {member : String}
    (given : typeMember? view node = some member) : Balanced member := by
  have mark : Unmarked (if node.has "?" then "@:optional " else "") := by split <;> decide
  have typing := balanced_field spelled sound "type"
  have result := balanced_field spelled sound "return_type"
  have parameters : Balanced (Text.joinWith ", "
      (signatureParameters view (node.field? "parameters"))) :=
    balanced_joinWith (by decide) (balanced_signatureParameters spelled sound "parameters")
  rw [typeMember?] at given
  split at given
  · obtain ⟨name, found, rest⟩ := Option.bind_eq_some_iff.mp given
    cases rest
    obtain ⟨part, _, named⟩ := Option.bind_eq_some_iff.mp found
    have keyword : Unmarked (if node.has "readonly" then "final " else "var ") := by
      split <;> decide
    have front := (mark.append keyword).append (unmarked_memberName? named)
    exact ((front.append (by decide)).balanced.append typing).append (by decide)
  · split at given
    · obtain ⟨name, found, rest⟩ := Option.bind_eq_some_iff.mp given
      cases rest
      obtain ⟨part, _, named⟩ := Option.bind_eq_some_iff.mp found
      have front := ((mark.append (by decide : Unmarked "function ")).append
        (unmarked_memberName? named)).balanced
      exact balanced_signature front parameters result
    · cases given

theorem balanced_typeMembers? {members : List String}
    (given : typeMembers? view node = some members) : ∀ member ∈ members, Balanced member := by
  have collected (parts : List Part) (inside : ∀ part ∈ parts, SoundTree part)
      {members : List String} (given : parts.mapM (typeMember? view) = some members) :
      ∀ member ∈ members, Balanced member := by
    induction parts generalizing members with
    | nil =>
      cases given
      simp
    | cons part rest rest_collected =>
      rw [mapM_cons] at given
      obtain ⟨first, rendered, given⟩ := Option.bind_eq_some_iff.mp given
      obtain ⟨others, others_given, finish⟩ := Option.bind_eq_some_iff.mp given
      cases finish
      have behind := rest_collected (fun other member => inside other (.tail _ member)) others_given
      have front := balanced_typeMember? spelled (inside part (.head _)) rendered
      exact forall_mem_cons.mpr ⟨front, behind⟩
  exact collected node.named (fun _ listed => sound.named listed) given

theorem balanced_objectType : Balanced (objectType node view) := by
  simp only [objectType]
  split
  · rename_i value found
    have inner : Balanced value := by
      rw [indexedType?] at found
      split at found
      · rename_i only listed
        have inside := sound.named (listed ▸ mem_singleton_self only)
        split at found
        · cases found
          apply balanced_typeOf? spelled
          intro part given
          rcases Option.or_eq_some_iff.mp given with filled | ⟨_, last⟩
          · exact inside.field filled
          · exact inside.named (mem_of_getLast? last)
        · cases found
      · cases found
    simp +decide [Haxe.Balanced, inner.read_append]
  · split
    · decide
    · decide
    rename_i members _ found
    have joined : Balanced (Text.joinWith " " members) :=
      balanced_joinWith (by decide) (balanced_typeMembers? spelled sound found)
    simp +decide [Haxe.Balanced, joined.read_append]

theorem balanced_typeRules :
    ∀ rule ∈ typeRules, node.kind = rule.1 → Balanced (rule.2 node view) := by
  have inner := balanced_innerType spelled sound
  have plain (listed : node.kind ∈ copiedKinds) : Balanced (namedType view node.text []) :=
    balanced_namedType view (sound.top.legible.copied listed) (by simp)
  simp only [typeRules, forall_mem_cons, not_mem_nil, false_imp_iff, implies_true]
  refine ⟨fun _ => inner, fun _ => inner, fun _ => inner, fun _ => by decide, fun _ => by decide,
    fun _ => ?_, fun kind => plain (by rw [kind]; decide), fun kind => plain (by rw [kind]; decide),
    fun _ => balanced_qualifiedType spelled node, balanced_genericType spelled sound,
    fun _ => ?_, fun _ => inner, fun _ => inner, fun _ => ?_,
    fun _ => balanced_unionType spelled sound, fun _ => ?_,
    fun _ => balanced_functionType spelled sound, fun _ => balanced_objectType spelled sound,
      trivial⟩
  · rw [predefinedType.eq_def]
    split <;> decide
  · simp +decide [Haxe.Balanced, inner.read_append]
  · simp only [literalType]
    split
    iterate 5 decide
    split <;> decide
  · exact balanced_joinWith (by decide) (balanced_of_mem_typesOf spelled sound)

theorem balanced_renderType : Balanced (renderType node view) := by
  rw [renderType]
  split
  · rename_i rule found
    exact balanced_typeRules spelled sound (node.kind, rule) (mem_of_lookup found) rfl
  · decide

end Types

end Haxify.Lower
