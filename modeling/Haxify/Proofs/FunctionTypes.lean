import Haxify.Proofs.Builtins
import Haxify.Proofs.TypeReading

/-!
# How function types read

A function type that is a part of another one has to have parentheses. They are left out where
the text starts with a parenthesis already, which may be that of its own first parameter; then the
parts of the inner type read as parts of the outer one. A lone parameter that is written `Void`
reads as none. The main statement says that these are the only function types that do not read as
they are meant, for types of any depth.
-/

namespace Haxify.Lower

open List
open Text (occursIn beginsWith joinWith)
open TypeScript (Tree Node)
open Haxe (TypeTree IsTypeWord Reads ofChain readType)

variable {name : String}

/-- Whether a type is one of functions. -/
def hasArrow (text : String) : Bool := occursIn "->".toList text.toList

/-- Whether a function type starts with a parenthesis, so that it gets none around it. -/
def startsGrouped (text : String) : Bool := hasArrow text && beginsWith text "("

/-- A text that reads as a type, with the parts between its arrows. -/
structure TypeText where
  text : String
  parameters : List TypeTree
  result : TypeTree
  reads : Reads text parameters result
  alone : hasArrow text = false → parameters = []
  /-- A parenthesis at the start belongs to the first of several parts. -/
  several : beginsWith text "(" → parameters ≠ []
  void : ofChain parameters result = .path "Void" [] → text = "Void"

namespace TypeText

def type (part : TypeText) : TypeTree := ofChain part.parameters part.result

theorem readType_text (part : TypeText) : readType part.text = some part.type := part.reads.readType

def word (name : String) (isWord : IsTypeWord name) : TypeText where
  text := name
  parameters := []
  result := .path name []
  reads := .word isWord
  alone _ := rfl
  several opens := by
    have chars := isWord.chars
    obtain ⟨rest, cut⟩ := isPrefixOf_iff_prefix.mp opens
    rw [← cut] at chars
    exact absurd chars (by simp [Haxe.isTypeWord])
  void same := by
    cases same
    rfl

def apply (name : String) (isWord : IsTypeWord name) (argument : TypeText) : TypeText where
  text := name ++ "<" ++ argument.text ++ ">"
  parameters := []
  result := .path name [argument.type]
  reads := .apply isWord argument.reads
  alone _ := rfl
  several opens := by
    have chars := isWord.chars
    obtain ⟨first, more, cut⟩ := exists_cons_of_ne_nil fun none =>
      isWord.written (String.toList_eq_nil_iff.mp none)
    obtain ⟨rest, whole⟩ := isPrefixOf_iff_prefix.mp opens
    rw [String.toList_append, String.toList_append, String.toList_append, cut] at whole
    obtain rfl : '(' = first := (List.cons.inj whole).1
    rw [cut] at chars
    exact absurd chars (by simp [Haxe.isTypeWord])
  void same := by cases same

/-- The parts that a text reads as in front of its last part, with parentheses where it gets
them. -/
def front (part : TypeText) : List TypeTree :=
  if startsGrouped part.text then part.parameters else []

/-- The last part that a text reads as, with parentheses where it gets them. -/
def last (part : TypeText) : TypeTree :=
  if startsGrouped part.text then part.result else part.type

theorem reads_wrapFunction (part : TypeText) :
    Reads (wrapFunction part.text) part.front part.last := by
  rw [wrapFunction, front, last, startsGrouped]
  change Reads (if (hasArrow part.text && !beginsWith part.text "(") = true then _ else _) _ _
  cases arrow : hasArrow part.text with
  | false =>
    have parts := part.alone arrow
    have reads := part.reads
    rw [parts] at reads
    simpa [type, parts, ofChain] using reads
  | true =>
    cases opens : beginsWith part.text "(" with
    | false => simpa [type] using part.reads.group
    | true => simpa using part.reads

theorem front_eq_nil_iff (part : TypeText) : part.front = [] ↔ startsGrouped part.text = false := by
  rw [front]
  cases grouped : startsGrouped part.text with
  | false => simp
  | true =>
    have opens : beginsWith part.text "(" := by
      rw [startsGrouped, Bool.and_eq_true] at grouped
      exact grouped.2
    simpa using part.several opens

/-- The parts in front of the result of a function type, as they read. -/
def spine : List TypeText → List TypeTree
  | [] => [.path "Void" []]
  | parts => parts.flatMap fun part => part.front ++ [part.last]

theorem reads_arrowType (parts : List TypeText) (result : TypeText) :
    Reads (arrowType (parts.map text) result.text) (spine parts ++ result.front) result.last := by
  have behind := result.reads_wrapFunction
  have several (first : TypeText) (rest : List TypeText) :
      Reads (joinWith " -> " (((first :: rest).map text).map wrapFunction) ++ " -> " ++
          wrapFunction result.text)
        (((first :: rest).flatMap fun part => part.front ++ [part.last]) ++ result.front)
        result.last := by
    induction rest generalizing first with
    | nil => simpa [joinWith] using first.reads_wrapFunction.arrow behind
    | cons second rest rest_reads =>
      have whole := first.reads_wrapFunction.arrow (rest_reads second)
      simpa [joinWith, String.append_assoc] using whole
  cases parts with
  | nil =>
    have void : IsTypeWord "Void" := ⟨by decide, by decide⟩
    simpa [arrowType, spine] using (Reads.word void).arrow behind
  | cons first rest => exact several first rest

theorem spine_ne_nil (parts : List TypeText) : spine parts ≠ [] := by
  cases parts with
  | nil | cons first rest => simp [spine]

theorem ofChain_eq {before : List TypeTree} (some : before ≠ []) (last : TypeTree) :
    (before = [.path "Void" []] ∧ ofChain before last = .function [] last) ∨
      (before ≠ [.path "Void" []] ∧ ofChain before last = .function before last) := by
  unfold ofChain
  split
  · exact absurd rfl some
  · exact .inl ⟨rfl, rfl⟩
  · rename_i other
    exact .inr ⟨other, rfl⟩

theorem hasArrow_of_arrow (front back : String) : hasArrow (front ++ " -> " ++ back) := by
  have occurs (chars rest : List Char) :
      occursIn "->".toList (chars ++ ' ' :: '-' :: '>' :: rest) := by
    induction chars with
    | nil => simp [occursIn, List.isPrefixOf]
    | cons char chars chars_occur =>
      rw [cons_append, occursIn, chars_occur, Bool.or_true]
  rw [hasArrow]
  simpa using occurs front.toList (' ' :: back.toList)

def arrow (parts : List TypeText) (result : TypeText) : TypeText where
  text := arrowType (parts.map text) result.text
  parameters := spine parts ++ result.front
  result := result.last
  reads := reads_arrowType parts result
  alone none := by
    have some : hasArrow (arrowType (parts.map text) result.text) := by
      rw [arrowType]
      split
      · exact hasArrow_of_arrow "Void" _
      · exact hasArrow_of_arrow _ _
    rw [none] at some
    cases some
  several _ := append_ne_nil_of_left_ne_nil (spine_ne_nil parts) _
  void same := by
    rcases ofChain_eq (append_ne_nil_of_left_ne_nil (spine_ne_nil parts) result.front)
      result.last with ⟨_, function⟩ | ⟨_, function⟩
    · rw [function] at same
      cases same
    · rw [function] at same
      cases same

theorem last_of_front {part : TypeText} (none : part.front = []) : part.last = part.type := by
  rw [last, (front_eq_nil_iff part).mp none]
  rfl

theorem type_eq_void_iff (part : TypeText) : part.type = .path "Void" [] ↔ part.text = "Void" := by
  constructor
  · exact part.void
  · intro written
    have void : IsTypeWord "Void" := ⟨by decide, by decide⟩
    have first := part.readType_text
    rw [written, (Reads.word void).readType] at first
    exact (Option.some.inj first).symm

theorem length_le_flatMap (parts : List TypeText) :
    parts.length ≤ (parts.flatMap fun part => part.front ++ [part.last]).length := by
  induction parts with
  | nil => exact Nat.zero_le _
  | cons part rest rest_le =>
    rw [flatMap_cons, length_append, length_append, length_singleton, length_cons]
    omega

theorem front_eq_nil_of_length {parts : List TypeText}
    (fits : (parts.flatMap fun part => part.front ++ [part.last]).length ≤ parts.length) :
    ∀ part ∈ parts, part.front = [] := by
  induction parts with
  | nil => simp
  | cons part rest rest_none =>
    have := length_le_flatMap rest
    rw [flatMap_cons, length_append, length_append, length_singleton, length_cons] at fits
    intro other member
    rcases mem_cons.mp member with rfl | later
    · exact eq_nil_of_length_eq_zero (by omega)
    · exact rest_none (by omega) other later

theorem flatMap_eq_map_type {parts : List TypeText} (none : ∀ part ∈ parts, part.front = []) :
    (parts.flatMap fun part => part.front ++ [part.last]) = parts.map type := by
  have each : ∀ part ∈ parts, part.front ++ [part.last] = [part.type] := by
    intro part member
    rw [none part member, nil_append, last_of_front (none part member)]
  rw [flatMap_congr each]
  exact map_eq_flatMap.symm

theorem map_type_eq_void_iff (parts : List TypeText) :
    parts.map type = [.path "Void" []] ↔ parts.map text = ["Void"] := by
  rw [map_eq_singleton_iff, map_eq_singleton_iff]
  simp only [type_eq_void_iff]

theorem readType_arrow_nil_iff (result : TypeText) :
    readType (arrow [] result).text = some (.function [] result.type) ↔ result.front = [] := by
  have reads : readType (arrow [] result).text =
      some (ofChain (.path "Void" [] :: result.front) result.last) :=
        (arrow [] result).readType_text
  rw [reads, Option.some.injEq]
  rcases ofChain_eq (cons_ne_nil (.path "Void" []) result.front) result.last with
    ⟨lone, type⟩ | ⟨several, type⟩
  · have none : result.front = [] := (List.cons.inj lone).2
    rw [type, last_of_front none]
    exact ⟨fun _ => none, fun _ => rfl⟩
  · rw [type]
    constructor
    · intro same
      cases same
    · intro none
      rw [none] at several
      exact absurd rfl several

theorem readType_arrow_cons_iff (first : TypeText) (rest : List TypeText) (result : TypeText) :
    readType (arrow (first :: rest) result).text =
        some (.function ((first :: rest).map type) result.type) ↔
      (∀ part ∈ first :: rest, part.front = []) ∧ result.front = [] ∧
        (first :: rest).map text ≠ ["Void"] := by
  have reads : readType (arrow (first :: rest) result).text = some (ofChain
      (((first :: rest).flatMap fun part => part.front ++ [part.last]) ++ result.front)
      result.last) := (arrow (first :: rest) result).readType_text
  rw [reads, Option.some.injEq, ne_eq, ← map_type_eq_void_iff]
  have some : ((first :: rest).flatMap fun part => part.front ++ [part.last]) ++
      result.front ≠ [] :=
    append_ne_nil_of_left_ne_nil (spine_ne_nil (first :: rest)) _
  rcases ofChain_eq some result.last with ⟨lone, type⟩ | ⟨several, type⟩
  · -- A lone `Void` reads as no parameter.
    rw [type]
    constructor
    · intro same
      cases same
    · rintro ⟨none, final, other⟩
      rw [flatMap_eq_map_type none, final, append_nil] at lone
      exact absurd lone other
  · rw [type]
    constructor
    · intro same
      obtain ⟨parameters, _⟩ := TypeTree.function.inj same
      have size := congrArg List.length parameters
      rw [length_append, length_map] at size
      have least := length_le_flatMap (first :: rest)
      refine ⟨front_eq_nil_of_length (by omega), eq_nil_of_length_eq_zero (by omega), ?_⟩
      rwa [← parameters]
    · rintro ⟨none, final, _⟩
      rw [flatMap_eq_map_type none, final, append_nil, last_of_front final]

/-- A function type reads as one with the types of its parts exactly when none of them goes
without parentheses and its parameters are not a lone `Void`. -/
theorem readType_arrow_iff (parts : List TypeText) (result : TypeText) :
    readType (arrow parts result).text = some (.function (parts.map type) result.type) ↔
      (∀ part ∈ parts ++ [result], startsGrouped part.text = false) ∧
        parts.map text ≠ ["Void"] := by
  simp only [← front_eq_nil_iff, forall_mem_append, forall_mem_singleton]
  cases parts with
  | nil =>
    refine (readType_arrow_nil_iff result).trans ?_
    simp
  | cons first rest => exact (readType_arrow_cons_iff first rest result).trans and_assoc.symm

theorem beginsWith_arrow (front back : String) :
    beginsWith (front ++ " -> " ++ back) "(" = beginsWith front "(" := by
  rw [beginsWith, beginsWith, String.toList_append, String.toList_append]
  cases front.toList with
  | nil => rfl
  | cons char rest => simp [List.isPrefixOf]

theorem beginsWith_wrapFunction (part : TypeText) :
    beginsWith (wrapFunction part.text) "(" = hasArrow part.text := by
  rw [wrapFunction]
  change beginsWith (if (hasArrow part.text && !beginsWith part.text "(") = true
    then _ else _) "(" = _
  cases arrow : hasArrow part.text with
  | false =>
    cases opens : beginsWith part.text "(" with
    | false => simpa using opens
    | true => exact absurd (part.alone arrow) (part.several opens)
  | true =>
    cases opens : beginsWith part.text "(" with
    | false => simp [beginsWith, List.isPrefixOf]
    | true => simpa using opens

theorem startsGrouped_arrow (parts : List TypeText) (result : TypeText) :
    startsGrouped (arrow parts result).text =
      (parts.head?.elim false fun first => hasArrow first.text) := by
  have arrows : hasArrow (arrow parts result).text := by
    cases has : hasArrow (arrow parts result).text with
    | true => rfl
    | false =>
      exact absurd ((arrow parts result).alone has)
        (append_ne_nil_of_left_ne_nil (spine_ne_nil parts) _)
  rw [startsGrouped, arrows, Bool.true_and]
  cases parts with
  | nil => exact beginsWith_arrow "Void" (wrapFunction result.text)
  | cons first rest =>
    obtain ⟨back, whole⟩ : ∃ back, (arrow (first :: rest) result).text =
        wrapFunction first.text ++ " -> " ++ back := by
      cases rest with
      | nil => exact ⟨wrapFunction result.text, rfl⟩
      | cons second rest =>
        refine ⟨joinWith " -> " (((second :: rest).map text).map wrapFunction) ++ " -> " ++
          wrapFunction result.text, ?_⟩
        simp [arrow, arrowType, joinWith, String.append_assoc]
    rw [whole, beginsWith_arrow, beginsWith_wrapFunction]
    rfl

end TypeText

/-! ### Translated types -/

inductive SimpleType : Node → Prop
  | predefined {node : Node} (kind : node.kind = "predefined_type") : SimpleType node
  | name {node : Node} (kind : node.kind = "type_identifier")
      (word : IsTypeWord node.text) : SimpleType node
  | inside {node : Node}
      (kind : node.kind = "parenthesized_type" ∨ node.kind = "type_annotation")
      (inner : ∀ part ∈ node.first?, SimpleType part) : SimpleType node
  | array {node : Node} (kind : node.kind = "array_type")
      (element : ∀ part ∈ node.first?, SimpleType part) : SimpleType node
  /-- A function type; its parameters may be optional, rest parameters or patterns. -/
  | function {node : Node} (kind : node.kind = "function_type")
      (parameters : ∀ list ∈ node.field? "parameters", ∀ parameter ∈ list.named,
        ∀ typing ∈ parameter.field? "type", SimpleType typing)
      (result : ∀ part ∈ node.field? "return_type", SimpleType part) : SimpleType node

def parameterTypes (view : View) (node : Node) : List String :=
  (((rendered node).field? "parameters").elim [] (·.named)).filterMap (parameterType? view)

def resultType (view : View) (node : Node) : String :=
  typeOf? view ((rendered node).field? "return_type")

def IsTypeText (text : String) : Prop := ∃ part : TypeText, part.text = text

section Translated

variable {view : View} {node : Node}

theorem isTypeText_word (written : name ≠ "")
    (chars : name.toList.all Haxe.isTypeWord) : IsTypeText name :=
      ⟨.word name ⟨written, chars⟩, rfl⟩

theorem IsTypeText.apply (name : String) {text : String} (written : name ≠ "")
    (chars : name.toList.all Haxe.isTypeWord) (argument : IsTypeText text) :
    IsTypeText (name ++ "<" ++ text ++ ">") := by
  obtain ⟨part, rfl⟩ := argument
  exact ⟨.apply name ⟨written, chars⟩ part, rfl⟩

theorem isTypeText_dynamic : IsTypeText dynamicType := isTypeText_word (by decide) (by decide)

theorem exists_map_text {texts : List String} (each : ∀ text ∈ texts, IsTypeText text) :
    ∃ parts : List TypeText, texts = parts.map TypeText.text := by
  induction texts with
  | nil => exact ⟨[], rfl⟩
  | cons text rest rest_parts =>
    obtain ⟨part, rfl⟩ := each text (.head _)
    obtain ⟨parts, rfl⟩ := rest_parts fun other member => each other (.tail _ member)
    exact ⟨part :: parts, rfl⟩

theorem isTypeText_predefinedType (name : String) : IsTypeText (predefinedType name) := by
  unfold predefinedType
  split
  iterate 4 exact isTypeText_word (by decide) (by decide)
  · exact isTypeText_dynamic

theorem isTypeText_namedType (word : IsTypeWord name) : IsTypeText (namedType view name []) := by
  unfold namedType
  split
  · exact isTypeText_dynamic
  split
  iterate 2 exact .apply "Array" (by decide) (by decide) isTypeText_dynamic
  · exact .apply "haxe.DynamicAccess" (by decide) (by decide) isTypeText_dynamic
  all_goals first
    | exact isTypeText_word (by decide) (by decide)
    | exact isTypeText_word word.written word.chars

theorem isTypeText_typeOf? {part : Option Part}
    (type : ∀ inner ∈ part, IsTypeText (inner.value.type view)) :
    IsTypeText (typeOf? view part) := by
  cases part with
  | none => exact isTypeText_dynamic
  | some inner => exact type inner rfl

theorem type_rendered {rule : Part → View → String}
    (found : typeRules.lookup node.kind = some rule) :
    (rendered node).value.type view =
      rule (partOf node.token (node.children.map rendered)) view := by
  have looked : typeRules.lookup (partOf node.token (node.children.map rendered)).kind =
      some rule := found
  rw [value_rendered]
  change renderType _ view = _
  rw [renderType, looked]

theorem first?_partOf (node : Node) :
    (partOf node.token (node.children.map rendered)).first? = node.first?.map rendered := by
  obtain ⟨token, value, children⟩ := node
  have first := Tree.first?_annotate rendering (.node token value children)
  rw [Tree.annotate_node] at first
  exact first

theorem field?_partOf (node : Node) (field : String) :
    (partOf node.token (node.children.map rendered)).field? field =
      (node.field? field).map rendered := by
  obtain ⟨token, value, children⟩ := node
  have filled := Tree.field?_annotate rendering (.node token value children) field
  rw [Tree.annotate_node] at filled
  exact filled

theorem type_rendered_function (kind : node.kind = "function_type") :
    (rendered node).value.type view =
      arrowType (parameterTypes view node) (resultType view node) := by
  have found : typeRules.lookup node.kind = some functionType := by
    rw [kind]
    rfl
  rw [type_rendered found, functionType, parameterTypes, resultType, field?_partOf, field?_partOf,
    rendered, Tree.field?_annotate, Tree.field?_annotate]
  cases node.field? "parameters" with
  | none => rfl
  | some list => rfl

theorem isTypeText_typeOf?_map {part : Option Node}
    (type : ∀ inner ∈ part, IsTypeText ((rendered inner).value.type view)) :
    IsTypeText (typeOf? view (part.map rendered)) := by
  apply isTypeText_typeOf?
  intro inner found
  obtain ⟨source, here, rfl⟩ := Option.map_eq_some_iff.mp found
  exact type source here

abbrev Translates (view : View) (node : Node) : Prop :=
  node.Throughout fun part => SimpleType part → IsTypeText ((rendered part).value.type view)

theorem SimpleType.kind_ne (simple : SimpleType node) : node.kind ≠ "generic_type" := by
  cases simple with
  | predefined kind | name kind word | array kind element | function kind parameters result =>
    simp [kind]
  | inside kind inner => rcases kind with kind | kind <;> simp [kind]

theorem SimpleType.first {part : Node} (simple : SimpleType node)
    (kind : node.kind = "array_type" ∨ node.kind = "type_annotation") (here : part ∈ node.first?) :
    SimpleType part := by
  cases simple with
  | inside _ inner => exact inner part here
  | array _ element => exact element part here
  | predefined other | name other _ | function other _ _ => simp [other] at kind

theorem isTypeText_restElement {typing : Option Node}
    (simple : ∀ part ∈ typing, SimpleType part) (below : ∀ part ∈ typing, Translates view part) :
    IsTypeText (restElement view (typing.map rendered)) := by
  rw [restElement]
  dsimp only
  split
  · exact isTypeText_dynamic
  rename_i part found
  -- Behind the colon of an annotation the same kinds of types stand.
  obtain ⟨source, rfl, isSimple, inside⟩ : ∃ source, part = rendered source ∧
      SimpleType source ∧ Translates view source := by
    obtain ⟨written, given, taken⟩ := Option.bind_eq_some_iff.mp found
    obtain ⟨node, here, rfl⟩ := Option.map_eq_some_iff.mp given
    split at taken
    · rename_i annotation
      rw [rendered, Tree.first?_annotate] at taken
      obtain ⟨source, first, rfl⟩ := Option.map_eq_some_iff.mp taken
      have kind : node.kind = "type_annotation" := by simpa [rendered] using annotation
      exact ⟨source, rfl, (simple node here).first (.inr kind) first, (below node here).first first⟩
    · cases taken
      exact ⟨node, rfl, simple node here, below node here⟩
  have kind : (rendered source).kind = source.kind := Tree.kind_annotate ..
  have first : (rendered source).first? = source.first?.map rendered := Tree.first?_annotate ..
  rw [kind, first]
  split
  · rename_i array
    have isArray : source.kind = "array_type" := by simpa using array
    exact isTypeText_typeOf?_map fun element here =>
      (inside.first here).top (isSimple.first (.inl isArray) here)
  · rw [if_neg (by simpa using isSimple.kind_ne)]
    exact isTypeText_dynamic

theorem isTypeText_parameterType? {parameter : Node} {text : String}
    (simple : ∀ typing ∈ parameter.field? "type", SimpleType typing)
    (below : Translates view parameter)
    (found : parameterType? view (rendered parameter) = some text) : IsTypeText text := by
  have typing : (rendered parameter).field? "type" = (parameter.field? "type").map rendered :=
    Tree.field?_annotate ..
  have inside : ∀ typing ∈ parameter.field? "type", Translates view typing :=
    fun typing here => below.field here
  have type : IsTypeText (typeOf? view ((parameter.field? "type").map rendered)) :=
    isTypeText_typeOf?_map fun typing here => (inside typing here).top (simple typing here)
  rw [parameterType?, typing] at found
  split at found
  · cases found
  dsimp only at found
  split at found
  · cases found
  split at found
  · cases found
    exact (isTypeText_restElement simple inside).apply "haxe.Rest" (by decide) (by decide)
  · split at found
    · cases found
      exact type.apply "Null" (by decide) (by decide)
    · cases found
      exact type

theorem isTypeText_parts (parameters : ∀ list ∈ node.field? "parameters", ∀ parameter ∈ list.named,
      ∀ typing ∈ parameter.field? "type", SimpleType typing)
    (result : ∀ part ∈ node.field? "return_type", SimpleType part)
    (below : ∀ child ∈ node.children, Translates view child) :
    (∀ text ∈ parameterTypes view node, IsTypeText text) ∧ IsTypeText (resultType view node) := by
  constructor
  · intro text member
    rw [parameterTypes, rendered, Tree.field?_annotate, mem_filterMap] at member
    obtain ⟨part, listed, found⟩ := member
    cases given : node.field? "parameters" with
    | none =>
      rw [given] at listed
      simp at listed
    | some list =>
      rw [given] at listed
      change part ∈ (rendered list).named at listed
      rw [rendered, Tree.named_annotate] at listed
      obtain ⟨parameter, inside, rfl⟩ := mem_map.mp listed
      have deeper := below list (Tree.mem_children_of_field? given)
      exact isTypeText_parameterType? (parameters list given parameter inside)
        (deeper.named inside) found
  · rw [resultType, rendered, Tree.field?_annotate]
    exact isTypeText_typeOf?_map fun part here =>
      (below part (Tree.mem_children_of_field? here)).top (result part here)

theorem translates (view : View) (tree : Node) : Translates view tree := by
  induction tree using Tree.tree_induction with
  | node token value children below =>
    refine .node ?_ below
    intro simple
    have first (inner : ∀ part ∈ (TypeScript.Tree.node token value children).first?,
        SimpleType part) : IsTypeText (innerType (partOf token (children.map rendered)) view) := by
      have rendered_first := first?_partOf (.node token value children)
      rw [Tree.token, Tree.children] at rendered_first
      rw [innerType, rendered_first]
      refine isTypeText_typeOf?_map fun part here => ?_
      have child := Tree.mem_children_of_mem_named (Tree.mem_named_of_first? here)
      exact (below part child).top (inner part here)
    cases simple with
    | predefined kind =>
      rw [type_rendered (by rw [kind]; rfl)]
      exact isTypeText_predefinedType _
    | name kind word =>
      rw [type_rendered (by rw [kind]; rfl)]
      exact isTypeText_namedType word
    | inside kind inner =>
      rcases kind with kind | kind
      all_goals
        rw [type_rendered (by rw [kind]; rfl)]
        exact first inner
    | array kind element =>
      rw [type_rendered (by rw [kind]; rfl)]
      exact (first element).apply "Array" (by decide) (by decide)
    | function kind parameters result =>
      obtain ⟨texts, last⟩ := isTypeText_parts parameters result below
      obtain ⟨parts, same⟩ := exists_map_text texts
      obtain ⟨final, written⟩ := last
      rw [type_rendered_function kind, same, ← written]
      exact ⟨.arrow parts final, rfl⟩

end Translated

/-- Every part of a simple function type reads as a type. The function type reads as one with the
types of its parts exactly when none of them is a function type that starts with a parenthesis and
its parameters are not a lone `Void`. It starts with a parenthesis itself exactly when its first
parameter has an arrow, so that it is misread wherever it is a part. -/
theorem functionType_reads_iff {view : View} {node : Node} (simple : SimpleType node)
    (kind : node.kind = "function_type") :
    ∃ parameters result,
      (parameterTypes view node).map readType = parameters.map some ∧
      readType (resultType view node) = some result ∧
      (readType ((rendered node).value.type view) = some (.function parameters result) ↔
        (∀ text ∈ parameterTypes view node ++ [resultType view node], startsGrouped text = false) ∧
          parameterTypes view node ≠ ["Void"]) ∧
      (startsGrouped ((rendered node).value.type view) ↔
        ∃ first ∈ (parameterTypes view node).head?, hasArrow first) := by
  obtain ⟨texts, last⟩ : (∀ text ∈ parameterTypes view node, IsTypeText text) ∧
      IsTypeText (resultType view node) := by
    have below : ∀ child ∈ node.children, Translates view child :=
      fun child _ => translates view child
    cases simple with
    | function _ parameters result => exact isTypeText_parts parameters result below
    | predefined other | name other _ | array other _ => simp [other] at kind
    | inside other _ => rcases other with other | other <;> simp [other] at kind
  obtain ⟨parts, same⟩ := exists_map_text texts
  obtain ⟨result, written⟩ := last
  refine ⟨parts.map TypeText.type, result.type, ?_, ?_, ?_, ?_⟩
  · rw [same, map_map, map_map]
    exact map_congr_left fun part _ => part.readType_text
  · rw [← written]
    exact result.readType_text
  · rw [type_rendered_function kind, same, ← written]
    refine (TypeText.readType_arrow_iff parts result).trans ?_
    simp only [forall_mem_append, forall_mem_singleton, forall_mem_map]
  · rw [type_rendered_function kind, same, ← written]
    have grouped := TypeText.startsGrouped_arrow parts result
    rw [show (TypeText.arrow parts result).text =
      arrowType (parts.map TypeText.text) result.text from rfl] at grouped
    rw [grouped]
    cases parts with
    | nil => simp
    | cons first rest => simp

namespace Sample

def predefined (field name : String) : Node := node "predefined_type" field name []

def functionOf (field : String) (parameters : List Node) (result : Node) :
    Node :=
  node "function_type" field ""
    [node "formal_parameters" "parameters" "" (parameters.map fun type =>
      node "required_parameter" "" ""
        [identifier "pattern" "x", node "type_annotation" "type" "" [type]]), result]

theorem simpleType_functionOf {field : String} {parameters : List Node}
    {result : Node} (filled : result.token.field = "return_type")
    (each : ∀ type ∈ parameters, type.isNamed ∧ type.kind ≠ "comment" ∧ SimpleType type)
    (last : SimpleType result) : SimpleType (functionOf field parameters result) := by
  refine .function rfl ?_ ?_
  · intro list found parameter inside typing given
    cases found
    rw [Tree.named, Tree.parts] at inside
    obtain ⟨type, listed, rfl⟩ := mem_map.mp (mem_filter.mp (mem_filter.mp inside).1).1
    cases given
    obtain ⟨isNamed, noComment, simple⟩ := each type listed
    refine .inside (.inr rfl) fun part first => ?_
    have only : (node "type_annotation" "type" "" [type]).first? = some type := by
      simp [Tree.first?, Tree.named, Tree.parts, node, Tree.children, isNamed, noComment]
    rw [only] at first
    cases first
    exact simple
  · intro part found
    have only : (functionOf field parameters result).field? "return_type" = some result := by
      simpa [Tree.field?, functionOf, node, Tree.children, Tree.token] using filled
    rw [only] at found
    cases found
    exact last

def taking (field : String) : Node :=
  functionOf field [functionOf "" [predefined "" "number"] (predefined "return_type" "void")]
    (predefined "return_type" "boolean")

def nested : Node := functionOf "" [taking ""] (predefined "return_type" "string")

def lone : Node :=
  functionOf "" [predefined "" "void"] (predefined "return_type" "number")

def outside : View := ⟨around nested, []⟩

end Sample

open Sample

/-- A function that takes a function reads as such. -/
theorem taking_reads :
    SimpleType (taking "") ∧ (taking "").kind = "function_type" ∧
      (rendered (taking "")).value.type outside = "(Float -> Void) -> Bool" ∧
      readType "(Float -> Void) -> Bool" =
        some (.function [.function [.path "Float" []] (.path "Void" [])] (.path "Bool" [])) := by
  have inner : SimpleType
      (functionOf "" [predefined "" "number"] (predefined "return_type" "void")) :=
    simpleType_functionOf rfl (by simpa using ⟨rfl, by decide, .predefined rfl⟩) (.predefined rfl)
  have simple : SimpleType (taking "") :=
    simpleType_functionOf rfl (by simpa using ⟨rfl, by decide, inner⟩) (.predefined rfl)
  have text : (rendered (taking "")).value.type outside =
      "(Float -> Void) -> Bool" := by decide +kernel
  have parameter : parameterTypes outside (taking "") = ["Float -> Void"] := by
    decide +kernel
  have last : resultType outside (taking "") = "Bool" := by decide +kernel
  obtain ⟨parameters, result, first, second, reads, _⟩ :=
    @functionType_reads_iff outside _ simple rfl
  rw [parameter, last, text] at *
  obtain ⟨only, none, rfl, taken, rest⟩ := map_eq_cons_iff.mp first.symm
  obtain rfl := map_eq_nil_iff.mp rest
  have type := reads.mpr ⟨by decide, by decide⟩
  cases Option.some.inj
    (taken.trans rfl : _ = some (TypeTree.function [.path "Float" []] (.path "Void" [])))
  cases Option.some.inj (second.symm.trans rfl : _ = some (TypeTree.path "Bool" []))
  exact ⟨simple, rfl, text, type⟩

/-- One level deeper the two parts of the parameter read as two parameters, and a lone parameter
without values reads as none. -/
theorem nested_misread :
    parameterTypes outside nested = ["(Float -> Void) -> Bool"] ∧
      (rendered nested).value.type outside = "(Float -> Void) -> Bool -> String" ∧
      readType ((rendered nested).value.type outside) =
        some (.function [.function [.path "Float" []] (.path "Void" []), .path "Bool" []]
          (.path "String" [])) ∧
      parameterTypes outside lone = ["Void"] ∧
      readType ((rendered lone).value.type outside) = some (.function [] (.path "Float" [])) := by
  have deep : (rendered nested).value.type outside =
      "(Float -> Void) -> Bool -> String" := by decide +kernel
  have short : (rendered lone).value.type outside = "Void -> Float" := by
    decide +kernel
  refine ⟨by decide +kernel, deep, ?_, by decide +kernel, ?_⟩
  · rw [deep]
    rfl
  · rw [short]
    rfl

end Haxify.Lower
