import Haxify.Proofs.BracketsOfFunctions

/-!
# Brackets in expressions

Numbers and names have no marks, texts are quoted, and every other text is put together from
balanced ones by a form that is balanced itself.
-/

namespace Haxify.Lower

open List
open Haxe (Balanced Unmarked balanced_joinWith)

variable {char : Char} {chars : List Char} {text : String}
variable {node : Part}

section Numbers

theorem mem_withFraction (member : char ∈ withFraction chars) : char ∈ chars ∨ char = '0' := by
  fun_induction withFraction chars with
  | case1 | case4 => exact .inl member
  | case2 => simpa [or_comm] using member
  | case3 next rest isExponent =>
    simp only [mem_cons] at member ⊢
    tauto
  | case5 first rest _ _ rest_mem =>
    rcases mem_cons.mp member with rfl | later
    · exact .inl (.head _)
    · exact (rest_mem later).imp_left (.tail _)

theorem mem_withWhole (member : char ∈ withWhole chars) : char ∈ chars ∨ char = '0' := by
  rw [withWhole.eq_def] at member
  split at member
  · exact (mem_cons.mp member).symm
  · exact .inl member

theorem unmarked_without (plain : Unmarked text) (char : Char) :
    Unmarked (Text.without char text) := by
  refine plain.mono fun other member => ?_
  rw [Text.without, String.toList_ofList] at member
  exact (mem_filter.mp member).1

theorem unmarked_numberText {literal : String} (plain : Unmarked literal)
    (given : numberText literal = .ok text) : Unmarked text := by
  have raw := unmarked_without plain '_'
  have zero : '0' ∉ Haxe.marks := by decide
  simp only [numberText] at given
  split at given
  · cases given
  split at given
  · split at given
    · exact Except.ok.inj given ▸ Haxe.unmarked_toString _
    · cases given
  · split at given
    · split at given
      · exact Except.ok.inj given ▸ Haxe.unmarked_toString _
      · cases given
    · split at given
      · exact Except.ok.inj given ▸ raw
      rw [← Except.ok.inj given]
      rw [Haxe.unmarked_iff] at raw ⊢
      intro char member
      rw [String.toList_ofList] at member
      rcases mem_withFraction member with inside | rfl
      · rcases mem_withWhole inside with inside | rfl
        · exact raw char inside
        · exact zero
      · exact zero

end Numbers

section Literals

variable {items : List Item}

def BalancedItem : Item → Prop
  | .plain text => Balanced text
  | .spread text => Balanced text

def BalancedGathered (sofar : Gathered) : Prop :=
  (∀ piece ∈ sofar.pieces, Balanced piece) ∧ ∀ item ∈ sofar.pending, Balanced item

section Gathering

variable {literal : List String → String}
  (whole : ∀ items : List String, (∀ item ∈ items, Balanced item) → Balanced (literal items))
include whole

theorem balanced_flushed {sofar : Gathered} (due : Bool) (each : BalancedGathered sofar) :
    ∀ piece ∈ sofar.flushed literal due, Balanced piece := by
  cases due with
  | false => exact each.1
  | true => exact forall_mem_append.mpr ⟨each.1, forall_mem_singleton.mpr (whole _ each.2)⟩

theorem balanced_gathered (leads : Bool) (each : ∀ item ∈ items, BalancedItem item) :
    BalancedGathered (items.foldl (gather literal leads) ⟨[], []⟩) := by
  refine foldlRecOn items _ ⟨by simp, by simp⟩ fun sofar front item member => ?_
  have balanced := each item member
  cases item with
  | plain text =>
    exact ⟨front.1, forall_mem_append.mpr ⟨front.2, forall_mem_singleton.mpr balanced⟩⟩
  | spread text =>
    exact ⟨forall_mem_append.mpr
      ⟨balanced_flushed whole _ front, forall_mem_singleton.mpr balanced⟩,
      by simp [gather]⟩

end Gathering

theorem balanced_arrayLiteral (elements : List String)
    (each : ∀ element ∈ elements, Balanced element) : Balanced (arrayLiteral elements) := by
  have joined : Balanced (Text.joinWith ", " elements) := balanced_joinWith (by decide) each
  rw [arrayLiteral]
  simp +decide [Haxe.Balanced, joined.read_append]

theorem balanced_objectLiteral (fields : List String) (each : ∀ field ∈ fields, Balanced field) :
    Balanced (objectLiteral fields) := by
  have joined : Balanced (Text.joinWith ", " fields) := balanced_joinWith (by decide) each
  rw [objectLiteral]
  split
  · decide
  · simp +decide [Haxe.Balanced, joined.read_append]

theorem balanced_concatenated {texts : List String} (each : ∀ text ∈ texts, Balanced text) :
    Balanced (concatenated texts) := by
  cases texts with
  | nil => decide
  | cons first rest =>
    refine foldlRecOn rest _ (each first (.head _)) fun done front next member => ?_
    have inside := each next (.tail _ member)
    simp +decide [Haxe.Balanced, front.read_append, inside.read_append]

theorem balanced_arrayText (each : ∀ item ∈ items, BalancedItem item) :
    Balanced (arrayText items) := by
  have gathered := balanced_gathered balanced_arrayLiteral true each
  rw [arrayText]
  split
  · exact balanced_concatenated (balanced_flushed balanced_arrayLiteral _ gathered)
  · exact balanced_arrayLiteral _ gathered.2

theorem balanced_objectText (each : ∀ item ∈ items, BalancedItem item) :
    Balanced (objectText items) := by
  have gathered := balanced_gathered balanced_objectLiteral false each
  rw [objectText]
  split
  · have joined (due : Bool) := balanced_joinWith (by decide : Balanced ", ")
      (balanced_flushed balanced_objectLiteral due gathered)
    simp +decide [Haxe.Balanced, (joined _).read_append]
  · exact balanced_objectLiteral _ gathered.2

theorem balanced_concatenation {operands : List String}
    (each : ∀ operand ∈ operands, Balanced operand) : Balanced (concatenation operands) := by
  have literal : Balanced "\"\"" := by decide
  have several : ∀ operand ∈ literalOperandFirst operands, Balanced operand := by
    rw [literalOperandFirst.eq_def]
    split
    · split
      · exact each
      · exact forall_mem_cons.mpr ⟨literal, each⟩
    · exact forall_mem_singleton.mpr literal
  rw [concatenation]
  split
  · rename_i only found
    exact several only (by rw [found]; exact mem_singleton_self only)
  · have joined : Balanced (Text.joinWith " + " (literalOperandFirst operands)) :=
      balanced_joinWith (by decide) several
    simp +decide [Haxe.Balanced, joined.read_append]

end Literals

section Forms

theorem balanced_globalCall_render {call : GlobalCall} (listed : call ∈ globalCalls)
    {argument : String} (inside : Balanced argument) : Balanced (call.render argument) := by
  simp only [globalCalls, mem_cons, not_mem_nil, or_false] at listed
  rcases listed with rfl | rfl | rfl
  all_goals simp +decide [Haxe.Balanced, inside.read_append]

theorem balanced_methodCall_render {method : String} {render : String → String}
    (found : methodCalls.lookup method = some render) {receiver : String}
    (inside : Balanced receiver) : Balanced (render receiver) := by
  have listed := mem_of_lookup found
  simp only [methodCalls, mem_cons, not_mem_nil, or_false, Prod.mk.injEq] at listed
  rcases listed with ⟨_, rfl⟩ | ⟨_, rfl⟩
  all_goals simp +decide [Haxe.Balanced, inside.read_append]

theorem balanced_constructorName? {name builtin : String}
    (found : constructorName? name = some builtin) : Balanced builtin := by
  rw [constructorName?.eq_def] at found
  split at found
  · cases found
    decide
  · cases found
    decide
  · cases found

theorem balanced_binaryText? {operator left right : String} (first : Balanced left)
    (second : Balanced right) (given : binaryText? operator left right = some text) :
    Balanced text := by
  rw [binaryText?.eq_def] at given
  split at given
  iterate 7
    cases given
    simp +decide [Haxe.Balanced, first.read_append, second.read_append]
  split at given
  · rename_i listed
    cases given
    have shared : ∀ operator ∈ sharedOperators, Balanced operator := by decide
    have between := shared operator (contains_iff_mem.mp listed)
    simp +decide [Haxe.Balanced, first.read_append, between.read_append, second.read_append]
  · cases given

theorem balanced_expandedAssignment? {operator target value : String}
    (first : Balanced target) (second : Balanced value)
    (given : expandedAssignment? operator target value = some text) : Balanced text := by
  rw [expandedAssignment?.eq_def] at given
  split at given
  iterate 4
    cases given
    simp +decide [Haxe.Balanced, first.read_append, second.read_append]
  cases given

theorem balanced_operator (kind : String) (kinds : List String) {operator : Part}
    (slot : (kind, "operator", kinds) ∈ copiedFields) (spelled : ∀ one ∈ kinds, one ∈ spelledKinds)
    (plain : ∀ one ∈ kinds, Balanced one) (sound : SoundTree node)
    (isKind : node.kind = kind) (found : node.field? "operator" = some operator) :
    Balanced operator.text := by
  have listed := sound.top.legible.field _ slot isKind operator found
  rw [(sound.field found).top.legible.spelled (spelled _ listed)]
  exact plain _ listed

theorem balanced_keyText (name : String) : Balanced (keyText name) := by
  rw [keyText]
  split
  · exact (Haxe.unmarked_of_isIdentifier ‹_›).balanced
  · exact Haxe.balanced_quote name

end Forms

end Haxify.Lower
