import Haxify.Lower.Expression
import Haxify.Proofs.Lowering
import Haxify.Proofs.Text
import Mathlib.Data.List.Induction

/-!
# Literals with spreads

A literal is written as pieces. Read from left to right, a bracketed piece stands for the plain
items that it lists and any other one for all that its operand holds. Main statement: what is
read is what the source lists, in its order, and an array with a hole has no Haxe form.
-/

namespace Haxify.Lower

open Lowering List

variable {opening closing : String} {leads : Bool} {texts : List String} {items : List Item}
  {item : Item}

/-- Plain items as a literal lists them. -/
def listed (opening closing : String) (plain : List String) : String :=
  opening ++ ", ".intercalate plain ++ closing

/-- Texts as they are read from left to right: an enclosed one lists plain items, and any other one
is an operand that is spread. Where a literal leads, no operand is the first. -/
inductive ReadAs (opening closing : String) (leads : Bool) : List String → List Item → Prop where
  | nil : ReadAs opening closing leads [] []
  | literal {texts : List String} {items : List Item}
      (front : ReadAs opening closing leads texts items) (plain : List String) :
      ReadAs opening closing leads (texts ++ [listed opening closing plain])
        (items ++ plain.map .plain)
  | operand {texts : List String} {items : List Item}
      (front : ReadAs opening closing leads texts items) (behind : leads → texts ≠ [])
      (text : String) : ReadAs opening closing leads (texts ++ [text]) (items ++ [.spread text])

theorem ReadAs.eq_nil_of_eq_nil (reads : ReadAs opening closing leads texts items)
    (none : texts = []) : items = [] := by
  cases reads <;> simp_all

theorem ReadAs.exists_literal (reads : ReadAs opening closing true texts items)
    (some : texts ≠ []) : ∃ plain others, texts = listed opening closing plain :: others := by
  induction reads with
  | nil => exact absurd rfl some
  | @literal texts _ _ plain first =>
    rcases eq_or_ne texts [] with rfl | some
    · exact ⟨plain, [], rfl⟩
    · obtain ⟨head, others, rfl⟩ := first some
      exact ⟨head, others ++ [_], rfl⟩
  | operand _ behind _ first =>
    obtain ⟨head, others, rfl⟩ := first (behind rfl)
    exact ⟨head, others ++ [_], rfl⟩

/-- A text that puts others together, the first one in front of the rest. -/
inductive Concatenates : String → List String → Prop where
  | first (text : String) : Concatenates text [text]
  | next {text : String} {before : List String} (front : Concatenates text before)
      (last : String) : Concatenates (text ++ ".concat(" ++ last ++ ")") (before ++ [last])

theorem concatenates_cons (first : String) (rest : List String) :
    Concatenates (concatenated (first :: rest)) (first :: rest) := by
  rw [concatenated]
  induction rest using List.reverseRecOn with
  | nil => exact .first first
  | append_singleton rest last front =>
    rw [foldl_append]
    exact .next front last

section Gathering

variable {literal : List String → String} {sofar : Gathered}

/-- The items that are put down are those gone through but the pending ones, and a piece is put
down exactly when one of them is spread. -/
structure Gathers (opening closing : String) (leads : Bool) (sofar : Gathered)
    (items : List Item) : Prop where
  reads : ∃ down, ReadAs opening closing leads sofar.pieces down ∧
    items = down ++ sofar.pending.map .plain
  started : items.any Item.isSpread = !sofar.pieces.isEmpty

variable (spelled : ∀ plain, leads ∨ plain ≠ [] → literal plain = listed opening closing plain)
include spelled

variable (gathers : Gathers opening closing leads sofar items)
include gathers

theorem Gathers.readAs_flushed {due : Bool}
    (called : due → leads ∨ sofar.pending ≠ []) (full : due = false → sofar.pending = []) :
    ReadAs opening closing leads (sofar.flushed literal due) items := by
  obtain ⟨down, reads, rfl⟩ := gathers.reads
  cases due with
  | false => simpa [Gathered.flushed, full rfl] using reads
  | true =>
    rw [Gathered.flushed, if_pos rfl, spelled _ (called rfl)]
    exact .literal reads _

theorem Gathers.step (item : Item) :
    Gathers opening closing leads (gather literal leads sofar item) (items ++ [item]) := by
  cases item with
  | plain text =>
    obtain ⟨⟨down, reads, rfl⟩, started⟩ := gathers
    exact ⟨⟨down, reads, by simp [gather]⟩, by simpa [gather, Item.isSpread] using started⟩
  | spread text =>
    have front : ReadAs opening closing leads (sofar.flushed literal
        (!sofar.pending.isEmpty || leads && sofar.pieces.isEmpty)) items :=
      gathers.readAs_flushed spelled (by simp; tauto) (by simp +contextual)
    refine ⟨⟨_, .operand front ?_ text, by simp [gather]⟩, by simp [gather, Item.isSpread]⟩
    rintro rfl
    unfold Gathered.flushed
    split <;> simp_all

omit gathers in
theorem gathers_foldl (items : List Item) :
    Gathers opening closing leads (items.foldl (gather literal leads) ⟨[], []⟩) items := by
  induction items using List.reverseRecOn with
  | nil => exact ⟨⟨[], .nil, rfl⟩, rfl⟩
  | append_singleton items item front =>
    rw [foldl_append]
    exact front.step spelled item

theorem Gathers.readAs :
    ReadAs opening closing leads (sofar.flushed literal !sofar.pending.isEmpty) items :=
  gathers.readAs_flushed spelled (by simp +contextual) (by simp)

end Gathering

theorem arrayText_reads (items : List Item) : ∃ elements others,
    Concatenates (arrayText items) (listed "[" "]" elements :: others) ∧
      ReadAs "[" "]" true (listed "[" "]" elements :: others) items := by
  have spelled (plain : List String) (_ : true ∨ plain ≠ []) :
      arrayLiteral plain = listed "[" "]" plain := by
    rw [arrayLiteral, Text.joinWith_eq_intercalate, listed]
  have gathers := gathers_foldl spelled items
  rw [arrayText]
  generalize items.foldl (gather arrayLiteral true) ⟨[], []⟩ = gathered at gathers ⊢
  split
  · rename_i spread
    have started : gathered.pieces ≠ [] := by simpa [gathers.started] using spread
    have some : gathered.flushed arrayLiteral (!gathered.pending.isEmpty) ≠ [] := by
      rw [Gathered.flushed]
      split
      · exact append_ne_nil_of_left_ne_nil started _
      · exact started
    have reads := gathers.readAs spelled
    obtain ⟨elements, others, shape⟩ := reads.exists_literal some
    rw [shape] at reads ⊢
    exact ⟨elements, others, concatenates_cons _ _, reads⟩
  · rename_i plain
    obtain ⟨down, front, rfl⟩ := gathers.reads
    have none : gathered.pieces = [] := by simpa [gathers.started] using plain
    rw [front.eq_nil_of_eq_nil none, spelled _ (.inl rfl)]
    exact ⟨gathered.pending, [], .first _, .literal .nil _⟩

variable {context : Context} {state after : State} {node : Part} {parts : List Part}
  {text : String}

/-- Parts of a literal are lowered one after the other: plain ones as such, and of a spread its
operand. -/
inductive LowersItems (context : Context) (plain : State → Part → String → State → Prop) :
    State → List Part → List Item → State → Prop where
  | nil (state : State) : LowersItems context plain state [] [] state
  | plain {state between after : State} {part : Part} {text : String} {parts : List Part}
      {items : List Item} (other : part.kind ≠ "spread_element")
      (run : plain state part text between)
      (rest : LowersItems context plain between parts items after) :
      LowersItems context plain state (part :: parts) (.plain text :: items) after
  | spread {state between after : State} {part operand : Part} {text : String} {parts : List Part}
      {items : List Item} (isSpread : part.kind = "spread_element")
      (found : part.first? = some operand)
      (run : operand.value.expression.evaluate context state = (.ok text, between))
      (rest : LowersItems context plain between parts items after) :
      LowersItems context plain state (part :: parts) (.spread text :: items) after

theorem spreadOperand_eq_ok
    (run : (spreadOperand node).evaluate context state = (.ok item, after)) :
    ∃ operand text, node.first? = some operand ∧ item = .spread text ∧
      operand.value.expression.evaluate context state = (.ok text, after) := by
  rw [spreadOperand] at run
  split at run
  · obtain ⟨text, given, rfl⟩ := map_eq_ok.mp run
    exact ⟨_, text, ‹_›, rfl, given⟩
  · cases run

section Arrays

/-- The parts of an array that are neither brackets nor commas. -/
def elementsOf (parts : List Part) : List Part :=
  parts.filter (·.kind ∉ ["[", "]", ","])

/-- An element as it is lowered. -/
def ElementTo (context : Context) (state : State) (element : Part) (text : String)
    (after : State) : Prop :=
  element.value.expression.evaluate context state = (.ok text, after)

/-- The kinds of the parts of an array but its brackets. -/
def innerKinds (parts : List Part) : List String :=
  (parts.map (·.kind)).filter (· ∉ ["[", "]"])

/-- A comma where an element is due: behind another one, and at the front as behind a comma. -/
def HasHole (parts : List Part) : Prop := [",", ","] <:+: "," :: innerKinds parts

theorem lowersItems_of_arrayItem {between : State}
    (run : (arrayItem node).evaluate context state = (.ok item, between))
    (rest : LowersItems context (ElementTo context) between parts items after) :
    LowersItems context (ElementTo context) state (node :: parts) (item :: items) after := by
  rw [arrayItem] at run
  split at run
  · obtain ⟨operand, text, found, rfl, given⟩ := spreadOperand_eq_ok run
    exact .spread (eq_of_beq ‹_›) found given rest
  · rename_i other
    obtain ⟨text, given, rfl⟩ := map_eq_ok.mp run
    exact .plain (by simpa using other) given rest

theorem arrayItems_eq_ok {isDue : Bool}
    (run : (arrayItems isDue parts).evaluate context state = (.ok items, after)) :
    LowersItems context (ElementTo context) state (elementsOf parts) items after ∧
      ¬[",", ","] <:+: (if isDue then [","] else []) ++ innerKinds parts := by
  induction parts generalizing isDue state items with
  | nil =>
    obtain ⟨rfl, rfl⟩ := pure_eq_ok.mp run
    exact ⟨.nil _, by cases isDue <;> decide⟩
  | cons part rest rest_lowered =>
    rw [arrayItems] at run
    split at run
    · rename_i bracket
      have skipped := rest_lowered run
      simp only [Bool.or_eq_true, beq_iff_eq] at bracket
      rcases bracket with kind | kind <;> simpa [elementsOf, innerKinds, kind] using skipped
    rename_i noBracket
    split at run
    · rename_i isComma
      split at run
      · cases run
      · have behind := rest_lowered run
        simpa [elementsOf, innerKinds, eq_of_beq isComma, *] using behind
    · rename_i noComma
      obtain ⟨item, between, first, run⟩ := bind_eq_ok.mp run
      obtain ⟨others, behind, rfl⟩ := map_eq_ok.mp run
      obtain ⟨lowered, full⟩ := rest_lowered behind
      simp only [Bool.or_eq_true, beq_iff_eq, not_or] at noBracket noComma
      have kept : elementsOf (part :: rest) = part :: elementsOf rest := by
        simp [elementsOf, noBracket, noComma]
      rw [kept]
      refine ⟨lowersItems_of_arrayItem first lowered, ?_⟩
      cases isDue <;> simpa [innerKinds, noBracket, Ne.symm noComma, infix_cons_iff] using full

end Arrays

section Objects

/-- A property as it is lowered: its key, and behind a colon what is lowered of its value. -/
inductive PropertyTo (context : Context) : State → Part → String → State → Prop where
  | pair {state between after : State} {property key value : Part} {name text : String}
      (kind : property.kind = "pair") (keyed : property.field? "key" = some key)
      (named : (objectKey key).evaluate context state = (.ok name, between))
      (found : property.field? "value" = some value)
      (run : value.value.expression.evaluate context between = (.ok text, after)) :
      PropertyTo context state property (name ++ ": " ++ text) after
  | shorthand {state after : State} {property : Part} {text : String}
      (kind : property.kind = "shorthand_property_identifier")
      (run : (nameValue property).evaluate context state = (.ok text, after)) :
      PropertyTo context state property (keyText property.text ++ ": " ++ text) after
  | method {state between after : State} {property key : Part} {name text : String}
      (kind : property.kind = "method_definition") (keyed : property.field? "name" = some key)
      (named : (objectKey key).evaluate context state = (.ok name, between))
      (run : (functionValue property).evaluate context between = (.ok text, after)) :
      PropertyTo context state property (name ++ ": " ++ text) after

theorem objectMember_eq_ok (run : (objectMember node).evaluate context state = (.ok item, after)) :
    node.kind = "spread_element" ∧ (spreadOperand node).evaluate context state = (.ok item, after) ∨
      node.kind ≠ "spread_element" ∧
        ∃ text, item = .plain text ∧ PropertyTo context state node text after := by
  rw [objectMember] at run
  split at run <;> rename_i kind
  · split at run
    · obtain ⟨name, between, named, run⟩ := bind_eq_ok.mp run
      obtain ⟨text, given, rfl⟩ := map_eq_ok.mp run
      exact .inr ⟨by simp [kind], _, rfl, .pair kind ‹_› named ‹_› given⟩
    · cases run
  · obtain ⟨text, given, rfl⟩ := map_eq_ok.mp run
    exact .inr ⟨by simp [kind], _, rfl, .shorthand kind given⟩
  · split at run
    · obtain ⟨name, between, named, run⟩ := bind_eq_ok.mp run
      obtain ⟨text, given, rfl⟩ := map_eq_ok.mp run
      exact .inr ⟨by simp [kind], _, rfl, .method kind ‹_› named given⟩
    · cases run
  · exact .inl ⟨kind, run⟩
  · cases run

theorem lowersItems_of_forEach
    (run : (forEach parts objectMember).evaluate context state = (.ok items, after)) :
    LowersItems context (PropertyTo context) state parts items after := by
  induction parts generalizing state items with
  | nil =>
    obtain ⟨rfl, rfl⟩ := pure_eq_ok.mp run
    exact .nil _
  | cons part rest rest_lowered =>
    obtain ⟨item, between, others, first, behind, rfl⟩ := forEach_cons_eq_ok.mp run
    rcases objectMember_eq_ok first with ⟨isSpread, run⟩ | ⟨other, text, rfl, property⟩
    · obtain ⟨operand, text, found, rfl, given⟩ := spreadOperand_eq_ok run
      exact .spread isSpread found given (rest_lowered behind)
    · exact .plain other property (rest_lowered behind)

theorem LowersItems.any_isSpread {plain : State → Part → String → State → Prop}
    (lowered : LowersItems context plain state parts items after) :
    items.any Item.isSpread = parts.any (·.kind == "spread_element") := by
  induction lowered with
  | nil => rfl
  | plain other _ _ rest_same => simp [Item.isSpread, other, rest_same]
  | spread isSpread _ _ _ _ => simp [Item.isSpread, isSpread]

end Objects

/-- Arrays and objects keep what they list in its order. An array is a bracketed list of elements
with others and operands put behind it, and an object with a spread is made of braced lists and
operands; read from left to right they are what the source lists. An array with a hole is
refused. -/
theorem spreads_keep_order (context : Context) (state : State) (node : Part) :
    (∀ text after, (array node).evaluate context state = (.ok text, after) →
      ∃ items elements others,
        LowersItems context (ElementTo context) state (elementsOf node.parts) items after ∧
        Concatenates text (listed "[" "]" elements :: others) ∧
        ReadAs "[" "]" true (listed "[" "]" elements :: others) items) ∧
    (∀ text after, (object node).evaluate context state = (.ok text, after) →
      ∃ items texts,
        LowersItems context (PropertyTo context) state node.named items after ∧
        ReadAs "\x7b " " \x7d" false texts items ∧
        ((∃ part ∈ node.named, part.kind = "spread_element") →
          text = "(js.lib.Object.assign(\x7b\x7d, " ++ ", ".intercalate texts ++ ") : Dynamic)")) ∧
    (HasHole node.parts → ∀ text after,
      (array node).evaluate context state ≠ (.ok text, after)) := by
  refine ⟨fun text after run => ?_, fun text after run => ?_, fun hole text after run => ?_⟩
  · obtain ⟨items, given, rfl⟩ := map_eq_ok.mp run
    obtain ⟨elements, others, joined, reads⟩ := arrayText_reads items
    exact ⟨items, elements, others, (arrayItems_eq_ok given).1, joined, reads⟩
  · obtain ⟨items, given, rfl⟩ := map_eq_ok.mp run
    have lowered := lowersItems_of_forEach given
    have spelled (plain : List String) (some : false ∨ plain ≠ []) :
        objectLiteral plain = listed "\x7b " " \x7d" plain := by
      rw [objectLiteral, if_neg (by simpa using some), Text.joinWith_eq_intercalate, listed]
    refine ⟨items, _, lowered, (gathers_foldl spelled items).readAs spelled, fun spread => ?_⟩
    have any : items.any Item.isSpread := by
      rw [lowered.any_isSpread]
      simpa using spread
    rw [objectText, if_pos any, ← Text.joinWith_eq_intercalate]
  · obtain ⟨items, given, rfl⟩ := map_eq_ok.mp run
    exact (arrayItems_eq_ok given).2 hole

end Haxify.Lower
