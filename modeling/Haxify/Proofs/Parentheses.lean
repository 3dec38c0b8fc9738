import Haxify.Haxe.Parentheses

/-!
# One pair around all

A text is paired if its literals are closed and its parentheses outside of them match. A reader
that stands inside of a pair leaves a paired text as it came to it, so the pair that a text starts
with is closed by the last character exactly if nothing stands behind it. Main statement:
parentheses are added exactly where no pair encloses the text, and never twice.
-/

namespace Haxify.Haxe

open List

/-- What may stand between two quotes: a quote of their kind only behind a backslash, and behind
every backslash another character. -/
inductive Quotable (quote : Char) : List Char → Prop where
  | nil : Quotable quote []
  | char {char : Char} {rest : List Char} (other : char ≠ quote) (plain : char ≠ '\\') :
      Quotable quote rest → Quotable quote (char :: rest)
  | escape {char : Char} {rest : List Char} :
      Quotable quote rest → Quotable quote ('\\' :: char :: rest)

def quotes : List Char := ['"', '\'']

/-- A text whose literals are closed and whose parentheses outside of literals match. -/
inductive Paired : List Char → Prop where
  | nil : Paired []
  | char {char : Char} {rest : List Char} (plain : char ∉ '(' :: ')' :: quotes) :
      Paired rest → Paired (char :: rest)
  | literal {quote : Char} {body rest : List Char} (known : quote ∈ quotes) :
      Quotable quote body → Paired rest → Paired (quote :: body ++ quote :: rest)
  | pair {inner rest : List Char} :
      Paired inner → Paired rest → Paired ('(' :: inner ++ ')' :: rest)

variable {text rest : List Char}

theorem closesLast_literal {quote : Char} (known : quote ∈ quotes) {body : List Char}
    (inside : Quotable quote body) (depth : Nat) :
    closesLast (.literal quote) depth (body ++ quote :: rest) = closesLast .code depth rest := by
  induction inside with
  | nil =>
    have noBackslash : quote ≠ '\\' := by
      rintro rfl
      simp [quotes] at known
    rw [nil_append, closesLast, if_neg noBackslash, if_pos rfl]
  | char other plain _ behind => rw [cons_append, closesLast, if_neg plain, if_neg other, behind]
  | escape _ behind => rw [cons_append, cons_append, closesLast, if_pos rfl, closesLast, behind]

variable (paired : Paired text)
include paired

/-- Within a pair a paired text closes nothing that it does not open. -/
theorem closesLast_append (depth : Nat) (rest : List Char) :
    closesLast .code (depth + 1) (text ++ rest) = closesLast .code (depth + 1) rest := by
  induction paired generalizing depth rest with
  | nil => rfl
  | char plain _ behind =>
    simp only [quotes, mem_cons, not_mem_nil, or_false, not_or] at plain
    obtain ⟨noOpening, noClosing, noDouble, noSingle⟩ := plain
    rw [cons_append, closesLast, if_neg (by simp [noDouble, noSingle]), if_neg noOpening,
      if_neg noClosing, behind]
  | literal known inside _ behind =>
    rw [append_assoc, cons_append, cons_append, closesLast,
      if_pos (by simpa [quotes] using known), closesLast_literal known inside, behind]
  | pair _ _ within behind =>
    rw [append_assoc, cons_append, cons_append, closesLast, if_neg (by decide),
      if_pos rfl, within, closesLast, if_neg (by decide), if_neg (by decide), if_pos rfl,
      if_neg (by simp), Nat.add_sub_cancel, behind]

/-- The pair that a text starts with encloses all of it if nothing stands behind it. -/
theorem closesLast_pair (rest : List Char) :
    closesLast .code 0 ('(' :: text ++ ')' :: rest) = rest.isEmpty := by
  rw [cons_append, closesLast, if_neg (by decide), if_pos rfl, closesLast_append paired,
    closesLast, if_neg (by decide), if_neg (by decide), if_pos rfl]
  cases rest with
  | nil => rfl
  | cons char others => rfl

theorem isWrapped_enclosed : isWrapped ('(' :: text ++ [')']) := by
  rw [isWrapped, closesLast_pair paired, getLast?_concat]
  rfl

theorem isWrapped_iff : isWrapped text ↔ ∃ inner, text = '(' :: inner ++ [')'] ∧ Paired inner := by
  constructor
  · intro wrapped
    rw [isWrapped, Bool.and_eq_true, Bool.and_eq_true] at wrapped
    obtain ⟨⟨first, _⟩, closes⟩ := wrapped
    cases paired with
    | nil => cases first
    | char plain _ =>
      have opening := Option.some.inj (beq_iff_eq.mp first)
      exact absurd (opening ▸ mem_cons_self) plain
    | literal known _ _ =>
      have opening := Option.some.inj (beq_iff_eq.mp first)
      rw [opening] at known
      simp [quotes] at known
    | pair inner _ =>
      rw [closesLast_pair inner, List.isEmpty_iff] at closes
      exact ⟨_, by rw [closes], inner⟩
  · rintro ⟨inner, rfl, within⟩
    exact isWrapped_enclosed within

omit paired

theorem parenthesize_enclosed {inner : String} (paired : Paired inner.toList) :
    parenthesize ("(" ++ inner ++ ")") = "(" ++ inner ++ ")" := by
  have chars : ("(" ++ inner ++ ")").toList = '(' :: inner.toList ++ [')'] := by simp
  rw [parenthesize, if_pos (chars ▸ isWrapped_enclosed paired)]

theorem parenthesize_eq {expression : String} (paired : Paired expression.toList) :
    ∃ inner : String, Paired inner.toList ∧ parenthesize expression = "(" ++ inner ++ ")" ∧
      (expression = inner ∨ expression = "(" ++ inner ++ ")") := by
  by_cases wrapped : isWrapped expression.toList
  · obtain ⟨inner, chars, within⟩ := (isWrapped_iff paired).mp wrapped
    have whole : expression = "(" ++ String.ofList inner ++ ")" := by
      rw [← String.toList_inj, chars]
      simp
    exact ⟨String.ofList inner, by simpa using within, by rw [parenthesize, if_pos wrapped, whole],
      .inr whole⟩
  · exact ⟨expression, paired, by rw [parenthesize, if_neg wrapped], .inl rfl⟩

/-- A paired text counts as enclosed exactly if it is a paired text within one pair. In
parentheses it is enclosed by one pair, holds what it held before, and gets no second pair. -/
theorem parentheses_enclose_once {expression : String} (paired : Paired expression.toList) :
    (isWrapped expression.toList ↔
      ∃ inner, expression.toList = '(' :: inner ++ [')'] ∧ Paired inner) ∧
    (∃ inner : String, Paired inner.toList ∧ parenthesize expression = "(" ++ inner ++ ")" ∧
      (expression = inner ∨ expression = "(" ++ inner ++ ")")) ∧
    parenthesize (parenthesize expression) = parenthesize expression := by
  obtain ⟨inner, within, enclosed, kept⟩ := parenthesize_eq paired
  refine ⟨isWrapped_iff paired, ⟨inner, within, enclosed, kept⟩, ?_⟩
  rw [enclosed, parenthesize_enclosed within]

/-- A parenthesis in a literal closes nothing, and behind a closed pair the text goes on. -/
theorem sum_of_pairs_is_enclosed :
    Paired "(\"\\\")\")+(a)".toList ∧
      parenthesize (parenthesize "(\"\\\")\")+(a)") = parenthesize "(\"\\\")\")+(a)" ∧
      parenthesize "(\"\\\")\")+(a)" = "((\"\\\")\")+(a))" := by
  have literal : Quotable '"' ['\\', '"', ')'] := .escape (.char (by decide) (by decide) .nil)
  have first : Paired ('"' :: ['\\', '"', ')'] ++ '"' :: []) := .literal (by decide) literal .nil
  have second : Paired ('(' :: ['a'] ++ ')' :: []) := .pair (.char (by decide) .nil) .nil
  have paired : Paired "(\"\\\")\")+(a)".toList := .pair first (.char (by decide) second)
  exact ⟨paired, (parentheses_enclose_once paired).2.2, by decide⟩

end Haxify.Haxe
