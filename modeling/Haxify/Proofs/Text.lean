import Haxify.Text.Blank
import Haxify.Text.Fresh
import Haxify.Text.Pieces

/-!
# Cutting and joining texts

A text is cut as the library cuts a list, so what is known of that cut holds here: no piece
holds the separator, every piece consists of characters of the text, and cutting undoes
joining. A fresh name is none of those that are taken.
-/

namespace Haxify.Text

open List

variable {char separator : Char} {text : String}

theorem pieces_eq_splitOnP (separates : Char → Bool) (chars : List Char) :
    pieces separates chars = chars.splitOnP separates := by
  induction chars with
  | nil => rfl
  | cons char rest rest_eq =>
    rw [pieces, splitOnP_cons_eq_if_modifyHead, rest_eq]
    split
    · rfl
    cases cut : rest.splitOnP separates with
    | nil => exact absurd cut (splitOnP_ne_nil separates rest)
    | cons piece others => rfl

theorem mem_of_mem_pieces {separates : Char → Bool} {chars piece : List Char}
    (member : piece ∈ pieces separates chars) (inside : char ∈ piece) :
    char ∈ chars ∧ separates char = false := by
  induction chars generalizing piece with
  | nil =>
    rw [pieces, mem_singleton] at member
    rw [member] at inside
    cases inside
  | cons first rest rest_mem =>
    have behind {other : List Char} (listed : other ∈ pieces separates rest)
        (within : char ∈ other) : char ∈ first :: rest ∧ separates char = false :=
      ⟨.tail _ (rest_mem listed within).1, (rest_mem listed within).2⟩
    rw [pieces] at member
    split at member
    · rcases mem_cons.mp member with rfl | later
      · cases inside
      · exact behind later inside
    · rename_i keeps
      have kept : separates first = false := (Bool.not_eq_true _).mp keeps
      split at member
      · rw [mem_singleton] at member
        rw [member, mem_singleton] at inside
        exact ⟨inside ▸ mem_cons_self, inside ▸ kept⟩
      · rename_i next others cut
        rcases mem_cons.mp member with rfl | later
        · rcases mem_cons.mp inside with rfl | within
          · exact ⟨.head _, kept⟩
          · exact behind (cut ▸ mem_cons_self) within
        · exact behind (cut ▸ .tail _ later) inside

theorem splitOn_eq_map (separator : Char) (text : String) :
    splitOn separator text = (text.toList.splitOn separator).map String.ofList := by
  rw [splitOn, pieces_eq_splitOnP]
  rfl

theorem splitOn_ne_nil (separator : Char) (text : String) : splitOn separator text ≠ [] := by
  rw [splitOn, pieces_eq_splitOnP]
  exact mt map_eq_nil_iff.mp (splitOnP_ne_nil _ _)

theorem mem_of_mem_splitOn {piece : String} (member : piece ∈ splitOn separator text)
    (inside : char ∈ piece.toList) : char ∈ text.toList ∧ char ≠ separator := by
  obtain ⟨chars, listed, rfl⟩ := mem_map.mp member
  rw [String.toList_ofList] at inside
  obtain ⟨found, other⟩ := mem_of_mem_pieces listed inside
  exact ⟨found, beq_eq_false_iff_ne.mp other⟩

theorem splitOn_of_not_mem (none : separator ∉ text.toList) : splitOn separator text = [text] := by
  have apart : ∀ char ∈ text.toList, (char == separator) = false := by
    intro char member
    exact beq_eq_false_iff_ne.mpr fun same => none (same ▸ member)
  rw [splitOn, pieces_eq_splitOnP, splitOnP_eq_singleton apart, map_singleton, String.ofList_toList]

theorem splitOn_append {first second : String}
    (parts : text.toList = first.toList ++ separator :: second.toList) :
    splitOn separator text = splitOn separator first ++ splitOn separator second := by
  rw [splitOn_eq_map, parts, splitOn_append_cons_self, map_append, ← splitOn_eq_map,
    ← splitOn_eq_map]

theorem joinWith_eq_intercalate (separator : String) (texts : List String) :
    joinWith separator texts = separator.intercalate texts := by
  fun_induction joinWith separator texts <;> simp [*]

theorem joinWith_splitOn (separator : Char) (text : String) :
    joinWith (String.ofList [separator]) (splitOn separator text) = text := by
  rw [joinWith_eq_intercalate, splitOn_eq_map, ← String.toList_inj, String.toList_intercalate,
    map_map]
  simp [Function.comp_def, intercalate_splitOn]

theorem splitOn_joinWith (separator : Char) {parts : List String} (some : parts ≠ []) :
    splitOn separator (joinWith (String.ofList [separator]) parts) =
      parts.flatMap (splitOn separator) := by
  induction parts with
  | nil => exact absurd rfl some
  | cons part rest rest_cut =>
    cases rest with
    | nil => simp [joinWith]
    | cons next others =>
      rw [flatMap_cons, ← rest_cut (cons_ne_nil next others), joinWith]
      apply splitOn_append
      rw [String.toList_append, String.toList_append, String.toList_ofList, append_assoc,
        singleton_append]

theorem mem_of_mem_trim (member : char ∈ (trim text).toList) : char ∈ text.toList := by
  rw [trim, String.toList_ofList, dropBlanksEnd, mem_reverse] at member
  have kept := (dropWhile_sublist _).subset member
  rw [mem_reverse] at kept
  exact (dropWhile_sublist _).subset kept

theorem le_leastFree (name : Nat → String) (taken : List String) (start : Nat) :
    start ≤ leastFree name taken start := by
  fun_induction leastFree name taken start with
  | case1 taken start _ later => exact Nat.le_trans (Nat.le_succ start) later
  | case2 taken start _ => exact Nat.le_refl start

/-- If no two numbers have one name, the name of the number found is free. A name taken off
the list on the way is not met again, because the numbers only go up. -/
theorem leastFree_not_mem {name : Nat → String} (injective : Function.Injective name)
    (taken : List String) (start : Nat) : name (leastFree name taken start) ∉ taken := by
  fun_induction leastFree name taken start with
  | case1 taken start _ free =>
    intro member
    have later := le_leastFree name (taken.erase (name start)) (start + 1)
    have other : name (leastFree name (taken.erase (name start)) (start + 1)) ≠ name start := by
      intro same
      have := injective same
      omega
    exact free ((mem_erase_of_ne other).mpr member)
  | case2 taken start free => exact free

theorem toString_injective : Function.Injective (toString : Nat → String) := by
  intro first second same
  rw [Nat.toString_eq_ofList_toDigits, Nat.toString_eq_ofList_toDigits, String.ofList_inj] at same
  have read := congrArg (Nat.ofDigitChars 10 · 0) same
  simpa only [Nat.ofDigitChars_ten_toDigits] using read

theorem freshName_not_mem (base : String) (taken : List String) : freshName base taken ∉ taken := by
  rw [freshName]
  split
  · have injective : Function.Injective fun number : Nat => base ++ toString number :=
      fun first second same => toString_injective ((String.append_right_inj base).mp same)
    exact leastFree_not_mem injective taken 2
  · assumption

end Haxify.Text
