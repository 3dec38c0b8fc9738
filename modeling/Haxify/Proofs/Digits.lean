import Haxify.Lower.Number
import Mathlib.Data.List.Basic

/-!
# The digits of number literals

A number literal is a zero, a letter and digits in the radix that the letter stands for, or it is
decimal. The two are told apart by how the literal begins.
-/

namespace Haxify.Numeral

open List

def digitTable : List (Char × Nat) :=
  [('0', 0), ('1', 1), ('2', 2), ('3', 3), ('4', 4), ('5', 5), ('6', 6), ('7', 7), ('8', 8),
    ('9', 9), ('a', 10), ('b', 11), ('c', 12), ('d', 13), ('e', 14), ('f', 15), ('A', 10),
    ('B', 11), ('C', 12), ('D', 13), ('E', 14), ('F', 15)]

/-- The value of a digit, and 16 for everything that is none. -/
def digitValue (char : Char) : Nat := ((digitTable.find? (·.1 == char)).map (·.2)).getD 16

/-- At least one digit, and nothing but digits. -/
def Digits (radix : Nat) (chars : List Char) : Prop :=
  chars ≠ [] ∧ ∀ char ∈ chars, digitValue char < radix

def numberOf (radix : Nat) (chars : List Char) : Nat :=
  chars.foldl (fun total char => radix * total + digitValue char) 0

/-- The letters behind a zero that announce digits of a radix. -/
def radixMarks : List (Char × Nat) :=
  [('x', 16), ('X', 16), ('o', 8), ('O', 8), ('b', 2), ('B', 2)]

variable {literal : String} {radix : Nat} {char : Char} {chars raw : List Char}

theorem mem_digitTable (small : digitValue char < 16) : (char, digitValue char) ∈ digitTable := by
  rw [digitValue] at small ⊢
  cases found : digitTable.find? (·.1 == char) with
  | none => simp [found] at small
  | some entry =>
    have same : entry.1 = char := by simpa using find?_some found
    exact same ▸ mem_of_find?_eq_some found

def decimalDigits : List Char := ['0', '1', '2', '3', '4', '5', '6', '7', '8', '9']

theorem Digits.decimal (digits : Digits 10 chars) : ∀ char ∈ chars, char ∈ decimalDigits := by
  intro char member
  have small := digits.2 char member
  have each : ∀ entry ∈ digitTable, entry.2 < 10 → entry.1 ∈ decimalDigits := by decide
  exact each _ (mem_digitTable (by omega)) small

theorem digits_of_all (some : chars ≠ []) (all : chars.all (digitValue · < radix)) :
    Digits radix chars := ⟨some, by simpa using all⟩

theorem digitsUpTo?_eq (isRadix : radix ∈ [2, 8, 16])
    (small : ∀ char ∈ chars, digitValue char < radix) (before : Nat) :
    Lower.digitsUpTo? radix before chars =
      some (chars.foldl (fun total char => radix * total + digitValue char) before) := by
  have each : ∀ radix ∈ [2, 8, 16], ∀ entry ∈ digitTable, entry.2 < radix →
      Lower.digitUpTo? radix entry.1 = some entry.2 := by decide
  have bound : radix ≤ 16 := (by decide : ∀ radix ∈ [2, 8, 16], radix ≤ 16) radix isRadix
  induction chars generalizing before with
  | nil => rfl
  | cons char rest rest_read =>
    rw [forall_mem_cons] at small
    have read := each radix isRadix _ (mem_digitTable (Nat.lt_of_lt_of_le small.1 bound)) small.1
    simp [Lower.digitsUpTo?, read, rest_read small.2, Nat.mul_comm]

def powerChars : List Char := ['e', 'E', '+', '-'] ++ decimalDigits

theorem beginsWith_eq (plain : (Text.without '_' literal).toList = raw) (start : String) :
    Text.beginsWith (Text.lowerCase (Text.without '_' literal)) start =
      start.toList.isPrefixOf (raw.map Char.toLower) := by
  rw [Text.beginsWith, Text.lowerCase, String.toList_ofList, plain]

/-- No radix is announced in digits, points and exponents. -/
theorem marks_of_decimal (marks : ∀ char ∈ raw, char ∈ '.' :: powerChars) : 'X' ∉ raw ∧
    ∀ letter ∈ ['b', 'o', 'x'], ['0', letter].isPrefixOf (raw.map Char.toLower) = false := by
  have each : ('.' :: powerChars).all fun char =>
      char.toLower ∉ ['b', 'o', 'x'] ∧ char ≠ 'X' := by decide
  have noMark {char : Char} (member : char ∈ raw) :=
    of_decide_eq_true (all_eq_true.mp each char (marks char member))
  refine ⟨fun isUpper => (noMark isUpper).2 rfl, fun letter isLetter => ?_⟩
  refine Bool.eq_false_iff.mpr fun begins => ?_
  obtain ⟨char, member, rfl⟩ := mem_map.mp
    ((List.isPrefixOf_iff_prefix.mp begins).subset (.tail _ (.head _)))
  exact (noMark member).1 isLetter

end Haxify.Numeral
