import Haxify.Proofs.Digits
import Mathlib.Algebra.Field.Rat
import Mathlib.Algebra.GroupWithZero.Basic

/-!
# The values of number literals

ECMAScript and Haxe write numbers alike. ECMAScript also has separators between digits, more
letters for a radix, and points without digits on one side. Main statement: a lowered literal
has the value of the source, except for hexadecimal literals with an upper-case letter, which
Haxe does not read.
-/

namespace Haxify.Numeral

open List
open Lower (numberText smallRadix? withFraction withWhole)
open Text (without)

variable {mark : Char}

inductive Exponent : List Char → Int → Prop where
  | none : Exponent [] 0
  | some {mark : Char} {sign chars : List Char} {factor : Int} (isMark : mark ∈ ['e', 'E'])
      (isSign : (sign, factor) ∈ [([], 1), (['+'], 1), (['-'], -1)]) (digits : Digits 10 chars) :
      Exponent (mark :: (sign ++ chars)) (factor * numberOf 10 chars)

/-- What languages differ in, once no separators are left: the letters behind a zero that announce
digits of a radix, and whether a side of a point may be without digits. -/
structure Language where
  marks : List (Char × Nat)
  isBare : Bool

def ecmaScript : Language := ⟨radixMarks, true⟩

def haxe : Language := ⟨[('x', 16)], false⟩

/-- A language writes a number in some characters. -/
inductive Writes (language : Language) : List Char → ℚ → Prop where
  | inRadix {mark : Char} {radix : Nat} {chars : List Char}
      (listed : (mark, radix) ∈ language.marks) (digits : Digits radix chars) :
      Writes language ('0' :: mark :: chars) (numberOf radix chars)
  | whole {front power : List Char} {exponent : Int} (digits : Digits 10 front)
      (powers : Exponent power exponent) :
      Writes language (front ++ power) (numberOf 10 front * 10 ^ exponent)
  | pointed {front back power : List Char} {exponent : Int} (digits : Digits 10 (front ++ back))
      (sides : language.isBare ∨ front ≠ [] ∧ back ≠ []) (powers : Exponent power exponent) :
      Writes language (front ++ '.' :: (back ++ power))
        (numberOf 10 (front ++ back) * 10 ^ (exponent - back.length))

variable {literal : String} {radix : Nat} {char : Char} {chars front back power : List Char}
variable {exponent : Int} {value : ℚ}

section Digits

theorem mem_decimalDigits (isDigit : char.isDigit) : char ∈ decimalDigits := by
  have each : ∀ code < 58, 48 ≤ code → Char.ofNat code ∈ decimalDigits := by decide
  rw [Char.isDigit, Bool.and_eq_true, decide_eq_true_iff, decide_eq_true_iff] at isDigit
  have low : 48 ≤ char.toNat := isDigit.1
  have high : char.toNat ≤ 57 := isDigit.2
  exact Char.ofNat_toNat char ▸ each char.toNat (by omega) low

theorem writes_toString (number : Nat) : Writes haxe (toString number).toList number := by
  have each : decimalDigits.all fun char =>
      digitValue char < 10 ∧ digitValue char = char.toNat - '0'.toNat := by decide
  have digit {char : Char} (member : char ∈ Nat.toDigits 10 number) :=
    of_decide_eq_true (all_eq_true.mp each char
      (mem_decimalDigits (Nat.isDigit_of_mem_toDigits (by decide) (by decide) member)))
  have digits : Digits 10 (Nat.toDigits 10 number) := ⟨by simp, fun _ member => (digit member).1⟩
  have read : numberOf 10 (Nat.toDigits 10 number) = number := by
    refine Eq.trans ?_ (Nat.ofDigitChars_ten_toDigits (n := number))
    exact foldl_ext _ _ _ fun total char member => by rw [(digit member).2]
  have written : Writes haxe _ _ := .whole digits .none
  rw [read] at written
  simpa [Nat.toString_eq_ofList_toDigits] using written

theorem Exponent.mem (powers : Exponent power exponent) : ∀ char ∈ power, char ∈ powerChars := by
  cases powers with
  | none => simp
  | some isMark isSign digits =>
    have each := digits.decimal
    simp only [mem_cons, not_mem_nil, or_false, Prod.mk.injEq] at isMark isSign
    rcases isMark with rfl | rfl <;> rcases isSign with ⟨rfl, _⟩ | ⟨rfl, _⟩ | ⟨rfl, _⟩
    all_goals simp +contextual [powerChars, each]

theorem Digits.mem (digits : Digits 10 chars) (powers : Exponent power exponent) :
    ∀ char ∈ chars ++ power, char ∈ powerChars :=
  forall_mem_append.mpr
    ⟨fun char member => mem_append_right _ (digits.decimal char member), powers.mem⟩

theorem mem_pointed (each : ∀ char ∈ front ++ back ++ power, char ∈ powerChars) :
    ∀ char ∈ front ++ '.' :: (back ++ power), char ∈ '.' :: powerChars := by
  simp only [mem_append, mem_cons] at each ⊢
  grind

theorem Digits.not_mem (digits : Digits radix chars) (bound : radix ≤ 16)
    (none : digitValue char = 16) : char ∉ chars := fun member =>
  absurd (digits.2 char member) (by omega)

theorem not_mem_of_writes (writes : Writes haxe chars value) : 'X' ∉ chars := by
  cases writes with
  | inRadix listed digits =>
    simp only [haxe, mem_singleton, Prod.mk.injEq] at listed
    have inside := digits.not_mem listed.2.le (by decide : digitValue 'X' = 16)
    simpa [listed.1] using inside
  | whole digits powers => exact fun member => absurd (digits.mem powers _ member) (by decide)
  | pointed digits _ powers =>
    exact fun member => absurd (mem_pointed (digits.mem powers) _ member) (by decide)

end Digits

section Texts

variable {raw : List Char} (plain : (without '_' literal).toList = raw)
include plain

theorem endsIn_eq_false (ends : 'n' ∉ raw) : Text.endsIn (without '_' literal) "n" = false := by
  rw [Text.endsIn, plain, Bool.eq_false_iff]
  exact fun ending => ends ((isSuffixOf_iff_suffix.mp ending).subset (by decide))

theorem endsIn_of_digits (digits : Digits radix chars) (bound : radix ≤ 16)
    (shape : raw = '0' :: mark :: chars) (isMark : mark.toLower ≠ 'n') :
    Text.endsIn (without '_' literal) "n" = false := by
  have last : 'n' ∉ chars := digits.not_mem bound (by decide)
  have apart : 'n' ≠ mark := by
    rintro rfl
    exact isMark rfl
  exact endsIn_eq_false plain (by simpa [shape, apart] using last)

/-- A binary or octal literal is written in base ten unless it has more than 128 bits. -/
theorem keeps_of_radix (isRadix : (mark.toLower, radix) ∈ [('o', 8), ('b', 2)])
    (digits : Digits radix chars) (shape : raw = '0' :: mark :: chars) :
    (∃ reason, numberText literal = .error reason ∧ 2 ^ 128 ≤ (numberOf radix chars : ℚ)) ∨
      ∃ text, numberText literal = .ok text ∧ Writes haxe text.toList (numberOf radix chars) := by
  have known : radix ∈ [2, 8, 16] := by
    simp only [mem_cons, not_mem_nil, or_false, Prod.mk.injEq] at isRadix ⊢
    omega
  have bound : radix ≤ 16 := (by decide : ∀ radix ∈ [2, 8, 16], radix ≤ 16) radix known
  have ends := endsIn_of_digits plain digits bound shape (by
    intro same
    simp [same] at isRadix)
  have read : smallRadix? radix chars =
      (some (numberOf radix chars)).filter (· < Nat.pow 2 128) := by
    rw [smallRadix?, if_neg (by simpa using digits.1), digitsUpTo?_eq known digits.2]
    rfl
  have text : numberText literal = (smallRadix? radix chars).elim
      (.error (.unreadable (without '_' literal))) fun number => .ok (toString number) := by
    simp only [mem_cons, not_mem_nil, or_false, Prod.mk.injEq] at isRadix
    rcases isRadix with ⟨letter, rfl⟩ | ⟨letter, rfl⟩
    all_goals
      simp only [numberText, ends, beginsWith_eq plain, plain, shape]
      cases found : smallRadix? _ chars <;> simp [List.isPrefixOf, letter, found]
  rw [text, read]
  by_cases fits : numberOf radix chars < Nat.pow 2 128
  · rw [Option.filter_some_pos (by simpa using fits)]
    exact .inr ⟨_, rfl, writes_toString _⟩
  · rw [Option.filter_some_neg (by simpa using fits)]
    exact .inl ⟨_, rfl, by exact_mod_cast not_lt.mp fits⟩

/-- A hexadecimal literal stays as it is. -/
theorem numberText_of_hex (isHex : mark.toLower = 'x') (digits : Digits 16 chars)
    (shape : raw = '0' :: mark :: chars) : numberText literal = .ok (without '_' literal) := by
  have ends := endsIn_of_digits plain digits le_rfl shape (by rw [isHex]; decide)
  simp [numberText, ends, beginsWith_eq plain, shape, List.isPrefixOf, isHex]

/-- A decimal literal is written with digits on both sides of its point. -/
theorem keeps_of_decimal (marks : ∀ char ∈ raw, char ∈ '.' :: powerChars)
    (writes : Writes haxe (withFraction (withWhole raw)) value) :
    ∃ text, numberText literal = .ok text ∧
      (Writes haxe text.toList value ↔ raw[1]? ≠ some 'X') := by
  have ends := endsIn_eq_false plain fun member => absurd (marks _ member) (by decide)
  obtain ⟨noUpper, begins⟩ := marks_of_decimal marks
  refine ⟨String.ofList (withFraction (withWhole raw)), ?_,
    iff_of_true (by simpa using writes) fun isUpper => noUpper (mem_of_getElem? isUpper)⟩
  simp [numberText, ends, beginsWith_eq plain, begins, plain]

end Texts

section Points

theorem withFraction_append (none : '.' ∉ front) (rest : List Char) :
    withFraction (front ++ rest) = front ++ withFraction rest := by
  induction front with
  | nil => rfl
  | cons char others rest_kept =>
    simp only [mem_cons, not_or] at none
    rw [cons_append, withFraction, rest_kept none.2]
    · rfl
    · exact fun isPoint _ => none.1 isPoint.symm
    · exact fun _ _ isPoint _ => none.1 isPoint.symm

theorem withWhole_append (some : front ≠ []) (none : '.' ∉ front) (rest : List Char) :
    withWhole (front ++ rest) = front ++ rest := by
  cases front with
  | nil => exact absurd rfl some
  | cons char others =>
    rw [cons_append, withWhole]
    exact fun _ equal => none ((List.cons.inj equal).1 ▸ mem_cons_self)

theorem withFraction_point (none : 'e' ∉ back ∧ 'E' ∉ back) (powers : Exponent power exponent) :
    withFraction ('.' :: (back ++ power)) =
      '.' :: ((if back = [] then ['0'] else back) ++ power) := by
  cases back with
  | nil =>
    cases powers with
    | none => rfl
    | some isMark =>
      rcases (by simpa using isMark : _ = 'e' ∨ _ = 'E') with rfl | rfl <;> rfl
  | cons char others =>
    simp only [mem_cons, not_or] at none
    rw [cons_append, withFraction, if_neg]
    · rfl
    · simp [Ne.symm none.1.1, Ne.symm none.2.1]

/-- A zero stands for what is missing on one side of the point. -/
theorem writes_pointed (digits : Digits 10 (front ++ back)) (powers : Exponent power exponent) :
    Writes haxe (withFraction (withWhole (front ++ '.' :: (back ++ power))))
      (numberOf 10 (front ++ back) * 10 ^ (exponent - back.length)) := by
  have none {char : Char} (isOther : char ∉ decimalDigits) : char ∉ front ++ back := fun member =>
    isOther (digits.decimal char member)
  simp only [mem_append, not_or] at none
  have fraction := withFraction_point ⟨(none (by decide)).2, (none (by decide)).2⟩ powers
  have zero : digitValue '0' < 10 := by decide
  by_cases noFront : front = []
  · subst noFront
    rw [nil_append] at digits
    have grown : Digits 10 (['0'] ++ back) := ⟨by simp, forall_mem_cons.mpr ⟨zero, digits.2⟩⟩
    rw [nil_append, withWhole, ← singleton_append, withFraction_append (by decide),
      fraction, if_neg digits.1]
    exact .pointed grown (.inr ⟨by simp, digits.1⟩) powers
  rw [withWhole_append noFront (none (by decide)).1, withFraction_append (none (by decide)).1,
    fraction]
  by_cases noBack : back = []
  · subst noBack
    rw [append_nil] at digits ⊢
    have grown : Digits 10 (front ++ ['0']) :=
      ⟨by simp, forall_mem_append.mpr ⟨digits.2, forall_mem_singleton.mpr zero⟩⟩
    have tenfold : numberOf 10 (front ++ ['0']) = numberOf 10 front * 10 := by
      simp +decide [numberOf, mul_comm]
    have written : Writes haxe _ _ := .pointed grown (.inr ⟨noFront, by simp⟩) powers
    have shifted : (10 : ℚ) * 10 ^ (exponent - 1) = 10 ^ exponent := by
      rw [← zpow_one_add₀ (by decide), add_sub_cancel]
    rw [tenfold, Nat.cast_mul, mul_assoc] at written
    simpa [shifted] using written
  · rw [if_neg noBack]
    exact .pointed digits (.inr ⟨noFront, noBack⟩) powers

end Points

/-- The text of a literal has its value, except behind an upper-case hexadecimal mark. Only binary
and octal numbers of more than 128 bits have no text. -/
theorem writes_numberText_iff (given : Writes ecmaScript (without '_' literal).toList value) :
    (∃ reason, numberText literal = .error reason ∧ 2 ^ 128 ≤ value ∧
      (without '_' literal).toList[1]? ∈ ['b', 'B', 'o', 'O'].map some) ∨
    ∃ text, numberText literal = .ok text ∧
      (Writes haxe text.toList value ↔ (without '_' literal).toList[1]? ≠ some 'X') := by
  generalize plain : (without '_' literal).toList = raw at given ⊢
  cases given with
  | @inRadix mark radix chars listed digits =>
    simp only [ecmaScript, radixMarks, mem_cons, not_mem_nil, or_false, Prod.mk.injEq] at listed
    rcases listed with ⟨rfl, rfl⟩ | ⟨rfl, rfl⟩ | isSmall
    · refine .inr ⟨_, numberText_of_hex plain (by decide) digits rfl, iff_of_true ?_ (by simp)⟩
      exact plain ▸ .inRadix (by decide) digits
    · refine .inr ⟨_, numberText_of_hex plain (by decide) digits rfl, iff_of_false ?_ (by simp)⟩
      exact plain ▸ fun writes => not_mem_of_writes writes (by simp)
    · rcases isSmall with ⟨rfl, rfl⟩ | ⟨rfl, rfl⟩ | ⟨rfl, rfl⟩ | ⟨rfl, rfl⟩
      all_goals
        rcases keeps_of_radix plain (by decide) digits rfl with ⟨_, text, large⟩ | ⟨_, text, writes⟩
        · exact .inl ⟨_, text, large, by simp⟩
        · exact .inr ⟨_, text, iff_of_true writes (by simp)⟩
  | @whole front power exponent digits powers =>
    have marks := digits.mem powers
    have noPoint : '.' ∉ front ++ power := fun member => absurd (marks _ member) (by decide)
    refine .inr (keeps_of_decimal plain (fun char member => .tail _ (marks char member)) ?_)
    have same := withFraction_append noPoint []
    rw [append_nil] at same
    rw [withWhole_append digits.1 fun member => noPoint (mem_append_left _ member), same,
      withFraction, append_nil]
    exact .whole digits powers
  | @pointed front back power exponent digits _ powers =>
    have marks := mem_pointed (digits.mem powers)
    exact .inr (keeps_of_decimal plain marks (writes_pointed digits powers))

theorem separated_point_keeps_value : Writes ecmaScript (without '_' "1_0.").toList 10 ∧
    ∃ text, numberText "1_0." = .ok text ∧ Writes haxe text.toList 10 := by
  have written : Writes ecmaScript (['1', '0'] ++ '.' :: ([] ++ [])) _ :=
    .pointed (digits_of_all (by decide) (by decide)) (.inl rfl) .none
  have value : numberOf 10 ['1', '0'] = 10 := by decide
  have plain : (without '_' "1_0.").toList = ['1', '0', '.'] := by decide
  have given : Writes ecmaScript (without '_' "1_0.").toList 10 := by
    simpa [plain, value] using written
  rcases writes_numberText_iff given with ⟨_, _, _, impossible⟩ | ⟨text, equal, writes⟩
  · exact absurd impossible (by decide)
  · exact ⟨given, text, equal, writes.mpr (by decide)⟩

/-- An upper-case hexadecimal mark stays, and Haxe reads no number there. -/
theorem not_writes_numberText_upper : Writes ecmaScript "0XFF".toList 255 ∧
    numberText "0XFF" = .ok "0XFF" ∧ ¬ ∃ value, Writes haxe "0XFF".toList value := by
  refine ⟨@Writes.inRadix _ _ 16 _ (by decide) (digits_of_all (by decide) (by decide)),
    by decide, ?_⟩
  rintro ⟨value, writes⟩
  exact not_mem_of_writes writes (by decide)

end Haxify.Numeral
