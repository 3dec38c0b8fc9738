import Haxify.Haxe.Name
import Haxify.Lower.Temporary
import Haxify.Proofs.Text
import Mathlib.Data.List.Forall2

/-!
# Legal names

Names are made legal character by character, so different names may come out alike. Two names
are spelled alike exactly when they differ only in characters that no name may hold, or when
one reads like a reserved word and the other like that word with an underscore behind it. Legal
names and module names are left as they are when they are made again.
-/

namespace Haxify.Haxe

open List

variable {name text : String} {first : Char} {rest : List Char}

/-- A character as it is written in a name. -/
def faded (char : Char) : Char := if isWordChar char then char else '_'

/-- Characters that are written alike: equal ones, and those that are underscores or become
underscores. -/
def Confusable (left right : Char) : Prop :=
  left = right ∨ (left = '_' ∨ isWordChar left = false) ∧ (right = '_' ∨ isWordChar right = false)

/-- Names that are written alike, character by character; a leading digit has an underscore in
front. -/
def Lookalike (left right : String) : Prop :=
  Forall₂ Confusable (withLegalStart left.toList) (withLegalStart right.toList)

/-- A name that reads like a reserved word, and one that reads like the word in its legal
form. -/
def ReservedTwins (left right : String) : Prop :=
  ∃ word ∈ reservedWords, Lookalike left word ∧ Lookalike right (word ++ "_")

/-- The characters of a name in their legal form, before reserved words are looked at. -/
def legalForm (name : String) : String :=
  String.ofList ((withLegalStart name.toList).map faded)

theorem faded_eq_iff (left right : Char) : faded left = faded right ↔ Confusable left right := by
  unfold faded Confusable
  have underscore : isWordChar '_' = true := by decide
  by_cases first : isWordChar left <;> by_cases second : isWordChar right <;> grind

theorem isDigit_faded (char : Char) : (faded char).isDigit = char.isDigit := by
  unfold faded
  by_cases kept : isWordChar char
  · rw [if_pos kept]
  · rw [if_neg kept]
    have noDigit : char.isDigit = false := by
      apply (Bool.not_eq_true _).mp
      intro digit
      exact kept (by simp [isWordChar, Char.isAlphanum, digit])
    rw [noDigit]
    rfl

theorem withLegalStart_map_faded (chars : List Char) :
    withLegalStart (chars.map faded) = (withLegalStart chars).map faded := by
  cases chars with
  | nil => rfl
  | cons first rest =>
    simp only [map_cons, withLegalStart, isDigit_faded]
    split <;> rfl

theorem sanitize_eq (name : String) :
    sanitize name =
      if isReserved (legalForm name) then legalForm name ++ "_" else legalForm name := by
  have form : legalForm name = String.ofList (withLegalStart (name.toList.map faded)) := by
    rw [legalForm, withLegalStart_map_faded]
  rw [form]
  rfl

theorem legalForm_eq_iff (left right : String) :
    legalForm left = legalForm right ↔ Lookalike left right := by
  rw [legalForm, legalForm, String.ofList_inj, Lookalike, ← forall₂_eq_eq_eq,
    forall₂_map_left_iff, forall₂_map_right_iff]
  simp only [faded_eq_iff]

theorem legalForm_reserved : ∀ word ∈ reservedWords,
    legalForm word = word ∧ legalForm (word ++ "_") = word ++ "_" ∧
      isReserved (word ++ "_") = false := by
  decide +kernel

theorem isReserved_iff : isReserved name ↔ name ∈ reservedWords := by
  simp [isReserved]

theorem sanitize_eq_of_reserved {left right : String} (reserved : isReserved (legalForm left)) :
    sanitize left = sanitize right ↔
      Lookalike left right ∨ legalForm right = legalForm left ++ "_" := by
  obtain ⟨_, _, free⟩ := legalForm_reserved _ (isReserved_iff.mp reserved)
  rw [sanitize_eq, sanitize_eq, if_pos reserved, ← legalForm_eq_iff]
  by_cases other : isReserved (legalForm right)
  · rw [if_pos other, String.append_left_inj]
    have apart : legalForm right ≠ legalForm left ++ "_" := by
      intro same
      rw [same, free] at other
      cases other
    simp [apart]
  · rw [if_neg other]
    have apart : legalForm left ≠ legalForm right := by
      intro same
      exact other (same ▸ reserved)
    simp [apart, eq_comm]

theorem reservedTwins_iff (left right : String) :
    ReservedTwins left right ↔
      isReserved (legalForm left) ∧ legalForm right = legalForm left ++ "_" := by
  constructor
  · rintro ⟨word, listed, first, second⟩
    obtain ⟨plain, suffixed, _⟩ := legalForm_reserved word listed
    rw [← legalForm_eq_iff, plain] at first
    rw [← legalForm_eq_iff, suffixed] at second
    rw [first, second]
    exact ⟨isReserved_iff.mpr listed, rfl⟩
  · rintro ⟨reserved, spelled⟩
    have listed := isReserved_iff.mp reserved
    obtain ⟨plain, suffixed, _⟩ := legalForm_reserved _ listed
    refine ⟨legalForm left, listed, ?_, ?_⟩
    · rw [← legalForm_eq_iff, plain]
    · rw [← legalForm_eq_iff, suffixed, spelled]

theorem sanitize_eq_iff (left right : String) :
    sanitize left = sanitize right ↔
      Lookalike left right ∨ ReservedTwins left right ∨ ReservedTwins right left := by
  rw [reservedTwins_iff, reservedTwins_iff]
  by_cases first : isReserved (legalForm left)
  · have untwinned : ¬(isReserved (legalForm right) ∧ legalForm left = legalForm right ++ "_") := by
      rintro ⟨second, same⟩
      rw [same, (legalForm_reserved _ (isReserved_iff.mp second)).2.2] at first
      cases first
    rw [sanitize_eq_of_reserved first]
    simp [first, untwinned]
  · by_cases second : isReserved (legalForm right)
    · have symmetric : Lookalike right left ↔ Lookalike left right := by
        rw [← legalForm_eq_iff, ← legalForm_eq_iff, eq_comm]
      rw [eq_comm, sanitize_eq_of_reserved second, symmetric]
      simp [first, second]
    · rw [sanitize_eq, sanitize_eq, if_neg first, if_neg second, legalForm_eq_iff]
      simp [first, second]

theorem isDigit_of_isAlpha {char : Char} (letter : char.isAlpha) : char.isDigit = false := by
  apply (Bool.not_eq_true _).mp
  intro digit
  unfold Char.isAlpha Char.isUpper Char.isLower at letter
  unfold Char.isDigit at digit
  simp only [Bool.or_eq_true, Bool.and_eq_true, decide_eq_true_eq, UInt32.le_iff_toNat_le,
    ge_iff_le] at letter digit
  have first : 'A'.val.toNat = 65 := rfl
  have second : 'a'.val.toNat = 97 := rfl
  have last : '9'.val.toNat = 57 := rfl
  omega

theorem isIdentifier_iff : isIdentifier name ↔ ∃ first rest,
    name.toList = first :: rest ∧ first.isDigit = false ∧
      (∀ char ∈ first :: rest, isWordChar char) ∧ isReserved name = false := by
  have start (first : Char) : (first.isAlpha || first == '_') = true ↔
      first.isDigit = false ∧ isWordChar first := by
    unfold isWordChar Char.isAlphanum
    by_cases letter : first.isAlpha
    · simp [letter, isDigit_of_isAlpha letter]
    · by_cases underscore : first = '_' <;> simp_all
  unfold isIdentifier
  cases chars : name.toList with
  | nil => simp
  | cons first rest =>
    simp only [Bool.and_eq_true, start, all_eq_true, Bool.not_eq_true']
    constructor
    · rintro ⟨⟨⟨noDigit, word⟩, words⟩, free⟩
      exact ⟨first, rest, rfl, noDigit, forall_mem_cons.mpr ⟨word, words⟩, free⟩
    · rintro ⟨_, _, ⟨⟩, noDigit, words, free⟩
      obtain ⟨word, words⟩ := forall_mem_cons.mp words
      exact ⟨⟨⟨noDigit, word⟩, words⟩, free⟩

theorem legalForm_of_isIdentifier (legal : isIdentifier name) :
    legalForm name = name ∧ isReserved name = false := by
  obtain ⟨first, rest, chars, noDigit, words, free⟩ := isIdentifier_iff.mp legal
  have kept : (first :: rest).map faded = first :: rest :=
    (map_congr_left fun char member => if_pos (words char member)).trans (map_id' _)
  rw [legalForm, chars, withLegalStart, if_neg (by simp [noDigit]), kept, ← chars,
    String.ofList_toList]
  exact ⟨rfl, free⟩

theorem isIdentifier_sanitize (name : String) : isIdentifier (sanitize name) := by
  have word (char : Char) : isWordChar (faded char) = true := by
    unfold faded
    split
    · assumption
    · decide
  obtain ⟨first, rest, chars, noDigit⟩ : ∃ first rest,
      withLegalStart name.toList = first :: rest ∧ first.isDigit = false := by
    cases name.toList with
    | nil => exact ⟨'_', [], rfl, rfl⟩
    | cons first rest =>
      rw [withLegalStart]
      split
      · exact ⟨'_', first :: rest, rfl, rfl⟩
      · exact ⟨first, rest, rfl, (Bool.not_eq_true _).mp ‹_›⟩
  have form : (legalForm name).toList = faded first :: rest.map faded := by
    rw [legalForm, chars, String.toList_ofList, map_cons]
  have legal {text : String} (behind : List Char) (words : ∀ char ∈ behind, isWordChar char)
      (spelled : text.toList = (legalForm name).toList ++ behind) (free : isReserved text = false) :
      isIdentifier text := by
    refine isIdentifier_iff.mpr ⟨_, _, spelled.trans (by rw [form, cons_append]),
      (isDigit_faded first).trans noDigit, ?_, free⟩
    simpa [word, or_imp, forall_and] using words
  rw [sanitize_eq]
  split
  · rename_i reserved
    exact legal ['_'] (by simp [isWordChar]) (String.toList_append ..)
      (legalForm_reserved _ (isReserved_iff.mp reserved)).2.2
  · exact legal [] (by simp) (append_nil _).symm ((Bool.not_eq_true _).mp ‹_›)

theorem sanitize_of_isIdentifier (legal : isIdentifier name) : sanitize name = name := by
  obtain ⟨form, free⟩ := legalForm_of_isIdentifier legal
  rw [sanitize_eq, form, if_neg (by simp [free])]

theorem sanitize_eq_self_iff (name : String) : sanitize name = name ↔ isIdentifier name := by
  constructor
  · intro same
    rw [← same]
    exact isIdentifier_sanitize name
  · exact sanitize_of_isIdentifier

variable {char : Char}

theorem isUpper_toUpper (letter : char.isAlpha) : char.toUpper.isUpper := by
  unfold Char.toUpper
  split
  · rename_i lower
    have low : 97 ≤ char.val.toNat := lower.1
    have high : char.val.toNat ≤ 122 := lower.2
    have moved : (char.val + ('A'.val - 'a'.val)).toNat = char.val.toNat - 32 := by
      rw [UInt32.toNat_add, show ('A'.val - 'a'.val : UInt32).toNat = 4294967264 from rfl]
      omega
    have capital : 'A'.val ≤ char.val + ('A'.val - 'a'.val) ∧
        char.val + ('A'.val - 'a'.val) ≤ 'Z'.val := by
      rw [UInt32.le_iff_toNat_le, UInt32.le_iff_toNat_le, moved]
      exact ⟨by change 65 ≤ _; omega, by change _ ≤ 90; omega⟩
    unfold Char.isUpper
    simp only [ge_iff_le, capital, and_self, decide_true]
  · rename_i other
    unfold Char.isAlpha at letter
    refine (Bool.or_eq_true_iff.mp letter).resolve_right fun lower => other ?_
    unfold Char.isLower at lower
    simpa using lower

theorem isAlphanum_toUpper (word : char.isAlphanum) : char.toUpper.isAlphanum := by
  by_cases letter : char.isAlpha
  · unfold Char.isAlphanum Char.isAlpha
    rw [isUpper_toUpper letter, Bool.true_or, Bool.true_or]
  · have other : ¬(char.val ≥ 'a'.val ∧ char.val ≤ 'z'.val) := fun lower => by
      have isLower : char.isLower := by
        unfold Char.isLower
        simpa using lower
      unfold Char.isAlpha at letter
      simp [isLower] at letter
    unfold Char.toUpper
    rwa [dif_neg other]

theorem isAlphanum_of_mem_capitalize {chars : List Char}
    (every : ∀ char ∈ chars, char.isAlphanum) : ∀ char ∈ capitalize chars, char.isAlphanum := by
  cases chars with
  | nil => exact every
  | cons first rest =>
    obtain ⟨head, tail⟩ := forall_mem_cons.mp every
    exact forall_mem_cons.mpr ⟨isAlphanum_toUpper head, tail⟩

theorem moduleName_eq (text : String) : moduleName text = "Module" ∨
    ∃ first rest, moduleName text = String.ofList (capitalize (first :: rest)) ∧
      first.isDigit = false ∧ ∀ char ∈ first :: rest, char.isAlphanum := by
  rw [moduleName]
  split
  · exact .inl rfl
  rename_i first rest found
  refine .inr ⟨first, rest, rfl, ?_, ?_⟩
  · simpa [found] using head?_dropWhile_not Char.isDigit
      ((Text.pieces (fun char => !char.isAlphanum) text.toList).map capitalize).flatten
  rw [← found]
  intro char member
  obtain ⟨word, listed, inside⟩ := mem_flatten.mp ((dropWhile_sublist _).subset member)
  obtain ⟨piece, cut, rfl⟩ := mem_map.mp listed
  refine isAlphanum_of_mem_capitalize (fun letter found => ?_) char inside
  simpa using (Text.mem_of_mem_pieces cut found).2

theorem isAlphanum_of_mem_moduleName (member : char ∈ (moduleName text).toList) :
    char.isAlphanum := by
  rcases moduleName_eq text with same | ⟨first, rest, same, _, words⟩
  · rw [same] at member
    exact all_eq_true.mp (by decide : "Module".toList.all Char.isAlphanum) char member
  · rw [same, String.toList_ofList] at member
    exact isAlphanum_of_mem_capitalize words char member

theorem toUpper_of_isUpper (upper : char.isUpper) : char.toUpper = char := by
  unfold Char.isUpper at upper
  unfold Char.toUpper
  refine dif_neg fun lower => ?_
  have high : char.val.toNat ≤ 90 := (of_decide_eq_true upper).2
  have low : 97 ≤ char.val.toNat := lower.1
  omega

theorem isIdentifier_of_isUpper
    (spelled : text.toList = first :: rest) (upper : first.isUpper)
    (words : ∀ char ∈ text.toList, char.isAlphanum) : isIdentifier text := by
  have lower : ∀ word ∈ reservedWords, word.toList.head?.any Char.isUpper = false := by decide
  have free : isReserved text = false := (Bool.not_eq_true _).mp fun reserved => by
    simpa [spelled, upper] using lower text (isReserved_iff.mp reserved)
  have letter : first.isAlpha := by
    unfold Char.isAlpha
    rw [upper, Bool.true_or]
  refine isIdentifier_iff.mpr ⟨first, rest, spelled, isDigit_of_isAlpha letter, ?_, free⟩
  intro char member
  rw [isWordChar, words char (spelled ▸ member), Bool.true_or]

theorem exists_isUpper_moduleName (text : String) : ∃ first rest,
    (moduleName text).toList = first :: rest ∧ first.isUpper := by
  rcases moduleName_eq text with same | ⟨first, rest, same, noDigit, words⟩
  · exact ⟨'M', "odule".toList, by rw [same]; decide, by decide⟩
  · refine ⟨first.toUpper, rest, by simp [same, capitalize], isUpper_toUpper ?_⟩
    simpa [Char.isAlphanum, noDigit] using words first (.head _)

theorem moduleName_of_isUpper
    (spelled : text.toList = first :: rest) (upper : first.isUpper)
    (words : ∀ char ∈ text.toList, char.isAlphanum) : moduleName text = text := by
  have whole : Text.pieces (fun char => !char.isAlphanum) text.toList = [first :: rest] := by
    rw [Text.pieces_eq_splitOnP,
      splitOnP_eq_singleton fun char member => by simp [words char member],
      spelled]
  have letter : first.isAlpha := by
    unfold Char.isAlpha
    rw [upper, Bool.true_or]
  have kept : capitalize (first :: rest) = first :: rest := by
    rw [capitalize, toUpper_of_isUpper upper]
  have stays : dropWhile Char.isDigit (first :: rest) = first :: rest :=
    dropWhile_cons_of_neg (by simp [isDigit_of_isAlpha letter])
  rw [moduleName, whole, map_singleton, kept, flatten_singleton, stays]
  simp only [kept]
  rw [← spelled, String.ofList_toList]

/-- Every text is made into an identifier, and is left alone exactly when it is one. Every text is
made into a module name: a capital and then letters and digits, which is an identifier too. Both
are left alone when made again. -/
theorem names_are_legal_and_stable (text : String) :
    isIdentifier (sanitize text) ∧ (sanitize text = text ↔ isIdentifier text) ∧
      sanitize (sanitize text) = sanitize text ∧
      (∃ first rest, (moduleName text).toList = first :: rest ∧ first.isUpper ∧
        ∀ char ∈ first :: rest, char.isAlphanum) ∧
      isIdentifier (moduleName text) ∧ moduleName (moduleName text) = moduleName text := by
  obtain ⟨first, rest, spelled, upper⟩ := exists_isUpper_moduleName text
  have words : ∀ char ∈ (moduleName text).toList, char.isAlphanum :=
    fun _ => isAlphanum_of_mem_moduleName
  refine ⟨isIdentifier_sanitize text, sanitize_eq_self_iff text,
    sanitize_of_isIdentifier (isIdentifier_sanitize text), ⟨first, rest, spelled, upper, ?_⟩,
    isIdentifier_of_isUpper spelled upper words, moduleName_of_isUpper spelled upper words⟩
  rwa [← spelled]

end Haxify.Haxe

namespace Haxify.Lower

open List

variable {number : Nat} {char : Char}

theorem toList_tempName (number : Nat) :
    (tempName number).toList = tempStem.toList ++ Nat.toDigits 10 number := by
  rw [tempName, String.toList_append, Nat.toString_eq_ofList_toDigits, String.toList_ofList]

theorem isDigit_of_mem_toDigits (member : char ∈ Nat.toDigits 10 number) : char.isDigit = true :=
  Nat.isDigit_of_mem_toDigits (by decide) (by decide) member

theorem isWordChar_of_mem_tempName (member : char ∈ (tempName number).toList) :
    Haxe.isWordChar char = true := by
  rw [toList_tempName, mem_append] at member
  rcases member with stem | digit
  · have all : tempStem.toList.all Haxe.isWordChar = true := by decide
    exact all_eq_true.mp all char stem
  · simp [Haxe.isWordChar, Char.isAlphanum, isDigit_of_mem_toDigits digit]

theorem isIdentifier_tempName (number : Nat) : Haxe.isIdentifier (tempName number) := by
  have chars : (tempName number).toList = '_' :: ("_tmp".toList ++ Nat.toDigits 10 number) :=
    toList_tempName number
  have starts : ∀ word ∈ Haxe.reservedWords, word.toList.head? ≠ some '_' := by decide
  have free : Haxe.isReserved (tempName number) = false := (Bool.not_eq_true _).mp fun reserved =>
    starts _ (Haxe.isReserved_iff.mp reserved) (by rw [chars]; rfl)
  refine Haxe.isIdentifier_iff.mpr ⟨'_', _, chars, rfl, fun char member => ?_, free⟩
  exact isWordChar_of_mem_tempName (chars ▸ member)

end Haxify.Lower
