import Mathlib.Data.List.Basic
import Haxify.Proofs.JsonReading

/-!
# The value of string literals

The body of a string literal is a row of elements, each a character that stands for itself or an
escape. Every element stands for code units of UTF-16, and the value of a body is the text with
the code units of its elements. Resolving escapes computes that value unless one of two kinds of
element is in the way: an escape for a surrogate, which is left as it was written also where the
two halves of a pair follow each other, and a line continued over a line or paragraph separator,
which stays in the text.
-/

namespace Haxify.TypeScript

open List

section Elements

/-- A hexadecimal digit in one of its two cases. -/
structure HexDigit where
  value : Fin 16
  char : Char
  spells : char ∈ Json.hexForms value

/-- The number that hexadecimal digits write. -/
def hexTotal (digits : List HexDigit) : Nat :=
  digits.foldl (fun total digit => total * 16 + digit.value.val) 0

/-- The letters of the escapes with one letter, and the characters they stand for. -/
def letterEscapes : List (Char × Char) :=
  [('\'', '\''), ('"', '"'), ('\\', '\\'), ('b', '\x08'), ('f', '\x0c'), ('n', '\n'), ('r', '\r'),
   ('t', '\t'), ('v', '\x0b')]

inductive LineEnd where
  | lineFeed
  | carriageReturn
  /-- A carriage return with its line feed. -/
  | both
  | lineSeparator
  | paragraphSeparator
deriving DecidableEq

def LineEnd.chars : LineEnd → List Char
  | .lineFeed => ['\n']
  | .carriageReturn => ['\r']
  | .both => ['\r', '\n']
  | .lineSeparator => ['\u2028']
  | .paragraphSeparator => ['\u2029']

/-- Whether a character has no meaning of its own behind a backslash. -/
def isOrdinary (char : Char) : Bool :=
  !(letterEscapes.map Prod.fst).contains char && !char.isDigit &&
    !(['x', 'u', '\n', '\r', '\u2028', '\u2029'].contains char)

/-- One element of the body of a literal. -/
inductive Element where
  /-- A character as it is. -/
  | plain (char : Char) (allowed : char ∉ ['\\', '\n', '\r'])
  | letter (sign value : Char) (listed : (sign, value) ∈ letterEscapes)
  /-- A backslash with a zero. -/
  | null
  | byte (first second : HexDigit)
  | unit (first second third fourth : HexDigit)
  /-- The escape with `u` and digits between braces. -/
  | codePoint (digits : List HexDigit) (some : digits ≠ []) (inRange : hexTotal digits ≤ 0x10FFFF)
  | continuation (ending : LineEnd)
  /-- A backslash in front of any other character. -/
  | itself (char : Char) (ordinary : isOrdinary char)

def codeUnits (code : Nat) : List Nat :=
  if code < 0x10000 then [code]
  else [0xD800 + (code - 0x10000) / 0x400, 0xDC00 + (code - 0x10000) % 0x400]

/-- The code units of characters. -/
def utf16 (chars : List Char) : List Nat := chars.flatMap fun char => codeUnits char.toNat

namespace Element

/-- How an element is written. -/
def spelled : Element → List Char
  | plain char _ => [char]
  | letter sign _ _ => ['\\', sign]
  | null => ['\\', '0']
  | byte first second => ['\\', 'x', first.char, second.char]
  | unit first second third fourth =>
    ['\\', 'u', first.char, second.char, third.char, fourth.char]
  | codePoint digits _ _ => '\\' :: 'u' :: '\x7b' :: (digits.map HexDigit.char ++ ['\x7d'])
  | continuation ending => '\\' :: ending.chars
  | itself char _ => ['\\', char]

/-- The code units that an element stands for. -/
def units : Element → List Nat
  | plain char _ | itself char _ | letter _ char _ => codeUnits char.toNat
  | null => [0]
  | byte first second => [hexTotal [first, second]]
  | unit first second third fourth => [hexTotal [first, second, third, fourth]]
  | codePoint digits _ _ => codeUnits (hexTotal digits)
  | continuation _ => []

/-- Whether a code unit is one half of a pair. -/
def isSurrogate (unit : Nat) : Bool := Json.isHighSurrogate unit || Json.isLowSurrogate unit

/-- Whether an element is none of those that are not resolved: an escape for a surrogate, and a
line continued over one of the two separators. -/
def isResolved : Element → Bool
  | unit first second third fourth => !isSurrogate (hexTotal [first, second, third, fourth])
  | codePoint digits _ _ => !isSurrogate (hexTotal digits)
  | continuation ending => !(['\u2028', '\u2029'].any ending.chars.contains)
  | _ => true

/-- What resolving escapes makes of an element. -/
def decoded : Element → List Char
  | plain char _ | itself char _ | letter _ char _ => [char]
  | null => ['\x00']
  | byte first second => namedChar ['\\', 'x'] [first.char, second.char]
  | unit first second third fourth =>
    namedChar ['\\', 'u'] [first.char, second.char, third.char, fourth.char]
  | codePoint digits _ _ => namedChar ['\\', 'u'] (digits.map HexDigit.char)
  | continuation .lineSeparator => ['\u2028']
  | continuation .paragraphSeparator => ['\u2029']
  | continuation _ => []

def isNull : Element → Bool
  | null => true
  | _ => false

end Element

/-- Whether no digit follows a backslash with a zero. -/
def areSeparate : List Element → Bool
  | [] => true
  | element :: rest =>
    !(element.isNull && (rest.flatMap Element.spelled).head?.any Char.isDigit) && areSeparate rest

/-- The body of a literal. A backslash with digits behind a zero is no escape of it. -/
structure LiteralBody where
  elements : List Element
  separate : areSeparate elements

def LiteralBody.spelled (body : LiteralBody) : String :=
  String.ofList (body.elements.flatMap Element.spelled)

def LiteralBody.units (body : LiteralBody) : List Nat := body.elements.flatMap Element.units

end Elements

variable {char : Char} {digits : List HexDigit} {rest : List Char} {elements : List Element}
  {element : Element}

section Digits

theorem HexDigit.hexValue?_char (digit : HexDigit) :
    hexValue? digit.char = some digit.value.val := by
  have form : digit.char ∈ Json.hexForms (digit.value.val % 0x10) := by
    rw [Nat.mod_eq_of_lt digit.value.isLt]
    exact digit.spells
  rw [(Json.hexValue?_of_mem form).2, Nat.mod_eq_of_lt digit.value.isLt]

theorem HexDigit.char_ne {digit : HexDigit} (other : hexValue? char = none) :
    digit.char ≠ char := by
  intro same
  rw [← same, digit.hexValue?_char] at other
  cases other

theorem hexDigits?_map (total : Nat) (digits : List HexDigit) :
    hexDigits? total (digits.map HexDigit.char) =
      some (digits.foldl (fun total digit => total * 16 + digit.value.val) total) := by
  induction digits generalizing total with
  | nil => rfl
  | cons digit rest rest_read =>
    rw [map_cons, hexDigits?, digit.hexValue?_char, Option.bind_some, rest_read, foldl_cons]

theorem hexNumber?_map (some : digits ≠ []) :
    hexNumber? (digits.map HexDigit.char) = .some (hexTotal digits) := by
  obtain ⟨digit, rest, rfl⟩ := exists_cons_of_ne_nil some
  have unsigned : digit.char ≠ '+' := HexDigit.char_ne (by decide)
  have plain : hexNumber? ((digit :: rest).map HexDigit.char) =
      hexDigits? 0 ((digit :: rest).map HexDigit.char) := by
    rw [map_cons]
    unfold hexNumber?
    split <;> simp_all
  rw [plain, hexDigits?_map, hexTotal]

theorem isValidChar_iff {code : Nat} (inRange : code ≤ 0x10FFFF) :
    code.isValidChar ↔ Element.isSurrogate code = false := by
  simp only [Nat.isValidChar, Element.isSurrogate, Json.isHighSurrogate, Json.isLowSurrogate,
    Bool.or_eq_false_iff, Bool.and_eq_false_iff, decide_eq_false_iff_not]
  omega

theorem namedChar_map (start : List Char) (some : digits ≠ [])
    (inRange : hexTotal digits ≤ 0x10FFFF) :
    namedChar start (digits.map HexDigit.char) =
      if Element.isSurrogate (hexTotal digits) then start ++ digits.map HexDigit.char
      else [Char.ofNat (hexTotal digits)] := by
  rw [namedChar, hexNumber?_map some, Option.bind_some, charOf?]
  cases half : Element.isSurrogate (hexTotal digits)
  · rw [if_pos ((isValidChar_iff inRange).mpr half)]
    rfl
  · have invalid : ¬(hexTotal digits).isValidChar := by
      rw [isValidChar_iff inRange, half]
      decide
    rw [if_neg invalid]
    rfl

theorem hexTotal_four_lt (first second third fourth : HexDigit) :
    hexTotal [first, second, third, fourth] < 0x10000 := by
  have := first.value.isLt
  have := second.value.isLt
  have := third.value.isLt
  have := fourth.value.isLt
  simp only [hexTotal, foldl_cons, foldl_nil]
  omega

theorem hexTotal_two_lt (first second : HexDigit) : hexTotal [first, second] < 0x100 := by
  have := first.value.isLt
  have := second.value.isLt
  simp only [hexTotal, foldl_cons, foldl_nil]
  omega

end Digits

section Units

theorem countP_codeUnits (char : Char) :
    (codeUnits char.toNat).countP (fun unit => !Json.isLowSurrogate unit) = 1 := by
  have valid : char.toNat.isValidChar := char.valid
  rw [codeUnits]
  split
  · have whole : Json.isLowSurrogate char.toNat = false := by
      simp only [Nat.isValidChar] at valid
      simp only [Json.isLowSurrogate, Bool.and_eq_false_iff, decide_eq_false_iff_not]
      omega
    simp [whole]
  · have bound : char.toNat < 0x110000 := by
      simp only [Nat.isValidChar] at valid
      omega
    have high : Json.isLowSurrogate (0xD800 + (char.toNat - 0x10000) / 0x400) = false := by
      simp only [Json.isLowSurrogate, Bool.and_eq_false_iff, decide_eq_false_iff_not]
      omega
    have low : Json.isLowSurrogate (0xDC00 + (char.toNat - 0x10000) % 0x400) = true := by
      simp only [Json.isLowSurrogate, Bool.and_eq_true, decide_eq_true_eq]
      omega
    simp [high, low]

theorem countP_utf16 (chars : List Char) :
    (utf16 chars).countP (fun unit => !Json.isLowSurrogate unit) = chars.length := by
  induction chars with
  | nil => rfl
  | cons char rest rest_count =>
    rw [utf16, flatMap_cons, countP_append, countP_codeUnits, ← utf16, rest_count,
      length_cons, Nat.add_comm]

theorem codeUnits_append_inj {first second : Char} {rest others : List Nat}
    (same : codeUnits first.toNat ++ rest = codeUnits second.toNat ++ others) :
    first = second ∧ rest = others := by
  have firstValid : first.toNat.isValidChar := first.valid
  have secondValid : second.toNat.isValidChar := second.valid
  simp only [Nat.isValidChar] at firstValid secondValid
  suffices equal : first.toNat = second.toNat by
    rw [equal, append_cancel_left_eq] at same
    exact ⟨Char.toNat_inj.mp equal, same⟩
  simp only [codeUnits] at same
  split at same <;> split at same <;>
    simp only [cons_append, nil_append, List.cons.injEq] at same <;> omega

theorem utf16_injective : Function.Injective utf16 := by
  intro first
  induction first with
  | nil =>
    intro second same
    have lengths := countP_utf16 second
    rw [← same] at lengths
    exact (eq_nil_of_length_eq_zero lengths.symm).symm
  | cons char rest rest_inj =>
    intro second same
    cases second with
    | nil =>
      have lengths := countP_utf16 (char :: rest)
      rw [same] at lengths
      cases lengths
    | cons other others =>
      obtain ⟨equal, behind⟩ := codeUnits_append_inj same
      rw [equal, rest_inj behind]

end Units

section Decoding

theorem decodeChars_escape {behind value : List Char}
    (read : escape (behind ++ rest) = (value, rest)) :
    decodeChars ('\\' :: behind ++ rest) = value ++ decodeChars rest := by
  rw [cons_append, decodeChars, if_pos rfl, read]

theorem escape_ordinary (ordinary : isOrdinary char) (rest : List Char) :
    escape (char :: rest) = ([char], rest) := by
  unfold escape
  split <;> simp_all [isOrdinary, letterEscapes]

theorem escape_unit {first : Char} (noBrace : first ≠ '\x7b') (rest : List Char) :
    escape ('u' :: first :: rest) =
      (namedChar ['\\', 'u'] ((first :: rest).take 4), (first :: rest).drop 4) := by
  rw [escape]
  intro behind same
  exact noBrace (head_eq_of_cons_eq same)

theorem escape_letter {sign value : Char} (listed : (sign, value) ∈ letterEscapes)
    (rest : List Char) : escape (sign :: rest) = ([value], rest) := by
  simp only [letterEscapes, mem_cons, Prod.mk.injEq, not_mem_nil, or_false] at listed
  rcases listed with ⟨rfl, rfl⟩ | ⟨rfl, rfl⟩ | ⟨rfl, rfl⟩ | ⟨rfl, rfl⟩ | ⟨rfl, rfl⟩ | ⟨rfl, rfl⟩ |
    ⟨rfl, rfl⟩ | ⟨rfl, rfl⟩ | ⟨rfl, rfl⟩ <;> rfl

theorem escape_codePoint (digits : List HexDigit) (rest : List Char) :
    escape ('u' :: '\x7b' :: (digits.map HexDigit.char ++ '\x7d' :: rest)) =
      (namedChar ['\\', 'u'] (digits.map HexDigit.char), rest) := by
  have inside : ∀ char ∈ digits.map HexDigit.char, (char != '\x7d') = true := by
    intro char member
    obtain ⟨digit, -, rfl⟩ := mem_map.mp member
    exact bne_iff_ne.mpr (HexDigit.char_ne (by decide))
  rw [escape, takeWhile_append_of_pos inside, dropWhile_append_of_pos inside]
  simp

theorem escape_lineEnd (ending : LineEnd) (noFeed : rest.head? ≠ some '\n') :
    escape (ending.chars ++ rest) = ((Element.continuation ending).decoded, rest) := by
  cases ending with
  | carriageReturn =>
    rw [LineEnd.chars, singleton_append, escape]
    · rfl
    · rintro behind rfl
      exact noFeed rfl
  | lineFeed | both | lineSeparator | paragraphSeparator => rfl

/-- Resolving escapes takes a body apart element by element. What follows may not be read as part
of an element: no digit behind a zero, no line feed behind the end of a line. -/
theorem decodeChars_element (element : Element)
    (noDigit : element.isNull → rest.head?.any Char.isDigit = false)
    (noFeed : rest.head? ≠ some '\n') :
    decodeChars (element.spelled ++ rest) = element.decoded ++ decodeChars rest := by
  cases element with
  | plain char allowed =>
    have noEscape : char ≠ '\\' := fun same => allowed (same ▸ mem_cons_self)
    rw [Element.spelled, singleton_append, decodeChars, if_neg noEscape]
    rfl
  | letter sign value listed => exact decodeChars_escape (escape_letter listed rest)
  | null =>
    have noOctal : (rest.head?.map Char.isDigit).getD false = false := by
      cases rest with
      | nil => rfl
      | cons char behind => exact noDigit rfl
    have read : escape ('0' :: rest) = (['\x00'], rest) := by
      unfold escape
      exact if_neg (Bool.eq_false_iff.mp noOctal)
    exact decodeChars_escape read
  | byte first second =>
    exact decodeChars_escape (show escape (['x', first.char, second.char] ++ rest) = _ from rfl)
  | unit first second third fourth =>
    exact decodeChars_escape (escape_unit (HexDigit.char_ne (by decide)) _)
  | codePoint digits some inRange =>
    refine decodeChars_escape (Eq.trans ?_ (escape_codePoint digits rest))
    rw [cons_append, cons_append, append_assoc, singleton_append]
  | continuation ending => exact decodeChars_escape (escape_lineEnd ending noFeed)
  | itself char ordinary => exact decodeChars_escape (escape_ordinary ordinary rest)

theorem head?_spelled_ne (elements : List Element) :
    (elements.flatMap Element.spelled).head? ≠ some '\n' := by
  cases elements with
  | nil => simp
  | cons element rest =>
    rw [flatMap_cons]
    cases element with
    | plain char allowed =>
      intro same
      cases same
      exact allowed (by decide)
    | _ => simp [Element.spelled]

theorem decodeChars_spelled (separate : areSeparate elements) :
    decodeChars (elements.flatMap Element.spelled) = elements.flatMap Element.decoded := by
  induction elements with
  | nil =>
    change decodeChars [] = []
    rw [decodeChars]
  | cons element rest rest_decoded =>
    rw [areSeparate, Bool.and_eq_true, Bool.not_eq_true', Bool.and_eq_false_imp] at separate
    rw [flatMap_cons, decodeChars_element element separate.1 (head?_spelled_ne rest),
      rest_decoded separate.2, flatMap_cons]

theorem decodeEscapes_spelled (body : LiteralBody) :
    decodeEscapes body.spelled = String.ofList (body.elements.flatMap Element.decoded) := by
  rw [decodeEscapes, LiteralBody.spelled, String.toList_ofList, decodeChars_spelled body.separate]

end Decoding

section Values

theorem utf16_singleton (char : Char) : utf16 [char] = codeUnits char.toNat := flatMap_singleton _ _

theorem utf16_namedChar (start : List Char) (some : digits ≠ [])
    (inRange : hexTotal digits ≤ 0x10FFFF) (whole : Element.isSurrogate (hexTotal digits) = false) :
    utf16 (namedChar start (digits.map HexDigit.char)) = codeUnits (hexTotal digits) := by
  have number : (Char.ofNat (hexTotal digits)).toNat = hexTotal digits := by
    rw [Char.ofNat, dif_pos ((isValidChar_iff inRange).mpr whole)]
    rfl
  rw [namedChar_map start some inRange, whole, if_neg Bool.false_ne_true, utf16_singleton, number]

theorem utf16_decoded (resolved : element.isResolved) : utf16 element.decoded = element.units := by
  cases element with
  | plain char _ | letter _ char _ | itself char _ => exact utf16_singleton char
  | null => rfl
  | byte first second =>
    have small := hexTotal_two_lt first second
    have whole : Element.isSurrogate (hexTotal [first, second]) = false :=
      (isValidChar_iff (by omega)).mp (.inl (by omega))
    exact (utf16_namedChar _ (cons_ne_nil _ _) (by omega) whole).trans (if_pos (by omega))
  | unit first second third fourth =>
    have small := hexTotal_four_lt first second third fourth
    exact (utf16_namedChar _ (cons_ne_nil _ _) (by omega)
      ((Bool.not_eq_true' _).mp resolved)).trans (if_pos small)
  | codePoint digits some inRange =>
    exact utf16_namedChar _ some inRange ((Bool.not_eq_true' _).mp resolved)
  | continuation ending =>
    cases ending with
    | lineFeed | carriageReturn | both => rfl
    | lineSeparator | paragraphSeparator => exact absurd resolved (by decide)

theorem length_namedChar (start : List Char) (some : digits ≠ [])
    (inRange : hexTotal digits ≤ 0x10FFFF) (half : Element.isSurrogate (hexTotal digits)) :
    (namedChar start (digits.map HexDigit.char)).length = start.length + digits.length := by
  rw [namedChar_map start some inRange, if_pos half, length_append, length_map]

theorem length_codeUnits_le (code : Nat) : (codeUnits code).length ≤ 2 := by
  rw [codeUnits]
  split <;> simp

theorem countP_units_lt (kept : element.isResolved = false) :
    element.units.countP (fun unit => !Json.isLowSurrogate unit) < element.decoded.length := by
  refine Nat.lt_of_le_of_lt countP_le_length ?_
  cases element with
  | plain | letter | itself | null | byte => cases kept
  | unit first second third fourth =>
    have small := hexTotal_four_lt first second third fourth
    have text := length_namedChar ['\\', 'u'] (cons_ne_nil first [second, third, fourth])
      (by omega) ((Bool.not_eq_false' _).mp kept)
    exact text ▸ (by decide : 1 < 6)
  | codePoint digits some inRange =>
    have text := length_namedChar ['\\', 'u'] some inRange ((Bool.not_eq_false' _).mp kept)
    have := length_codeUnits_le (hexTotal digits)
    have := length_pos_iff.mpr some
    simp only [Element.units, Element.decoded, text, length_cons, length_nil]
    omega
  | continuation ending =>
    cases ending with
    | lineFeed | carriageReturn | both => cases kept
    | lineSeparator | paragraphSeparator => decide

theorem countP_units_le (elements : List Element) :
    (elements.flatMap Element.units).countP (fun unit => !Json.isLowSurrogate unit) +
        elements.countP (fun element => !element.isResolved) ≤
      (elements.flatMap Element.decoded).length := by
  induction elements with
  | nil => exact Nat.le_refl 0
  | cons element rest rest_le =>
    rw [flatMap_cons, flatMap_cons, countP_append, length_append, countP_cons]
    cases resolved : element.isResolved with
    | true =>
      have exact_count := countP_utf16 element.decoded
      rw [utf16_decoded resolved] at exact_count
      simp only [Bool.not_true, Bool.false_eq_true, if_false]
      omega
    | false =>
      have := countP_units_lt resolved
      simp only [Bool.not_false, if_true]
      omega

theorem utf16_flatMap_decoded (resolved : ∀ element ∈ elements, element.isResolved) :
    utf16 (elements.flatMap Element.decoded) = elements.flatMap Element.units := by
  rw [utf16, flatMap_assoc]
  exact flatMap_congr fun element member => utf16_decoded (resolved element member)

namespace Sample

def digit (value : Fin 16) : HexDigit := ⟨value, value.val.digitChar, .head _⟩

def everyKind : LiteralBody where
  elements := [.plain '"' (by decide), .letter 'n' '\n' (by decide), .continuation .both,
    .byte (digit 4) (digit 1), .unit (digit 0) (digit 0) (digit 14) (digit 9),
    .codePoint [digit 0, digit 1, digit 15, digit 6, digit 0, digit 0] (by decide) (by decide),
    .itself 'q' (by decide), .null]
  separate := by decide

def pair : LiteralBody where
  elements := [.unit (digit 13) (digit 8) (digit 3) (digit 13),
    .unit (digit 13) (digit 14) (digit 0) (digit 0)]
  separate := by decide

def continued : LiteralBody where
  elements := [.plain 'a' (by decide), .continuation .lineSeparator, .plain 'b' (by decide)]
  separate := by decide

end Sample

open Sample

/-- Resolving the escapes of a body computes its value, if that is a text, exactly if every
element is one that is resolved. -/
theorem decodeEscapes_eq_value_iff (body : LiteralBody) (text : String)
    (value : body.units = utf16 text.toList) :
    decodeEscapes body.spelled = text ↔ ∀ element ∈ body.elements, element.isResolved := by
  rw [decodeEscapes_spelled]
  constructor
  · rintro rfl
    have count := countP_units_le body.elements
    rw [← LiteralBody.units, value, countP_utf16, String.toList_ofList] at count
    have none : body.elements.countP (fun element => !element.isResolved) = 0 := by omega
    intro element member
    simpa using countP_eq_zero.mp none element member
  · intro resolved
    have same : utf16 (body.elements.flatMap Element.decoded) = utf16 text.toList :=
      (utf16_flatMap_decoded resolved).trans value
    rw [utf16_injective same, String.ofList_toList]

theorem every_kind_is_resolved :
    everyKind.units = utf16 "\"\nAé😀q\x00".toList ∧
      decodeEscapes everyKind.spelled = "\"\nAé😀q\x00" :=
  ⟨by decide, (decodeEscapes_eq_value_iff _ _ (by decide)).mpr (by decide)⟩

/-- The escapes of a pair stay as they were written, and so does a separator behind a backslash,
although both bodies have texts as their values. -/
theorem pairs_and_separators_are_kept :
    (pair.units = utf16 "😀".toList ∧ decodeEscapes pair.spelled = "\\ud83d\\ude00") ∧
    (continued.units = utf16 "ab".toList ∧ decodeEscapes continued.spelled = "a\u2028b") := by
  rw [decodeEscapes_spelled, decodeEscapes_spelled]
  decide

end Values

end Haxify.TypeScript
