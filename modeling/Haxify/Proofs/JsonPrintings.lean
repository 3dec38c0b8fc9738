import Haxify.Json.Reader

/-!
# Printings of JSON values

A value may be printed in many ways. Between lexemes there may be blanks and comments, a
character of a string may be written as it is or by any of its escapes, the members of an object
may come in any order, and a container that is not empty may have a comma behind its last
member. `PrintedDocument` says which texts are printings of a value, whatever way is chosen at
each place. The lemmas of this module say that reading lexemes finds those that were printed.
-/

namespace Haxify.Json

open List

variable {char : Char} {trivia : List Char}

section Printings

/-- The blanks that may stand between lexemes. -/
def blanks : List Char := [' ', '\t', '\r', '\n', '\ufeff']

/-- The characters that end a line. -/
def lineBreaks : List Char := ['\n', '\r']

/-- Blanks and comments that are closed, in any number and order. -/
inductive Trivia : List Char → Prop where
  | none : Trivia []
  | blank {char : Char} {rest : List Char} (space : char ∈ blanks) (more : Trivia rest) :
      Trivia (char :: rest)
  /-- A block comment, which its first end mark closes. -/
  | block {body rest : List Char} (inside : ¬['*', '/'] <:+: body) (more : Trivia rest) :
      Trivia ('/' :: '*' :: (body ++ '*' :: '/' :: rest))
  | line {body rest : List Char} {last : Char} (inside : ∀ char ∈ body, char ∉ lineBreaks)
      (ending : last ∈ lineBreaks) (more : Trivia rest) :
      Trivia ('/' :: '/' :: (body ++ last :: rest))

/-- What may stand at the end of a document, where also the end of the text ends a line. -/
inductive ClosingTrivia : List Char → Prop where
  | closed {trivia : List Char} (skipped : Trivia trivia) : ClosingTrivia trivia
  | line {trivia body : List Char} (skipped : Trivia trivia)
      (inside : ∀ char ∈ body, char ∉ lineBreaks) : ClosingTrivia (trivia ++ '/' :: '/' :: body)

/-- The two ways to write a hexadecimal digit. -/
def hexForms (digit : Nat) : List Char := [digit.digitChar, digit.digitChar.toUpper]

/-- A code unit written by an escape with four hexadecimal digits. -/
inductive WrittenUnit (unit : Nat) : List Char → Prop where
  | digits {a b c d : Char} (first : a ∈ hexForms (unit / 0x1000 % 0x10))
      (second : b ∈ hexForms (unit / 0x100 % 0x10)) (third : c ∈ hexForms (unit / 0x10 % 0x10))
      (fourth : d ∈ hexForms (unit % 0x10)) : WrittenUnit unit ['\\', 'u', a, b, c, d]

/-- The letters of the short escapes with the characters they stand for. -/
def shortEscapes : List (Char × Char) :=
  [('"', '"'), ('\\', '\\'), ('/', '/'), ('b', '\x08'), ('f', '\x0c'), ('n', '\n'), ('r', '\r'),
   ('t', '\t')]

/-- The ways to write one character of a string. -/
inductive WrittenChar : Char → List Char → Prop where
  /-- As it is, unless it is a control character, a quote or a backslash. -/
  | plain {char : Char} (visible : 0x20 ≤ char.toNat) (noQuote : char ≠ '"')
      (noBackslash : char ≠ '\\') : WrittenChar char [char]
  | short {letter char : Char} (listed : (letter, char) ∈ shortEscapes) :
      WrittenChar char ['\\', letter]
  | unit {char : Char} {written : List Char} (single : char.toNat < 0x10000)
      (digits : WrittenUnit char.toNat written) : WrittenChar char written
  /-- By a surrogate pair, if it has two code units. -/
  | pair {char : Char} {first second : List Char} (double : 0x10000 ≤ char.toNat)
      (high : WrittenUnit (0xD800 + (char.toNat - 0x10000) / 0x400) first)
      (low : WrittenUnit (0xDC00 + (char.toNat - 0x10000) % 0x400) second) :
      WrittenChar char (first ++ second)

/-- The ways to write the characters of a string, each in a way of its own. -/
inductive WrittenChars : List Char → List Char → Prop where
  | nil : WrittenChars [] []
  | cons {char : Char} {chars form written : List Char} (first : WrittenChar char form)
      (others : WrittenChars chars written) : WrittenChars (char :: chars) (form ++ written)

mutual

/-- The texts that print a value, without what may stand around it. -/
inductive Printed : Json → List Char → Prop where
  | null : Printed .null ['n', 'u', 'l', 'l']
  | yes : Printed (.bool true) ['t', 'r', 'u', 'e']
  | no : Printed (.bool false) ['f', 'a', 'l', 's', 'e']
  /-- A whole number that fits in sixty-four bits, in decimal digits. -/
  | integer {value : Int} (lower : -9223372036854775808 ≤ value)
      (upper : value ≤ 9223372036854775807) : Printed (.integer value) (toString value).toList
  | string {value : String} {written : List Char} (chars : WrittenChars value.toList written) :
      Printed (.string value) ('"' :: (written ++ ['"']))
  | emptyArray {trivia : List Char} (skipped : Trivia trivia) :
      Printed (.array []) ('[' :: (trivia ++ [']']))
  | array {items : List Json} {body : List Char} (inside : PrintedItems items body) :
      Printed (.array items) ('[' :: (body ++ [']']))
  | emptyObject {trivia : List Char} (skipped : Trivia trivia) :
      Printed (.object []) ('\x7b' :: (trivia ++ ['\x7d']))
  | object {members order : List (String × Json)} {body : List Char}
      (sorted : members.Pairwise fun first second => first.1 < second.1)
      (arranged : order.Perm members) (inside : PrintedMembers order body) :
      Printed (.object members) ('\x7b' :: (body ++ ['\x7d']))

/-- The texts that print the items of an array between its brackets. -/
inductive PrintedItems : List Json → List Char → Prop where
  | last {item : Json} {before text after : List Char} (front : Trivia before)
      (printed : Printed item text) (back : Trivia after) :
      PrintedItems [item] (before ++ (text ++ after))
  | trailing {item : Json} {before text after ending : List Char} (front : Trivia before)
      (printed : Printed item text) (back : Trivia after) (behind : Trivia ending) :
      PrintedItems [item] (before ++ (text ++ (after ++ ',' :: ending)))
  | more {item : Json} {items : List Json} {before text after body : List Char}
      (front : Trivia before) (printed : Printed item text) (back : Trivia after)
      (others : PrintedItems items body) :
      PrintedItems (item :: items) (before ++ (text ++ (after ++ ',' :: body)))

/-- The texts that print a member of an object, without what may stand around it. -/
inductive PrintedMember : String × Json → List Char → Prop where
  | pair {key : String} {value : Json} {written after before text : List Char}
      (label : WrittenChars key.toList written) (back : Trivia after) (front : Trivia before)
      (printed : Printed value text) :
      PrintedMember (key, value) ('"' :: (written ++ '"' :: (after ++ ':' :: (before ++ text))))

/-- The texts that print the members of an object between its braces. -/
inductive PrintedMembers : List (String × Json) → List Char → Prop where
  | last {member : String × Json} {before text after : List Char} (front : Trivia before)
      (printed : PrintedMember member text) (back : Trivia after) :
      PrintedMembers [member] (before ++ (text ++ after))
  | trailing {member : String × Json} {before text after ending : List Char}
      (front : Trivia before) (printed : PrintedMember member text) (back : Trivia after)
      (behind : Trivia ending) :
      PrintedMembers [member] (before ++ (text ++ (after ++ ',' :: ending)))
  | more {member : String × Json} {members : List (String × Json)}
      {before text after body : List Char} (front : Trivia before)
      (printed : PrintedMember member text) (back : Trivia after)
      (others : PrintedMembers members body) :
      PrintedMembers (member :: members) (before ++ (text ++ (after ++ ',' :: body)))

end

/-- A value printed with trivia around it. -/
inductive PrintedDocument (value : Json) : List Char → Prop where
  | whole {before text after : List Char} (front : Trivia before) (printed : Printed value text)
      (back : ClosingTrivia after) : PrintedDocument value (before ++ (text ++ after))

end Printings

section Skipping

variable {body : List Char}

theorem isSpace_iff (char : Char) : isSpace char ↔ char ∈ blanks := contains_iff_mem

theorem afterBlockComment?_append (inside : ¬['*', '/'] <:+: body)
    (rest : List Char) : afterBlockComment? (body ++ '*' :: '/' :: rest) = some rest := by
  induction body with
  | nil => rw [nil_append, afterBlockComment?]
  | cons char body body_ends =>
    have shorter := body_ends fun found => inside (found.trans (suffix_cons char body).isInfix)
    rw [cons_append, afterBlockComment?, shorter]
    -- A star is not followed by a slash: neither inside the body nor at its end.
    rintro after rfl same
    cases body with
    | nil => simp at same
    | cons next others =>
      obtain ⟨rfl, _⟩ := List.cons.inj same
      exact inside ⟨[], others, rfl⟩

theorem dropWhile_line (inside : ∀ char ∈ body, char ∉ lineBreaks) (rest : List Char) :
    ((body ++ rest).dropWhile fun next => next != '\n' && next != '\r') =
      rest.dropWhile fun next => next != '\n' && next != '\r' := by
  apply dropWhile_append_of_pos
  intro char member
  have other := inside char member
  simp only [lineBreaks, mem_cons, not_mem_nil, or_false, not_or] at other
  simp [other]

theorem skipTrivia_blank (space : isSpace char) (rest : List Char) :
    skipTrivia (char :: rest) = skipTrivia rest := by
  rw [skipTrivia.eq_def]
  exact if_pos space

theorem skipTrivia_line (inside : ∀ char ∈ body, char ∉ lineBreaks) (rest : List Char) :
    skipTrivia ('/' :: '/' :: (body ++ rest)) =
      skipTrivia (rest.dropWhile fun next => next != '\n' && next != '\r') := by
  rw [← dropWhile_line inside rest, skipTrivia.eq_def]
  exact (if_neg (by decide)).trans (if_pos rfl)

theorem skipTrivia_block (inside : ¬['*', '/'] <:+: body) (rest : List Char) :
    skipTrivia ('/' :: '*' :: (body ++ '*' :: '/' :: rest)) = skipTrivia rest := by
  have closed := afterBlockComment?_append inside rest
  rw [skipTrivia, if_neg (by decide), if_pos rfl]
  split
  · rename_i remaining found
    rw [closed, Option.some.injEq] at found
    rw [found]
  · rename_i missing
    rw [closed] at missing
    cases missing

theorem skipTrivia_of_start (noBlank : isSpace char = false) (noSlash : char ≠ '/')
    (rest : List Char) : skipTrivia (char :: rest) = char :: rest := by
  rw [skipTrivia.eq_def]
  exact (if_neg (by simp [noBlank])).trans (if_neg noSlash)

theorem skipTrivia_append (skipped : Trivia trivia) (rest : List Char) :
    skipTrivia (trivia ++ rest) = skipTrivia rest := by
  induction skipped with
  | none => rfl
  | blank space _ more =>
    rw [cons_append, skipTrivia_blank ((isSpace_iff _).mpr space), more]
  | block inside _ more =>
    simp only [cons_append, append_assoc, skipTrivia_block inside, more]
  | line inside ending _ more =>
    simp only [cons_append, append_assoc, skipTrivia_line inside]
    simp only [lineBreaks, mem_cons, not_mem_nil, or_false] at ending
    rcases ending with rfl | rfl
    all_goals exact (skipTrivia_blank (by decide) _).trans more

theorem skipTrivia_closing (skipped : ClosingTrivia trivia) : skipTrivia trivia = [] := by
  have nothing : skipTrivia [] = [] := by rw [skipTrivia.eq_def]
  cases skipped with
  | closed skipped =>
    have all := skipTrivia_append skipped []
    rw [append_nil] at all
    rw [all, nothing]
  | @line trivia body skipped inside =>
    have all := skipTrivia_line inside []
    rw [append_nil] at all
    rw [skipTrivia_append skipped, all, dropWhile_nil, nothing]

end Skipping

section Lexemes

variable {trivia : List Char}

theorem lexemes_eq (chars : List Char) :
    lexemes chars =
      match skipTrivia chars with
      | [] => some []
      | first :: others =>
        (readLexeme (first :: others)).bind fun found => (lexemes found.2).map (found.1 :: ·) := by
  rw [lexemes]
  split
  · rename_i start
    rw [start]
  · rename_i first others start
    rw [start]
    dsimp only
    split
    · rename_i missing
      rw [missing, Option.bind_none]
    · rename_i lexeme rest found
      rw [found, Option.bind_some]

theorem lexemes_trivia (skipped : Trivia trivia) (rest : List Char) :
    lexemes (trivia ++ rest) = lexemes rest := by
  rw [lexemes_eq, lexemes_eq rest, skipTrivia_append skipped]

theorem lexemes_closing (skipped : ClosingTrivia trivia) : lexemes trivia = some [] := by
  rw [lexemes_eq, skipTrivia_closing skipped]

theorem lexemes_of_readLexeme {others rest : List Char} {lexeme : Lexeme}
    (noBlank : isSpace char = false) (noSlash : char ≠ '/')
    (found : readLexeme (char :: others) = some (lexeme, rest)) :
    lexemes (char :: others) = (lexemes rest).map (lexeme :: ·) := by
  rw [lexemes_eq, skipTrivia_of_start noBlank noSlash]
  dsimp only
  rw [found, Option.bind_some]

/-- A text that no digit, point or exponent stands at the start of. -/
def EndsNumber (rest : List Char) : Prop :=
  ∀ char ∈ rest.head?, char.isDigit = false ∧ char ≠ '.' ∧ char ≠ 'e' ∧ char ≠ 'E'

theorem endsNumber_cons (rest : List Char)
    (other : char.isDigit = false ∧ char ≠ '.' ∧ char ≠ 'e' ∧ char ≠ 'E') :
    EndsNumber (char :: rest) := by
  intro first member
  obtain rfl : char = first := by simpa using member
  exact other

theorem endsNumber_trivia {rest : List Char} (skipped : Trivia trivia)
    (ends : EndsNumber rest) : EndsNumber (trivia ++ rest) := by
  cases skipped with
  | none => exact ends
  | blank space _ =>
    apply endsNumber_cons
    simp only [blanks, mem_cons, not_mem_nil, or_false] at space
    rcases space with rfl | rfl | rfl | rfl | rfl <;> decide
  | block _ _ | line _ _ _ => exact endsNumber_cons _ (by decide)

theorem endsNumber_closing (skipped : ClosingTrivia trivia) : EndsNumber trivia := by
  cases skipped with
  | closed skipped =>
    rw [← append_nil trivia]
    exact endsNumber_trivia skipped (by simp [EndsNumber])
  | line skipped _ => exact endsNumber_trivia skipped (endsNumber_cons _ (by decide))

end Lexemes

section Numbers

variable {rest : List Char}

theorem takeWhile_digits {digits : List Char} (all : ∀ char ∈ digits, char.isDigit)
    (ends : EndsNumber rest) :
    (digits ++ rest).takeWhile Char.isDigit = digits ∧
      (digits ++ rest).dropWhile Char.isDigit = rest := by
  have none : rest.takeWhile Char.isDigit = [] ∧ rest.dropWhile Char.isDigit = rest := by
    cases rest with
    | nil => exact ⟨rfl, rfl⟩
    | cons char others =>
      have other := (ends char rfl).1
      simp [other]
  rw [takeWhile_append_of_pos all, dropWhile_append_of_pos all, none.1, none.2]
  simp

theorem readExponent_readFraction (ends : EndsNumber rest) :
    readFraction rest = ([], rest) ∧ readExponent rest = ([], rest) := by
  cases rest with
  | nil => exact ⟨rfl, rfl⟩
  | cons char others =>
    obtain ⟨_, noPoint, noSmall, noCapital⟩ := ends char rfl
    constructor
    · simp [readFraction, noPoint]
    · simp [readExponent, noSmall, noCapital]

theorem head?_toDigits_ne {number : Nat} (positive : 0 < number) :
    (Nat.toDigits 10 number).head? ≠ some '0' := by
  induction number using Nat.strongRecOn with
  | ind number smaller =>
    by_cases short : number < 10
    · rw [Nat.toDigits_of_lt_base short]
      have single : ∀ digit < 10, 0 < digit → [digit.digitChar].head? ≠ some '0' := by decide
      exact single number short positive
    · have fewer := smaller (number / 10) (by omega) (by omega)
      obtain ⟨first, others, digits⟩ :=
        exists_cons_of_ne_nil (Nat.toDigits_ne_nil (n := number / 10) (b := 10))
      rw [Nat.toDigits_of_base_le (by decide) (by omega), digits]
      rw [digits] at fewer
      exact fewer

theorem readWhole_toDigits (number : Nat) (ends : EndsNumber rest) :
    readWhole (Nat.toDigits 10 number ++ rest) = some (Nat.toDigits 10 number, rest) := by
  have all : ∀ char ∈ Nat.toDigits 10 number, char.isDigit := fun char member =>
    Nat.isDigit_of_mem_toDigits (by decide) (by decide) member
  by_cases zero : number = 0
  · rw [zero, Nat.toDigits_zero]
    rfl
  · have start := head?_toDigits_ne (Nat.pos_of_ne_zero zero)
    cases digits : Nat.toDigits 10 number with
    | nil => exact absurd digits Nat.toDigits_ne_nil
    | cons first others =>
      rw [digits] at all start
      have taken := takeWhile_digits (fun char member => all char (.tail _ member)) ends
      rw [cons_append, readWhole, if_pos (all first (.head _)), taken.1, taken.2]
      rintro rfl
      exact start rfl

theorem readSign_toDigits (number : Nat) (rest : List Char) :
    readSign (Nat.toDigits 10 number ++ rest) = ([], Nat.toDigits 10 number ++ rest) := by
  cases digits : Nat.toDigits 10 number with
  | nil => exact absurd digits Nat.toDigits_ne_nil
  | cons first others =>
    have digit : first.isDigit :=
      Nat.isDigit_of_mem_toDigits (by decide) (by decide) (digits ▸ mem_cons_self)
    rw [cons_append, readSign]
    intro after same
    rw [(List.cons.inj same).1] at digit
    cases digit

theorem toList_toString (value : Int) :
    (toString value).toList = (if value < 0 then ['-'] else []) ++
      Nat.toDigits 10 value.natAbs := by
  cases value with
  | ofNat number =>
    rw [if_neg (by simp), nil_append]
    exact Nat.toList_repr
  | negSucc number =>
    rw [if_pos (Int.negSucc_lt_zero number), Int.toString_eq_repr]
    exact (String.toList_append ..).trans (congrArg (['-'] ++ ·) Nat.toList_repr)

theorem readNumber_toString (value : Int) (ends : EndsNumber rest) :
    readNumber ((toString value).toList ++ rest) = some ((toString value).toList, rest) := by
  have sign : readSign ((toString value).toList ++ rest) =
      (if value < 0 then ['-'] else [], Nat.toDigits 10 value.natAbs ++ rest) := by
    rw [toList_toString]
    split
    · rfl
    · exact readSign_toDigits _ _
  have stops := readExponent_readFraction ends
  rw [readNumber, sign, readWhole_toDigits _ ends, Option.map_some]
  simp only [stops.1, stops.2, append_nil, ← toList_toString]

/-- Whether a number may start with a character. -/
def isNumeral (char : Char) : Bool := char == '-' || char.isDigit

theorem ne_of_isNumeral {first other : Char} (numeral : isNumeral first)
    (outside : isNumeral other = false) : first ≠ other := by
  rintro rfl
  rw [numeral] at outside
  cases outside

theorem readLexeme_number {first : Char} {others : List Char} (numeral : isNumeral first) :
    readLexeme (first :: others) =
      (readNumber (first :: others)).map fun found => (.number found.1, found.2) := by
  rw [readLexeme]
  all_goals exact fun rest same => ne_of_isNumeral numeral (by decide) (List.cons.inj same).1

theorem exists_toList_toString (value : Int) :
    ∃ first others, (toString value).toList = first :: others ∧ isNumeral first := by
  rw [toList_toString]
  split
  · exact ⟨'-', _, rfl, by decide⟩
  obtain ⟨first, others, digits⟩ :=
    exists_cons_of_ne_nil (Nat.toDigits_ne_nil (n := value.natAbs) (b := 10))
  have digit : first.isDigit :=
    Nat.isDigit_of_mem_toDigits (by decide) (by decide) (digits ▸ mem_cons_self)
  exact ⟨first, others, digits, by rw [isNumeral, digit, Bool.or_true]⟩

theorem lexemes_integer (value : Int) (ends : EndsNumber rest) :
    lexemes ((toString value).toList ++ rest) =
      (lexemes rest).map (.number (toString value).toList :: ·) := by
  have read := readNumber_toString value ends
  obtain ⟨first, others, chars, numeral⟩ := exists_toList_toString value
  have noBlank : isSpace first = false := by
    have spaces : blanks.all fun space => !isNumeral space := by decide
    refine (Bool.not_eq_true _).mp fun blank => ?_
    have other := all_eq_true.mp spaces first ((isSpace_iff first).mp blank)
    rw [numeral] at other
    cases other
  rw [chars, cons_append] at read ⊢
  refine lexemes_of_readLexeme noBlank (ne_of_isNumeral numeral (by decide)) ?_
  rw [readLexeme_number numeral, read, Option.map_some]

end Numbers

end Haxify.Json
