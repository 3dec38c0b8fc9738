/-!
# Lexemes of JSON with comments

The text is cut into punctuation, words, strings and numbers. Between them there
may be blanks, byte order marks, line comments and closed block comments. A
string is kept as it was written and a number as its characters.
-/

namespace Haxify.Json

open List (length_cons dropWhile_sublist)

inductive Lexeme where
  | openBrace
  | closeBrace
  | openBracket
  | closeBracket
  | colon
  | comma
  | null
  /-- The word `true` or `false`. -/
  | bool (value : Bool)
  /-- The characters between two quotes. -/
  | string (written : List Char)
  | number (written : List Char)
deriving DecidableEq, Repr

/-- The blanks between lexemes. -/
def isSpace (char : Char) : Bool :=
  [' ', '\t', '\r', '\n', '\ufeff'].contains char

def afterBlockComment? : List Char → Option (List Char)
  | [] => none
  | '*' :: '/' :: rest => some rest
  | _ :: rest => afterBlockComment? rest

theorem afterBlockComment?_length {chars rest : List Char}
    (found : afterBlockComment? chars = some rest) : rest.length < chars.length := by
  fun_induction afterBlockComment? chars with
  | case1 => contradiction
  | case2 after =>
    cases found
    simp only [length_cons]
    omega
  | case3 head tail _ step =>
    have := step found
    simp only [length_cons]
    omega

/-- What is left after blanks and comments; a block comment that is not closed stays. -/
def skipTrivia (chars : List Char) : List Char :=
  match chars with
  | [] => []
  | char :: rest =>
    if isSpace char then skipTrivia rest
    else if char = '/' then
      match rest with
      | '/' :: after => skipTrivia (after.dropWhile fun next => next != '\n' && next != '\r')
      | '*' :: after =>
        match _found : afterBlockComment? after with
        | some remaining => skipTrivia remaining
        | none => chars
      | _ => chars
    else chars
termination_by chars.length
decreasing_by
  · simp
  · have := (dropWhile_sublist (l := after) fun next => next != '\n' && next != '\r').length_le
    simp only [length_cons]
    omega
  · have := afterBlockComment?_length _found
    simp only [length_cons]
    omega

theorem skipTrivia_length (chars : List Char) : (skipTrivia chars).length ≤ chars.length := by
  fun_induction skipTrivia chars with
  | case1 | case5 | case6 | case7 => exact Nat.le_refl _
  | case2 char rest _ step =>
    simp only [length_cons]
    omega
  | case3 after _ step =>
    have := (dropWhile_sublist (l := after) fun next => next != '\n' && next != '\r').length_le
    simp only [length_cons]
    omega
  | case4 after remaining found _ step =>
    have := afterBlockComment?_length found
    simp only [length_cons]
    omega

def isHexDigit (char : Char) : Bool :=
  char.isDigit || ('a' ≤ char && char ≤ 'f') || ('A' ≤ char && char ≤ 'F')

/-- The characters that may follow a backslash alone. -/
def isSimpleEscape (char : Char) : Bool :=
  ['"', '\\', '/', 'b', 'f', 'n', 'r', 't'].contains char

/-- The characters up to the closing quote, and what follows it. -/
def readString : List Char → Option (List Char × List Char)
  | [] => none
  | '"' :: rest => some ([], rest)
  | '\\' :: 'u' :: a :: b :: c :: d :: rest =>
    if [a, b, c, d].all isHexDigit then
      (readString rest).map fun (written, after) =>
        ('\\' :: 'u' :: a :: b :: c :: d :: written, after)
    else none
  | '\\' :: char :: rest =>
    if isSimpleEscape char then
      (readString rest).map fun (written, after) => ('\\' :: char :: written, after)
    else none
  | '\\' :: [] => none
  | char :: rest => (readString rest).map fun (written, after) => (char :: written, after)

theorem readString_length {chars written after : List Char}
    (found : readString chars = some (written, after)) : after.length < chars.length := by
  fun_induction readString chars generalizing written with
  | case1 | case4 | case6 | case7 => contradiction
  | case2 rest =>
    cases found
    exact Nat.lt_succ_self _
  | case3 a b c d rest _ step | case5 char rest _ _ step | case8 char rest _ _ _ _ step =>
    obtain ⟨⟨inner, last⟩, read, same⟩ := Option.map_eq_some_iff.1 found
    cases same
    have := step read
    simp only [length_cons]
    omega

/-- An optional minus sign, and what follows. -/
def readSign : List Char → List Char × List Char
  | '-' :: rest => (['-'], rest)
  | chars => ([], chars)

/-- A zero, or digits that do not start with one, and what follows. -/
def readWhole : List Char → Option (List Char × List Char)
  | '0' :: rest => some (['0'], rest)
  | char :: rest =>
    if char.isDigit then some (char :: rest.takeWhile Char.isDigit, rest.dropWhile Char.isDigit)
    else none
  | [] => none

/-- At least one digit behind a mark, and what follows; nothing is taken otherwise. -/
def readMarked (mark chars digits : List Char) : List Char × List Char :=
  if (digits.takeWhile Char.isDigit).isEmpty then ([], chars)
  else (mark ++ digits.takeWhile Char.isDigit, digits.dropWhile Char.isDigit)

/-- An optional fraction, and what follows. -/
def readFraction (chars : List Char) : List Char × List Char :=
  match chars with
  | '.' :: rest => readMarked ['.'] chars rest
  | _ => ([], chars)

/-- An optional exponent, and what follows. -/
def readExponent (chars : List Char) : List Char × List Char :=
  match chars with
  | mark :: rest =>
    if mark = 'e' ∨ mark = 'E' then
      match rest with
      | '+' :: digits => readMarked [mark, '+'] chars digits
      | '-' :: digits => readMarked [mark, '-'] chars digits
      | digits => readMarked [mark] chars digits
    else ([], chars)
  | [] => ([], chars)

/-- The characters of a number, and what follows it. -/
def readNumber (chars : List Char) : Option (List Char × List Char) :=
  (readWhole (readSign chars).2).map fun whole =>
    let fraction := readFraction whole.2
    let exponent := readExponent fraction.2
    ((readSign chars).1 ++ whole.1 ++ fraction.1 ++ exponent.1, exponent.2)

theorem readMarked_length (mark chars digits : List Char) (fits : digits.length ≤ chars.length) :
    (readMarked mark chars digits).2.length ≤ chars.length := by
  unfold readMarked
  have := (dropWhile_sublist (l := digits) Char.isDigit).length_le
  split <;> simp only <;> omega

theorem readFraction_length (chars : List Char) :
    (readFraction chars).2.length ≤ chars.length := by
  unfold readFraction
  split
  · apply readMarked_length
    simp
  · exact Nat.le_refl _

theorem readExponent_length (chars : List Char) :
    (readExponent chars).2.length ≤ chars.length := by
  unfold readExponent
  split
  · split
    · split <;> apply readMarked_length <;> simp only [length_cons] <;> omega
    · exact Nat.le_refl _
  · exact Nat.le_refl _

theorem readSign_length (chars : List Char) : (readSign chars).2.length ≤ chars.length := by
  unfold readSign
  split <;> simp

theorem readWhole_length {chars whole rest : List Char}
    (found : readWhole chars = some (whole, rest)) : rest.length < chars.length := by
  unfold readWhole at found
  split at found
  · cases found
    exact Nat.lt_succ_self _
  · split at found
    · cases found
      exact Nat.lt_succ_of_le (dropWhile_sublist _).length_le
    · contradiction
  · contradiction

theorem readNumber_length {chars written rest : List Char}
    (found : readNumber chars = some (written, rest)) : rest.length < chars.length := by
  obtain ⟨⟨whole, afterWhole⟩, read, same⟩ := Option.map_eq_some_iff.1 found
  cases same
  have := readSign_length chars
  have := readWhole_length read
  have := readFraction_length afterWhole
  have := readExponent_length (readFraction afterWhole).2
  simp only
  omega

/-- The lexeme at the start of a text without leading trivia, and what follows it. -/
def readLexeme : List Char → Option (Lexeme × List Char)
  | '\x7b' :: rest => some (.openBrace, rest)
  | '\x7d' :: rest => some (.closeBrace, rest)
  | '[' :: rest => some (.openBracket, rest)
  | ']' :: rest => some (.closeBracket, rest)
  | ':' :: rest => some (.colon, rest)
  | ',' :: rest => some (.comma, rest)
  | '"' :: rest => (readString rest).map fun (written, after) => (.string written, after)
  | 'n' :: 'u' :: 'l' :: 'l' :: rest => some (.null, rest)
  | 't' :: 'r' :: 'u' :: 'e' :: rest => some (.bool true, rest)
  | 'f' :: 'a' :: 'l' :: 's' :: 'e' :: rest => some (.bool false, rest)
  | chars => (readNumber chars).map fun (written, after) => (.number written, after)

theorem readLexeme_length {chars rest : List Char} {lexeme : Lexeme}
    (found : readLexeme chars = some (lexeme, rest)) : rest.length < chars.length := by
  unfold readLexeme at found
  split at found
  case h_7 =>
    obtain ⟨⟨written, after⟩, read, same⟩ := Option.map_eq_some_iff.1 found
    cases same
    exact Nat.lt_succ_of_lt (readString_length read)
  case h_11 =>
    obtain ⟨⟨written, after⟩, read, same⟩ := Option.map_eq_some_iff.1 found
    cases same
    exact readNumber_length read
  all_goals
    cases found
    simp only [length_cons]
    omega

/-- The lexemes of a text; none if some part of it is no lexeme. -/
def lexemes (chars : List Char) : Option (List Lexeme) :=
  match _start : skipTrivia chars with
  | [] => some []
  | first :: others =>
    match _found : readLexeme (first :: others) with
    | none => none
    | some (lexeme, rest) => (lexemes rest).map (lexeme :: ·)
termination_by chars.length
decreasing_by
  have := readLexeme_length _found
  have := skipTrivia_length chars
  rw [_start] at this
  omega

end Haxify.Json
