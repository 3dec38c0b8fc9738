/-!
# String literals of TypeScript

The value of the text between quotes, with its backslash escapes resolved. An
escape that names no character is kept as it was written.
-/

namespace Haxify.TypeScript

/-- The value of a hexadecimal digit. -/
def hexValue? (char : Char) : Option Nat :=
  if '0' ≤ char ∧ char ≤ '9' then some (char.toNat - '0'.toNat)
  else if 'a' ≤ char ∧ char ≤ 'f' then some (char.toNat - 'a'.toNat + 10)
  else if 'A' ≤ char ∧ char ≤ 'F' then some (char.toNat - 'A'.toNat + 10)
  else none

/-- The value of hexadecimal digits behind the digits read so far. -/
def hexDigits? (value : Nat) : List Char → Option Nat
  | [] => some value
  | char :: rest => (hexValue? char).bind fun digit => hexDigits? (value * 16 + digit) rest

/-- The value of a hexadecimal number, which may have a plus sign. -/
def hexNumber? : List Char → Option Nat
  | [] => none
  | '+' :: [] => none
  | '+' :: digits => hexDigits? 0 digits
  | digits => hexDigits? 0 digits

/-- The character with a code point, unless it is a surrogate or out of range. -/
def charOf? (code : Nat) : Option Char :=
  if code.isValidChar then some (Char.ofNat code) else none

/-- The character that hexadecimal digits name, or the escape as it was written. -/
def namedChar (start : List Char) (digits : List Char) : List Char :=
  match (hexNumber? digits).bind charOf? with
  | some char => [char]
  | none => start ++ digits

/-- The value of an escape and what follows it, from what stands behind the backslash. -/
def escape : List Char → List Char × List Char
  | [] => (['\\'], [])
  | 'n' :: rest => (['\n'], rest)
  | 't' :: rest => (['\t'], rest)
  | 'r' :: rest => (['\r'], rest)
  | 'b' :: rest => (['\x08'], rest)
  | 'f' :: rest => (['\x0c'], rest)
  | 'v' :: rest => (['\x0b'], rest)
  | '0' :: rest =>
    if (rest.head?.map Char.isDigit).getD false then (['0'], rest) else (['\x00'], rest)
  | 'x' :: rest => (namedChar ['\\', 'x'] (rest.take 2), rest.drop 2)
  | 'u' :: '\x7b' :: rest =>
    (namedChar ['\\', 'u'] (rest.takeWhile (· != '\x7d')),
      (rest.dropWhile (· != '\x7d')).drop 1)
  | 'u' :: rest => (namedChar ['\\', 'u'] (rest.take 4), rest.drop 4)
  | '\n' :: rest => ([], rest)
  | '\r' :: '\n' :: rest => ([], rest)
  | '\r' :: rest => ([], rest)
  | char :: rest => ([char], rest)

theorem escape_rest_length (chars : List Char) : (escape chars).2.length ≤ chars.length := by
  have brace (rest : List Char) : (rest.dropWhile (· != '\x7d')).length ≤ rest.length :=
    (List.dropWhile_sublist _).length_le
  fun_cases escape chars
  case case11 rest =>
    have := brace rest
    simp only [List.length_drop, List.length_cons]
    omega
  all_goals
    simp only [List.length_drop, List.length_cons, List.length_nil]
    omega

/-- The characters with their escapes resolved. -/
def decodeChars : List Char → List Char
  | [] => []
  | char :: rest =>
    if char = '\\' then
      (escape rest).1 ++ decodeChars (escape rest).2
    else char :: decodeChars rest
termination_by chars => chars.length
decreasing_by
  · have := escape_rest_length rest
    simp only [List.length_cons]
    omega
  · simp

def decodeEscapes (text : String) : String :=
  String.ofList (decodeChars text.toList)

/-- The characters between a pair of equal quotes; all of them if there is none. -/
def unquote (chars : List Char) : List Char :=
  match chars with
  | first :: second :: rest =>
    if (first == '"' || first == '\'') && (second :: rest).getLast? == some first then
      (second :: rest).dropLast
    else chars
  | _ => chars

def decodeLiteral (text : String) : String :=
  String.ofList (decodeChars (unquote text.toList))

end Haxify.TypeScript
