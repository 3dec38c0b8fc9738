import Haxify.Json.Document
import Haxify.Json.Value
import Haxify.TypeScript.Literal

/-!
# Reading JSON with comments

Strings are unescaped and numbers get their values once the whole text is known
to be a document, in document order. The first string or number without a value
is reported.
-/

namespace Haxify.Json

/-- Why a text has no value. -/
inductive ReadError where
  /-- The text is no document. -/
  | malformed
  /-- A number is too large. -/
  | badNumber (written : String)
  /-- A string has a raw control character or an unpaired surrogate. -/
  | badString
deriving DecidableEq, Repr

def ReadError.message : ReadError → String
  | .malformed => "malformed document"
  | .badNumber written => "invalid number " ++ written
  | .badString => "invalid string"

/-- The number that four hexadecimal digits spell. -/
def codeUnit (digits : List Char) : Nat :=
  (TypeScript.hexDigits? 0 digits).getD 0

/-- Whether a code unit is the first half of a pair. -/
def isHighSurrogate (unit : Nat) : Bool := 0xD800 ≤ unit && unit ≤ 0xDBFF

/-- Whether a code unit is the second half of a pair. -/
def isLowSurrogate (unit : Nat) : Bool := 0xDC00 ≤ unit && unit ≤ 0xDFFF

/-- The character of a surrogate pair. -/
def pairedChar (high low : Nat) : Char :=
  Char.ofNat (0x10000 + (high - 0xD800) * 0x400 + (low - 0xDC00))

/-- The character of an escape with one letter. -/
def simpleEscape (char : Char) : Char :=
  match char with
  | 'b' => '\x08'
  | 'f' => '\x0c'
  | 'n' => '\n'
  | 'r' => '\r'
  | 't' => '\t'
  | other => other

/-- The characters of a string as it was written. -/
def unescape : List Char → Option (List Char)
  | [] => some []
  | '\\' :: 'u' :: a :: b :: c :: d :: '\\' :: 'u' :: e :: f :: g :: h :: rest =>
    let unit := codeUnit [a, b, c, d]
    let next := codeUnit [e, f, g, h]
    if isHighSurrogate unit then
      if isLowSurrogate next then (unescape rest).map (pairedChar unit next :: ·) else none
    else if isLowSurrogate unit then none
    else (unescape ('\\' :: 'u' :: e :: f :: g :: h :: rest)).map (Char.ofNat unit :: ·)
  | '\\' :: 'u' :: a :: b :: c :: d :: rest =>
    let unit := codeUnit [a, b, c, d]
    if isHighSurrogate unit || isLowSurrogate unit then none
    else (unescape rest).map (Char.ofNat unit :: ·)
  | '\\' :: char :: rest => (unescape rest).map (simpleEscape char :: ·)
  | char :: rest => if char.toNat < 0x20 then none else (unescape rest).map (char :: ·)

def stringValue (written : List Char) : Except ReadError String :=
  match unescape written with
  | some chars => .ok (String.ofList chars)
  | none => .error .badString

/-- The whole number that the characters spell, if it fits in sixty-four bits with a sign. -/
def integerValue? (written : List Char) : Option Int :=
  let (sign, digits) := readSign written
  if digits.all Char.isDigit then
    let magnitude : Int := Number.ofDigits digits
    let value := if sign.isEmpty then magnitude else -magnitude
    if -Int.pow 2 63 ≤ value ∧ value < Int.pow 2 63 then some value else none
  else none

/-- The number that was written: a whole number that fits, or else a double. -/
def numberValue (written : List Char) : Except ReadError Json :=
  match integerValue? written with
  | some value => .ok (.integer value)
  | none =>
    match (Number.Decimal.read? (String.ofList written)).map Number.Decimal.toBinary64 with
    | some (.finite negative mantissa exponent) => .ok (.float (.finite negative mantissa exponent))
    | _ => .error (.badNumber (String.ofList written))

mutual

/-- The value of a document. -/
def Written.value : Written → Except ReadError Json
  | .null => .ok .null
  | .bool value => .ok (.bool value)
  | .number written => numberValue written
  | .string written => (stringValue written).map Json.string
  | .array items => (Written.values items).map Json.array
  | .object members => (Written.members members).map Json.ofMembers

/-- The values of array items, in order. -/
def Written.values : List Written → Except ReadError (List Json)
  | [] => .ok []
  | item :: rest => do
    let value ← item.value
    let others ← Written.values rest
    return value :: others

/-- The keys and values of object members, in order. -/
def Written.members : List (List Char × Written) → Except ReadError (List (String × Json))
  | [] => .ok []
  | (key, item) :: rest => do
    let key ← stringValue key
    let value ← item.value
    let others ← Written.members rest
    return (key, value) :: others

end

/-- The value of a text. -/
def read (text : String) : Except ReadError Json :=
  match Written.read? text with
  | none => .error .malformed
  | some written => written.value

end Haxify.Json
