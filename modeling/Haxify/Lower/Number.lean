import Haxify.Text.Pieces
import Haxify.TypeScript.Literal

/-!
# Number literals

A number literal in Haxe has no separators, no binary or octal form, and digits on
both sides of its point.
-/

namespace Haxify.Lower

/-- Why a number literal has no Haxe form. -/
inductive NumberError where
  /-- It is not a double. -/
  | bigInteger
  /-- It is out of range. -/
  | unreadable (literal : String)
deriving DecidableEq, Repr

/-- The text of the reason. -/
def NumberError.message : NumberError → String
  | .bigInteger => "BigInt literal"
  | .unreadable literal => "numeric literal " ++ literal

def digitUpTo? (radix : Nat) (char : Char) : Option Nat :=
  (TypeScript.hexValue? char).filter (· < radix)

def digitsUpTo? (radix value : Nat) : List Char → Option Nat
  | [] => some value
  | char :: rest =>
    (digitUpTo? radix char).bind fun digit => digitsUpTo? radix (value * radix + digit) rest

/-- The value of a binary or octal literal, which fits in 128 bits. -/
def smallRadix? (radix : Nat) (digits : List Char) : Option Nat :=
  if digits.isEmpty then none
  else (digitsUpTo? radix 0 digits).filter (· < Nat.pow 2 128)

/-- The characters behind a point, with a zero if no digit is there. -/
def withFraction : List Char → List Char
  | [] => []
  | '.' :: [] => ['.', '0']
  | '.' :: next :: rest =>
    if next = 'e' || next = 'E' then '.' :: '0' :: next :: rest else '.' :: next :: rest
  | char :: rest => char :: withFraction rest

/-- A zero in front of a point that nothing stands before. -/
def withWhole : List Char → List Char
  | '.' :: rest => '0' :: '.' :: rest
  | chars => chars

def numberText (literal : String) : Except NumberError String :=
  let raw := Text.without '_' literal
  let radixText (radix : Nat) : Except NumberError String :=
    match smallRadix? radix (raw.toList.drop 2) with
    | some value => .ok (toString value)
    | none => .error (.unreadable raw)
  if Text.endsIn raw "n" then .error .bigInteger
  else if Text.beginsWith (Text.lowerCase raw) "0b" then radixText 2
  else if Text.beginsWith (Text.lowerCase raw) "0o" then radixText 8
  else if Text.beginsWith (Text.lowerCase raw) "0x" then .ok raw
  else .ok (String.ofList (withFraction (withWhole raw.toList)))

end Haxify.Lower
