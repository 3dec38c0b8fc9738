import Haxify.Number.Binary64
import Haxify.Text.Pieces

/-!
# Decimal numbers

Reading decimal notation, and writing a double with the fewest digits that read
back as it: always without an exponent, or with one where the number is very
large or very small.
-/

namespace Haxify.Number

/-- A decimal number: plus or minus `digits * 10 ^ exponent`. -/
structure Decimal where
  /-- Whether there is a minus sign. -/
  negative : Bool
  /-- The digits as a whole number. -/
  digits : Nat
  /-- The power of ten that the digits are taken times. -/
  exponent : Int
deriving DecidableEq, Repr

/-- The whole number that decimal digits spell. -/
def ofDigits (digits : List Char) : Nat :=
  digits.foldl (fun value char => value * 10 + (char.toNat - '0'.toNat)) 0

/-- How many decimal digits a whole number has. -/
def digitCount (value : Nat) : Nat := (Nat.toDigits 10 value).length

/-- A signed exponent: an optional sign and at least one digit, with nothing behind. -/
def readExponent? : List Char → Option Int
  | '+' :: digits => readUnsigned? digits
  | '-' :: digits => (readUnsigned? digits).map (-·)
  | digits => readUnsigned? digits
where
  /-- At least one digit, with nothing behind. -/
  readUnsigned? (digits : List Char) : Option Int :=
    if !digits.isEmpty && digits.all Char.isDigit then some (ofDigits digits) else none

/-- Digits with an optional point among them, and an optional exponent. -/
def readUnsignedDecimal? (negative : Bool) (chars : List Char) : Option Decimal :=
  let whole := chars.takeWhile Char.isDigit
  let rest := chars.dropWhile Char.isDigit
  let (fraction, rest) := match rest with
    | '.' :: after => (after.takeWhile Char.isDigit, after.dropWhile Char.isDigit)
    | _ => ([], rest)
  let digits := ofDigits (whole ++ fraction)
  if whole.isEmpty && fraction.isEmpty then none
  else
    match rest with
    | [] => some ⟨negative, digits, -(fraction.length : Int)⟩
    | mark :: after =>
      if mark == 'e' || mark == 'E' then
        (readExponent? after).map fun exponent =>
          ⟨negative, digits, exponent - (fraction.length : Int)⟩
      else none

/-- The decimal number that a text spells, with an optional minus sign. -/
def Decimal.read? (text : String) : Option Decimal :=
  match text.toList with
  | '-' :: chars => readUnsignedDecimal? true chars
  | chars => readUnsignedDecimal? false chars

/-- The double nearest to a decimal number. Magnitudes far out of range are settled
without computing the power of ten. -/
def Decimal.toBinary64 (number : Decimal) : Binary64 :=
  if number.digits = 0 then .zero number.negative
  else
    let magnitude := (digitCount number.digits : Int) + number.exponent
    if magnitude > 310 then .infinite number.negative
    else if magnitude < -330 then .zero number.negative
    else if number.exponent ≥ 0 then
      .ofRatio number.negative (number.digits * Nat.pow 10 number.exponent.toNat) 1
    else .ofRatio number.negative number.digits (Nat.pow 10 (-number.exponent).toNat)

/-- A positive ratio as the whole number of units of a power of ten below it, and the rest. -/
def unitsOf (numerator denominator : Nat) (exponent : Int) : Nat × Nat × Nat :=
  let (scaled, unit) :=
    if exponent ≥ 0 then (numerator, denominator * Nat.pow 10 exponent.toNat)
    else (numerator * Nat.pow 10 (-exponent).toNat, denominator)
  (scaled / unit, scaled % unit, unit)

/-- Which of two decimals is taken that are equally near. -/
inductive Tie where
  | greater
  /-- The one whose last digit is even. -/
  | even
deriving DecidableEq, Repr

/-- Whether the upper neighbour of a ratio is taken if both read back: `below` is the lower
one, and `rest` of a `unit` is what it falls short. -/
def Tie.goesUp (tie : Tie) (below rest unit : Nat) : Bool :=
  2 * rest > unit || 2 * rest == unit && (tie == .greater || below % 2 == 1)

/-- The decimal at a power of ten that reads back as the double, the nearer one if
both neighbours do. -/
def neighbour? (tie : Tie) (value : Binary64) (numerator denominator : Nat) (exponent : Int) :
    Option Decimal :=
  let (below, rest, unit) := unitsOf numerator denominator exponent
  let reads (digits : Nat) : Bool := (Decimal.mk false digits exponent).toBinary64 == value
  let down := below != 0 && reads below
  let up := reads (below + 1)
  if up && (!down || tie.goesUp below rest unit) then some ⟨false, below + 1, exponent⟩
  else if down then some ⟨false, below, exponent⟩
  else none

/-- The first power of ten, going down from `exponent`, at which a neighbour reads back. -/
def shortestFrom (tie : Tie) (value : Binary64) (numerator denominator : Nat) :
    Nat → Int → Option Decimal
  | 0, _ => none
  | steps + 1, exponent =>
    match neighbour? tie value numerator denominator exponent with
    | some decimal => some decimal
    | none => shortestFrom tie value numerator denominator steps (exponent - 1)

/-- The decimal with the fewest digits that reads back as `mantissa * 2 ^ exponent`. -/
def shortest (tie : Tie) (mantissa : Nat) (exponent : Int) : Decimal :=
  let numerator := if exponent ≥ 0 then mantissa * Nat.pow 2 exponent.toNat else mantissa
  let denominator := if exponent ≥ 0 then 1 else Nat.pow 2 (-exponent).toNat
  let magnitude : Int := (digitCount numerator : Int) - (digitCount denominator : Int) + 1
  (shortestFrom tie (.finite false mantissa exponent) numerator denominator 20 magnitude).getD
    ⟨false, numerator, 0⟩

/-- The digits of a decimal number with the point where it belongs and no exponent. -/
def Decimal.positional (number : Decimal) : String :=
  let digits := Nat.toDigits 10 number.digits
  if number.exponent ≥ 0 then
    String.ofList digits ++ Text.copies "0" number.exponent.toNat
  else
    let places := (-number.exponent).toNat
    let filled := List.replicate (places + 1 - digits.length) '0' ++ digits
    let whole := filled.length - places
    String.ofList (filled.take whole) ++ "." ++ String.ofList (filled.drop whole)

/-- The power of ten of the first digit. -/
def Decimal.magnitude (number : Decimal) : Int :=
  (digitCount number.digits : Int) - 1 + number.exponent

/-- The digits of a decimal number with the point behind the first one, if there are more,
and a signed exponent. -/
def Decimal.scientific (number : Decimal) : String :=
  let mark := if number.magnitude < 0 then "e-" else "e+"
  let power := toString number.magnitude.natAbs
  match Nat.toDigits 10 number.digits with
  | [] => "0"
  | [only] => String.singleton only ++ mark ++ power
  | first :: rest => String.singleton first ++ "." ++ String.ofList rest ++ mark ++ power

/-- The digits with a point among them; numbers below one hundred-thousandth, and those
with more than sixteen digits before the point, have an exponent instead. -/
def Decimal.compact (number : Decimal) : String :=
  if -5 ≤ number.magnitude ∧ number.magnitude < 16 then
    if number.exponent ≥ 0 then number.positional ++ ".0" else number.positional
  else number.scientific

/-- A double with the fewest digits that read back as it, in the compact form;
of two that are equally near the even one. -/
def Binary64.compact : Binary64 → String
  | .infinite negative => if negative then "-inf" else "inf"
  | .finite negative mantissa exponent =>
    let sign := if negative then "-" else ""
    if mantissa = 0 then sign ++ "0.0"
    else sign ++ (shortest .even mantissa exponent).compact

/-- A double with the fewest digits that read back as it, without an exponent; of two that
are equally near the greater one. -/
def Binary64.display : Binary64 → String
  | .infinite negative => if negative then "-inf" else "inf"
  | .finite negative mantissa exponent =>
    let sign := if negative then "-" else ""
    if mantissa = 0 then sign ++ "0"
    else sign ++ (shortest .greater mantissa exponent).positional

end Haxify.Number
