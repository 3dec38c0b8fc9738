/-!
# Double-precision numbers

Finite numbers are kept as sign, mantissa and binary exponent, and every result
is the exact rational rounded to the nearest double, ties to the even mantissa.
All arithmetic is on natural numbers, so each value can be reasoned about.
-/

namespace Haxify.Number

/-- A double-precision number; there is no NaN. -/
inductive Binary64 where
  | finite (negative : Bool) (mantissa : Nat) (exponent : Int)
  /-- Plus or minus infinity. -/
  | infinite (negative : Bool)
deriving DecidableEq, Repr

/-- The quotient rounded to the nearest whole number, ties to the even one. -/
def divideToEven (numerator denominator : Nat) : Nat :=
  let quotient := numerator / denominator
  let twice := 2 * (numerator % denominator)
  if twice > denominator || (twice == denominator && quotient % 2 == 1) then quotient + 1
  else quotient

/-- Numerator and denominator of a ratio divided by a power of two. -/
def scaleDown (numerator denominator : Nat) (exponent : Int) : Nat × Nat :=
  if exponent ≥ 0 then (numerator, denominator * Nat.pow 2 exponent.toNat)
  else (numerator * Nat.pow 2 (-exponent).toNat, denominator)

namespace Binary64

def leastExponent : Int := -1074

def greatestExponent : Int := 971

def zero (negative : Bool) : Binary64 := .finite negative 0 leastExponent

/-- The exponent at which a positive ratio has a mantissa of 53 bits, or the least one. -/
def exponentFor (numerator denominator : Nat) : Int :=
  let guess : Int := (numerator.log2 : Int) - (denominator.log2 : Int)
  let (scaled, unit) := scaleDown numerator denominator guess
  max ((if scaled ≥ unit then guess else guess - 1) - 52) leastExponent

/-- A mantissa at an exponent, where a mantissa of 54 bits moves up one exponent and
an exponent out of range gives infinity. -/
def settle (negative : Bool) (mantissa : Nat) (exponent : Int) : Binary64 :=
  let carried := mantissa == Nat.pow 2 53
  let exponent := if carried then exponent + 1 else exponent
  if exponent > greatestExponent then .infinite negative
  else .finite negative (if carried then Nat.pow 2 52 else mantissa) exponent

/-- The double nearest to plus or minus a ratio. -/
def ofRatio (negative : Bool) (numerator denominator : Nat) : Binary64 :=
  if numerator = 0 then zero negative
  else
    let exponent := exponentFor numerator denominator
    let (scaled, unit) := scaleDown numerator denominator exponent
    settle negative (divideToEven scaled unit) exponent

/-- The double nearest to a whole number. -/
def ofInt (value : Int) : Binary64 := ofRatio (value < 0) value.natAbs 1

/-- The number with its sign turned. -/
def negate : Binary64 → Binary64
  | .finite negative mantissa exponent => .finite (!negative) mantissa exponent
  | .infinite negative => .infinite (!negative)

def signed (negative : Bool) (mantissa : Nat) : Int :=
  if negative then -(mantissa : Int) else mantissa

/-- The double nearest to the number plus one. -/
def succ : Binary64 → Binary64
  | .infinite negative => .infinite negative
  | .finite negative mantissa exponent =>
    if exponent ≥ 0 then
      ofInt (signed negative (mantissa * Nat.pow 2 exponent.toNat) + 1)
    else
      let unit : Nat := Nat.pow 2 (-exponent).toNat
      let sum : Int := signed negative mantissa + unit
      ofRatio (sum < 0) sum.natAbs unit

/-- The whole number that a finite number is, if it is one. -/
def toInt? : Binary64 → Option Int
  | .infinite _ => none
  | .finite negative mantissa exponent =>
    if exponent ≥ 0 then some (signed negative (mantissa * Nat.pow 2 exponent.toNat))
    else
      let unit : Nat := Nat.pow 2 (-exponent).toNat
      if mantissa % unit = 0 then some (signed negative (mantissa / unit)) else none

/-- The sixty-four bits of the interchange format. -/
def bits : Binary64 → Nat
  | .infinite negative => (if negative then Nat.pow 2 63 else 0) + 0x7FF * Nat.pow 2 52
  | .finite negative mantissa exponent =>
    let magnitude :=
      if mantissa < Nat.pow 2 52 then mantissa
      else (exponent - leastExponent + 1).toNat * Nat.pow 2 52 + (mantissa - Nat.pow 2 52)
    (if negative then Nat.pow 2 63 else 0) + magnitude

end Binary64

end Haxify.Number
