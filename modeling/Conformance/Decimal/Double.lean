import Conformance.Decimal.Numeral

namespace Conformance.Decimal

inductive Double where
  | finite (negative : Bool) (mantissa : Nat) (exponent : Int)
  | infinite (negative : Bool)
  | nan
deriving DecidableEq, Repr

def leastExponent : Int := -1074

def greatestExponent : Int := 971

/-- The quotient rounded to the nearest number, a half to the even neighbour. -/
def roundDiv (num den : Nat) : Nat :=
  let quotient := num / den
  let twice := 2 * (num % den)
  if twice < den then quotient
  else if den < twice then quotient + 1
  else if quotient % 2 = 0 then quotient
  else quotient + 1

def scaleDown (num den : Nat) (power : Int) : Nat × Nat :=
  if 0 ≤ power then (num, den * Nat.pow 2 power.toNat)
  else (num * Nat.pow 2 (-power).toNat, den)

namespace Double

/-- The exponent at which the rounded quotient has 53 bits, or the least one. -/
def exponentFor (num den : Nat) : Int :=
  let guess : Int := (Nat.log2 num : Int) - (Nat.log2 den : Int) - 53
  let (n, d) := scaleDown num den guess
  max (if Nat.pow 2 53 ≤ n / d then guess + 1 else guess) leastExponent

def ofFraction (negative : Bool) (num den : Nat) : Double :=
  let exponent := exponentFor num den
  let (n, d) := scaleDown num den exponent
  let mantissa := roundDiv n d
  let (mantissa, exponent) :=
    if mantissa = Nat.pow 2 53 then (Nat.pow 2 52, exponent + 1) else (mantissa, exponent)
  if greatestExponent < exponent then .infinite negative
  else .finite negative mantissa exponent

/-- The nearest double of a numeral. One of more than 310 places lies beyond
all doubles, and one that starts behind 330 zeros is nearest to zero. -/
def ofNumeral (numeral : Numeral) : Double :=
  if numeral.digits = 0 then .finite numeral.negative 0 leastExponent
  else
    let places : Int := (Nat.toDigits 10 numeral.digits).length + numeral.exponent
    if 310 < places then .infinite numeral.negative
    else if places < -330 then .finite numeral.negative 0 leastExponent
    else if 0 ≤ numeral.exponent then
      ofFraction numeral.negative (numeral.digits * Nat.pow 10 numeral.exponent.toNat) 1
    else
      ofFraction numeral.negative numeral.digits (Nat.pow 10 (-numeral.exponent).toNat)

def isFinite : Double → Bool
  | finite _ _ _ => true
  | _ => false

/-- Equality that takes the two zeros for one number and `nan` for itself. -/
def same : Double → Double → Bool
  | finite left m e, finite right n f =>
    m == n && e == f && (left == right || m == 0)
  | left, right => left == right

end Double

end Conformance.Decimal
