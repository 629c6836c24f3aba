import Conformance.Decimal.Double

namespace Conformance.Decimal

/-- A positive fraction together with the interval that rounds to it, over one
denominator; `closed` says that the ends belong to it. -/
structure Rounded where
  low : Nat
  value : Nat
  high : Nat
  den : Nat
  closed : Bool

def Rounded.ofFinite (mantissa : Nat) (exponent : Int) : Rounded :=
  let close := mantissa == Nat.pow 2 52 && leastExponent < exponent
  let low := if close then 4 * mantissa - 1 else 4 * mantissa - 2
  let power := exponent - 2
  let up := Nat.pow 2 power.toNat
  { low := low * up
    value := 4 * mantissa * up
    high := (4 * mantissa + 2) * up
    den := Nat.pow 2 (-power).toNat
    closed := mantissa % 2 == 0 }

def Rounded.holds (rounded : Rounded) (num den : Nat) : Bool :=
  let point := num * rounded.den
  let low := rounded.low * den
  let high := rounded.high * den
  if rounded.closed then low ≤ point && point ≤ high else low < point && point < high

def gridPoint (n : Nat) (power : Int) : Nat × Nat :=
  (n * Nat.pow 10 power.toNat, Nat.pow 10 (-power).toNat)

def Rounded.onGrid? (rounded : Rounded) (power : Int) : Option Nat :=
  let (unit, den) := gridPoint 1 power
  let below := rounded.value * den / (rounded.den * unit)
  let hits (n : Nat) : Bool :=
    let (num, den) := gridPoint n power
    rounded.holds num den
  match hits below, hits (below + 1) with
  | false, false => none
  | true, false => some below
  | false, true => some (below + 1)
  | true, true =>
    let twice := 2 * (rounded.value * den)
    let middle := (2 * below + 1) * (rounded.den * unit)
    if twice < middle then some below
    else if middle < twice then some (below + 1)
    else some (if below % 2 = 0 then below else below + 1)

/-- How many decimal places the whole part has, or minus the zeros behind the
point; found by trying from `guess` downwards. -/
def placesFrom (rounded : Rounded) : Nat → Int → Int
  | 0, guess => guess
  | fuel + 1, guess =>
    let (num, den) := gridPoint 1 (guess - 1)
    if num * rounded.den ≤ rounded.value * den then guess
    else placesFrom rounded fuel (guess - 1)

def Rounded.places (rounded : Rounded) : Int :=
  let bits : Int := (Nat.log2 rounded.value : Int) - (Nat.log2 rounded.den : Int)
  placesFrom rounded 8 ((bits + 1) * 30103 / 100000 + 2)

def shortestFrom (rounded : Rounded) (places : Int) : Nat → Nat → Nat × Int
  | 0, count => (0, places - count)
  | fuel + 1, count =>
    match rounded.onGrid? (places - count) with
    | some n => if n = 0 then shortestFrom rounded places fuel (count + 1) else (n, places - count)
    | none => shortestFrom rounded places fuel (count + 1)

def trimZeros : Nat → Nat → Int → Nat × Int
  | 0, digits, power => (digits, power)
  | fuel + 1, digits, power =>
    if digits ≠ 0 && digits % 10 = 0 then trimZeros fuel (digits / 10) (power + 1)
    else (digits, power)

def shortest (mantissa : Nat) (exponent : Int) : Nat × Int :=
  if mantissa = 0 then (0, 0)
  else
    let rounded := Rounded.ofFinite mantissa exponent
    let (digits, power) := shortestFrom rounded rounded.places 17 1
    trimZeros 18 digits power

end Conformance.Decimal
