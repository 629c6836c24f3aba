import Conformance.Decimal.Shortest

namespace Conformance.Yaml

inductive Number where
  | integer (value : Int)
  | double (value : Decimal.Double)
deriving DecidableEq, Repr

namespace Number

def same : Number → Number → Bool
  | integer left, integer right => left == right
  | double left, double right => left.same right
  | _, _ => false

def text (n : Nat) : List Char :=
  Nat.toDigits 10 n

/-- The digits with `power` behind them: from `1e-5` up to below `1e16` with a
point among them, and with an exponent elsewhere. -/
def decimalText (digits : List Char) (power : Int) : List Char :=
  let length : Int := digits.length
  let places := length + power
  if 0 ≤ power && places ≤ 16 then
    digits ++ List.replicate power.toNat '0' ++ ['.', '0']
  else if 0 < places && places ≤ 16 then
    digits.take places.toNat ++ '.' :: digits.drop places.toNat
  else if -5 < places && places ≤ 0 then
    '0' :: '.' :: List.replicate (-places).toNat '0' ++ digits
  else
    let exponent := (toString (places - 1)).toList
    match digits with
    | [] => []
    | [digit] => digit :: 'e' :: exponent
    | digit :: more => digit :: '.' :: more ++ 'e' :: exponent

def doubleText : Decimal.Double → List Char
  | .nan => ['.', 'n', 'a', 'n']
  | .infinite true => ['-', '.', 'i', 'n', 'f']
  | .infinite false => ['.', 'i', 'n', 'f']
  | .finite negative mantissa exponent =>
    let sign := if negative then ['-'] else []
    let (digits, power) := Decimal.shortest mantissa exponent
    sign ++ decimalText (text digits) power

def toText : Number → String
  | integer value => toString value
  | double value => .ofList (doubleText value)

end Number

end Conformance.Yaml
