import Conformance.Yaml.Token
import Conformance.Yaml.Value
import Conformance.Text.Search

namespace Conformance.Yaml

namespace Resolve

def isZeroPadded (text : List Char) : Bool :=
  let text := match text with
    | '-' :: rest => rest
    | '+' :: rest => rest
    | _ => text
  match text with
  | '0' :: rest => !rest.isEmpty && rest.all Decimal.isDigit
  | _ => false

def digitValue? (radix : Nat) (c : Char) : Option Nat :=
  let value :=
    if '0' ≤ c && c ≤ '9' then c.toNat - 48
    else if 'a' ≤ c && c ≤ 'z' then c.toNat - 87
    else if 'A' ≤ c && c ≤ 'Z' then c.toNat - 55
    else radix
  if value < radix then some value else none

def natural? (radix : Nat) (digits : List Char) : Option Nat :=
  if digits.isEmpty then none
  else digits.foldlM (fun n c => (digitValue? radix c).map (radix * n + ·)) 0

def radix? : List Char → Option (Nat × List Char)
  | '0' :: 'x' :: rest => some (16, rest)
  | '0' :: 'o' :: rest => some (8, rest)
  | '0' :: 'b' :: rest => some (2, rest)
  | _ => none

def startsSigned : List Char → Bool
  | '+' :: _ => true
  | '-' :: _ => true
  | _ => false

def positive? (text : List Char) : Option Nat :=
  let unsigned := match text with
    | '+' :: rest => rest
    | _ => text
  match radix? unsigned with
  | some (radix, digits) => natural? radix digits
  | none =>
    if startsSigned unsigned || isZeroPadded text then none else natural? 10 unsigned

def negative? (text : List Char) : Option Nat :=
  match text with
  | '-' :: rest =>
    match radix? rest with
    | some (radix, digits) => natural? radix digits
    | none => if isZeroPadded text then none else natural? 10 rest
  | _ => none

/-- An integer, if the text is one; `none` within it where it has too many bits
for a number but is still an integer of 128 bits. -/
def integer? (text : List Char) : Option (Option Int) :=
  match positive? text with
  | some n =>
    if n < Nat.pow 2 64 then some (some n)
    else if n < Nat.pow 2 128 then some none
    else none
  | none =>
    match negative? text with
    | some n =>
      if n ≤ Nat.pow 2 63 then some (some (-(n : Int)))
      else if n ≤ Nat.pow 2 127 then some none
      else none
    | none => none

def double? (text : List Char) : Option Decimal.Double :=
  let unsigned? := match text with
    | '+' :: rest => if startsSigned rest then none else some rest
    | _ => some text
  match unsigned? with
  | none => none
  | some unsigned =>
    match String.ofList unsigned, String.ofList text with
    | ".inf", _ => some (.infinite false)
    | ".Inf", _ => some (.infinite false)
    | ".INF", _ => some (.infinite false)
    | _, "-.inf" => some (.infinite true)
    | _, "-.Inf" => some (.infinite true)
    | _, "-.INF" => some (.infinite true)
    | _, ".nan" => some .nan
    | _, ".NaN" => some .nan
    | _, ".NAN" => some .nan
    | _, _ =>
      (Decimal.Numeral.ofText? unsigned).bind fun numeral =>
        let double := Decimal.Double.ofNumeral numeral
        if double.isFinite then some double else none

def null? (text : String) : Bool :=
  text == "null" || text == "Null" || text == "NULL" || text == "~"

def bool? (text : String) : Option Bool :=
  match text with
  | "true" => some true
  | "True" => some true
  | "TRUE" => some true
  | "false" => some false
  | "False" => some false
  | "FALSE" => some false
  | _ => none

def plain? (text : String) : Option Value :=
  if text.isEmpty || null? text then some .null
  else
    match bool? text with
    | some b => some (.bool b)
    | none =>
      let chars := text.toList
      match integer? chars with
      | some (some n) => some (.number (.integer n))
      | some none => none
      | none =>
        match if isZeroPadded chars then none else double? chars with
        | some double => some (.number (.double double))
        | none => some (.string text)

def untagged? (text : String) (style : Style) : Option Value :=
  if style == .plain then plain? text else some (.string text)

def scalar? (tag : Option String) (text : String) (style : Style) : Option Value :=
  match tag with
  | none => untagged? text style
  | some "tag:yaml.org,2002:bool" => (bool? text).map .bool
  | some "tag:yaml.org,2002:null" => if null? text then some .null else none
  | some "tag:yaml.org,2002:int" =>
    match integer? text.toList with
    | some (some n) => some (.number (.integer n))
    | _ => none
  | some "tag:yaml.org,2002:float" => (double? text.toList).map fun d => .number (.double d)
  | some tag =>
    if Text.startsWith "!" tag then (untagged? text style).map (.tagged tag)
    else some (.string text)

end Resolve

end Conformance.Yaml
