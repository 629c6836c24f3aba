import Conformance.Decimal.Double
import Conformance.Toml.Quoted

namespace Conformance.Toml

/-! Values without quotes or brackets: booleans, numbers and moments. An
underscore may stand between two digits of a number. -/

inductive Scalar where
  | boolean (value : Bool)
  | integer (value : Int)
  | float (value : Decimal.Double)
  | moment
deriving DecidableEq, Repr

namespace Scalar

def digits? (isDigit : Char → Bool) : List Char → Option (List Char)
  | [] => none
  | [c] => if isDigit c then some [c] else none
  | c :: '_' :: rest => if isDigit c then (digits? isDigit rest).map (c :: ·) else none
  | c :: rest => if isDigit c then (digits? isDigit rest).map (c :: ·) else none

def plainDigits? (text : List Char) : Option (List Char) :=
  match digits? Decimal.isDigit text with
  | some ('0' :: _ :: _) => none
  | found => found

def isBinary (c : Char) : Bool := c == '0' || c == '1'

def isOctal (c : Char) : Bool := '0' ≤ c && c ≤ '7'

def isHex (c : Char) : Bool := (hexValue? c).isSome

def valueIn (base : Nat) (digits : List Char) : Nat :=
  digits.foldl (fun n c => base * n + (hexValue? c).getD 0) 0

def sized? (value : Int) : Option Scalar :=
  if -(Nat.pow 2 127 : Nat) ≤ value ∧ value < (Nat.pow 2 128 : Nat) then some (.integer value)
  else none

def integer? (text : List Char) : Option Scalar :=
  match text with
  | '0' :: 'x' :: rest => (digits? isHex rest).bind fun d => sized? (valueIn 16 d)
  | '0' :: 'o' :: rest => (digits? isOctal rest).bind fun d => sized? (valueIn 8 d)
  | '0' :: 'b' :: rest => (digits? isBinary rest).bind fun d => sized? (valueIn 2 d)
  | _ =>
    let (negative, digits) := Decimal.signed text
    (plainDigits? digits).bind fun d =>
      sized? (if negative then -(valueIn 10 d : Int) else valueIn 10 d)

def splitExponent (text : List Char) : List Char × Option (List Char) :=
  let isMark (c : Char) : Bool := c == 'e' || c == 'E'
  match text.dropWhile fun c => !isMark c with
  | [] => (text, none)
  | _ :: rest => (text.takeWhile fun c => !isMark c, some rest)

def exponent? : Option (List Char) → Option Int
  | none => some 0
  | some text =>
    let (negative, digits) := Decimal.signed text
    (digits? Decimal.isDigit digits).map fun d =>
      if negative then -(valueIn 10 d : Int) else valueIn 10 d

def numeral? (text : List Char) : Option Decimal.Numeral := do
  let (negative, text) := Decimal.signed text
  let (front, exponent) := splitExponent text
  let whole ← plainDigits? (front.takeWhile (· != '.'))
  let fraction ← match front.dropWhile (· != '.') with
    | [] => if exponent.isNone then none else some []
    | _ :: rest => digits? Decimal.isDigit rest
  let power ← exponent? exponent
  return ⟨negative, valueIn 10 (whole ++ fraction), power - fraction.length⟩

def float? (text : List Char) : Option Scalar :=
  let (negative, word) := Decimal.signed text
  if word = "inf".toList then some (.float (.infinite negative))
  else if word = "nan".toList then some (.float .nan)
  else
    match (numeral? text).map Decimal.Double.ofNumeral with
    | some value => if value.isFinite then some (.float value) else none
    | none => none

def pair? : List Char → Option (Nat × List Char)
  | a :: b :: rest =>
    if Decimal.isDigit a && Decimal.isDigit b then some (valueIn 10 [a, b], rest) else none
  | _ => none

def after (mark : Char) : List Char → Option (List Char)
  | c :: rest => if c == mark then some rest else none
  | [] => none

def isLeap (year : Nat) : Bool :=
  year % 4 == 0 && (year % 100 != 0 || year % 400 == 0)

def daysIn (year month : Nat) : Nat :=
  if month = 2 then (if isLeap year then 29 else 28)
  else if month = 4 ∨ month = 6 ∨ month = 9 ∨ month = 11 then 30
  else 31

def afterDate? (text : List Char) : Option (List Char) := do
  let (century, text) ← pair? text
  let (year, text) ← pair? text
  let (month, text) ← pair? (← after '-' text)
  let (day, text) ← pair? (← after '-' text)
  if 1 ≤ month ∧ month ≤ 12 ∧ 1 ≤ day ∧ day ≤ daysIn (100 * century + year) month then
    some text
  else none

def afterFraction? (text : List Char) : Option (List Char) :=
  match text with
  | '.' :: rest =>
    match rest.takeWhile Decimal.isDigit with
    | [] => none
    | _ => some (rest.dropWhile Decimal.isDigit)
  | _ => some text

def afterTime? (text : List Char) : Option (List Char) := do
  let (hour, text) ← pair? text
  let (minute, text) ← pair? (← after ':' text)
  if 23 < hour ∨ 59 < minute then none
  else
    match after ':' text with
    | none => some text
    | some text =>
      let (second, text) ← pair? text
      if 60 < second then none else afterFraction? text

def isOffset (text : List Char) : Bool :=
  match text with
  | [] => true
  | [c] => c == 'Z' || c == 'z'
  | sign :: rest =>
    (sign == '+' || sign == '-') &&
      match pair? rest with
      | none => false
      | some (hours, rest) =>
        match (after ':' rest).bind pair? with
        | some (minutes, []) => hours ≤ 23 && minutes ≤ 59
        | _ => false

def isMoment (text : List Char) : Bool :=
  match afterDate? text with
  | some [] => true
  | some (mark :: time) =>
    (mark == 'T' || mark == 't' || mark == ' ') &&
      (match afterTime? time with
      | some rest => isOffset rest
      | none => false)
  | none => afterTime? text == some []

def isWordChar (c : Char) : Bool :=
  c.isAlphanum || c == '_' || c == '-' || c == '+' || c == '.' || c == ':'

def ofWord? (word : List Char) : Option Scalar :=
  if word = "true".toList then some (.boolean true)
  else if word = "false".toList then some (.boolean false)
  else if isMoment word then some .moment
  else
    match integer? word with
    | some value => some value
    | none => float? word

def splitWord (text : List Char) : List Char × List Char :=
  let word := text.takeWhile isWordChar
  match afterDate? word, text.dropWhile isWordChar with
  | some [], ' ' :: c :: rest =>
    if Decimal.isDigit c then
      (word ++ ' ' :: (c :: rest).takeWhile isWordChar, (c :: rest).dropWhile isWordChar)
    else (word, ' ' :: c :: rest)
  | _, rest => (word, rest)

def read? (text : List Char) : Option (Scalar × List Char) :=
  let (word, rest) := splitWord text
  (ofWord? word).map fun scalar => (scalar, rest)

end Scalar

end Conformance.Toml
