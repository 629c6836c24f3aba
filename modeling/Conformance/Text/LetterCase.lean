import Conformance.Text.LetterCase.Table

namespace Conformance.Text

namespace LetterCase

def lowerChar (c : Char) : List Char :=
  if c.toNat < 128 then [c.toLower]
  else if c.toNat = 0x130 then ['i', Char.ofNat 0x307]
  else
    match lowering.find? (·.holds c.toNat) with
    | some row => [Char.ofNat (c.toNat + row.shift).toNat]
    | none => [c]

/-- The first character that separates is a letter with case. -/
def meetsCased (text : List Char) : Bool :=
  match text.dropWhile ignorable.covers with
  | c :: _ => cased.covers c
  | [] => false

def capitalSigma : Char := Char.ofNat 0x3A3

def lowerSigma (before rest : List Char) : Char :=
  if meetsCased before && !meetsCased rest then Char.ofNat 0x3C2 else Char.ofNat 0x3C3

/-- Lowers a text; `before` is what stands in front of it, nearest first. -/
def lowerFrom (before : List Char) : List Char → List Char
  | [] => []
  | c :: rest =>
    (if c = capitalSigma then [lowerSigma before rest] else lowerChar c) ++
      lowerFrom (c :: before) rest

end LetterCase

def lowered (text : List Char) : List Char :=
  LetterCase.lowerFrom [] text

def lowercase (text : String) : String :=
  .ofList (lowered text.toList)

def asciiLowercase (text : String) : String :=
  .ofList (text.toList.map Char.toLower)

end Conformance.Text
