namespace Conformance.Yaml

def isBreak (c : Char) : Bool :=
  c == '\n' || c == '\u2028' || c == '\u2029'

def isSpace (c : Char) : Bool :=
  c == ' ' || c == '\t'

def isBlankOrBreak (c : Char) : Bool :=
  isSpace c || isBreak c

def isDigit (c : Char) : Bool :=
  '0' ≤ c && c ≤ '9'

def isWordChar (c : Char) : Bool :=
  isDigit c || ('a' ≤ c && c ≤ 'z') || ('A' ≤ c && c ≤ 'Z') || c == '_' || c == '-'

def hexValue? (c : Char) : Option Nat :=
  if isDigit c then some (c.toNat - 48)
  else if 'a' ≤ c && c ≤ 'f' then some (c.toNat - 87)
  else if 'A' ≤ c && c ≤ 'F' then some (c.toNat - 55)
  else none

def isAllowed (c : Char) : Bool :=
  let n := c.toNat
  n == 0x09 || n == 0x0A || n == 0x0D || (0x20 ≤ n && n ≤ 0x7E) || n == 0x85 ||
    (0xA0 ≤ n && n ≤ 0xFFFD && n != 0xFEFF) || 0x10000 ≤ n

structure Place where
  char : Char
  line : Nat
  column : Nat
  index : Nat

abbrev Source := List Place

namespace Source

def placed (line column index : Nat) : List Char → Source
  | [] => []
  | '\r' :: '\n' :: text =>
    ⟨'\n', line, column, index⟩ :: placed (line + 1) 0 (index + 2) text
  | c :: text =>
    if c = '\r' || c = '\n' || c = '\u0085' then
      ⟨'\n', line, column, index⟩ :: placed (line + 1) 0 (index + 1) text
    else if isBreak c then
      ⟨c, line, column, index⟩ :: placed (line + 1) 0 (index + 1) text
    else
      ⟨c, line, column, index⟩ :: placed line (column + 1) (index + 1) text

def withoutMark : List Char → List Char
  | c :: text => if c = '\ufeff' then text else c :: text
  | [] => []

def ofText? (text : List Char) : Option Source :=
  let text := withoutMark text
  if text.all isAllowed then some (placed 0 0 0 text) else none

def chars (source : Source) : List Char :=
  source.map (·.char)

def endsWord : Source → Bool
  | [] => true
  | place :: _ => isBlankOrBreak place.char

def startsWith (c : Char) : Source → Bool
  | [] => false
  | place :: _ => place.char == c

def isMarker (c : Char) : Source → Bool
  | first :: second :: third :: rest =>
    first.column == 0 && first.char == c && second.char == c && third.char == c &&
      endsWord rest
  | _ => false

def atDocumentMarker (source : Source) : Bool :=
  isMarker '-' source || isMarker '.' source

def skipSpaces (source : Source) : Source :=
  source.dropWhile fun place => isSpace place.char

def skipComment (source : Source) : Source :=
  if startsWith '#' source then source.dropWhile fun place => !isBreak place.char
  else source

def skipLineEnd? (source : Source) : Option Source :=
  match skipComment (skipSpaces source) with
  | [] => some []
  | place :: rest => if isBreak place.char then some rest else none

def spanChars (test : Char → Bool) (source : Source) : List Char × Source :=
  let taken := source.takeWhile fun place => test place.char
  (chars taken, source.drop taken.length)

end Source

end Conformance.Yaml
