import Conformance.Text.Quoted
import Conformance.Text.Search

namespace Conformance.Download

namespace Address

def isCoded (c : Char) : Bool :=
  c.toNat < 0x20 || 0x7E < c.toNat || c == ' ' || c == '"' || c == '<' || c == '>'

def isCodedInPath (c : Char) : Bool :=
  isCoded c || c == '\x60' || c == '\x7b' || c == '\x7d'

def isCodedInQuery (c : Char) : Bool :=
  isCoded c || c == '\''

def isCodedInFragment (c : Char) : Bool :=
  isCoded c || c == '\x60'

def byteText (byte : UInt8) : List Char :=
  ['%', (Nat.digitChar (byte.toNat / 16)).toUpper, (Nat.digitChar (byte.toNat % 16)).toUpper]

def coded (c : Char) : List Char :=
  (String.singleton c).toUTF8.toList.flatMap byteText

def encode (isCoded : Char → Bool) (text : List Char) : List Char :=
  text.flatMap fun c => if isCoded c then coded c else [c]

def plainDots (segment : List Char) : List Char :=
  (String.ofList segment |>.toLower.replace "%2e" ".").toList

def isHere (segment : List Char) : Bool := plainDots segment == ['.']

def isUp (segment : List Char) : Bool := plainDots segment == ['.', '.']

/-- The segments that are left, last first. A dot segment at the end leaves an
empty one. -/
def resolve (reached : List (List Char)) : List (List Char) → List (List Char)
  | [] => reached
  | segment :: ahead =>
    let kept := if isUp segment then reached.tail else reached
    if isUp segment || isHere segment then
      if ahead.isEmpty then [] :: kept else resolve kept ahead
    else resolve (segment :: reached) ahead

def path (text : List Char) : List Char :=
  let slashed := text.map fun c => if c == '\\' then '/' else c
  let segments := (resolve [] (slashed.splitOn '/')).reverse
  ['/'].intercalate (segments.map (encode isCodedInPath))

def splitAt (mark : Char → Bool) (text : List Char) : List Char × List Char :=
  (text.takeWhile fun c => !mark c, text.dropWhile fun c => !mark c)

def behindHost (text : List Char) : List Char :=
  let (front, fragment) := splitAt (· == '#') text
  let (path, query) := splitAt (· == '?') front
  Address.path path ++ encode isCodedInQuery query ++ encode isCodedInFragment fragment

def cleaned (text : List Char) : List Char :=
  let isEdge (c : Char) : Bool := c.toNat ≤ 0x20
  let trimmed := ((text.dropWhile isEdge).reverse.dropWhile isEdge).reverse
  trimmed.filter fun c => c != '\t' && c != '\n' && c != '\r'

def written (address : String) : String :=
  match Text.cut? "://".toList (cleaned address.toList) with
  | none => address
  | some (scheme, rest) =>
    let (host, behind) := splitAt (fun c => c == '/' || c == '\\') rest
    .ofList (scheme ++ "://".toList ++ host ++ '/' :: behindHost behind.tail)

end Address

end Conformance.Download
