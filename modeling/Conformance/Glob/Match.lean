import Conformance.Glob.Pattern

namespace Conformance.Glob

abbrev Marks := List Bool

namespace Marks

def start (size : Nat) : Marks :=
  true :: List.replicate size false

def none (marks : Marks) : Marks :=
  marks.map fun _ => false

def either (left right : Marks) : Marks :=
  List.zipWith (· || ·) left right

def across (test : UInt8 → Bool) (bytes : List UInt8) (marks : Marks) : Marks :=
  false :: List.zipWith (fun mark byte => mark && test byte) marks bytes

def onwards (seen : Bool) : Marks → Marks
  | [] => []
  | mark :: marks => (seen || mark) :: onwards (seen || mark) marks

def atEnd (marks : Marks) : Bool :=
  marks.getLastD false

end Marks

def bytesOf (c : Char) : List UInt8 :=
  String.utf8EncodeChar c

def byteRuns (run : Char × Char) : List (UInt8 × UInt8) :=
  let single (bytes : List UInt8) := bytes.map fun byte => (byte, byte)
  if run.1 = run.2 then single (bytesOf run.1)
  else
    let first := bytesOf run.1
    let last := bytesOf run.2
    match first.getLast?, last with
    | some low, high :: more => single first.dropLast ++ (low, high) :: single more
    | _, _ => []

def CharClass.holds (chars : CharClass) (byte : UInt8) : Bool :=
  let inside := (chars.runs.flatMap byteRuns).any fun run => run.1 ≤ byte && byte ≤ run.2
  inside != chars.negated

def isSlash (byte : UInt8) : Bool := byte == 47

mutual

/-- The branch is made of nothing but groups without a branch that counts. -/
def isVoid : List Token → Bool
  | [] => true
  | token :: tokens => isVoidToken token && isVoid tokens

def isVoidToken : Token → Bool
  | .anyOf branches => areVoid branches
  | _ => false

def areVoid : List (List Token) → Bool
  | [] => true
  | branch :: branches => isVoid branch && areVoid branches

end

mutual

def run (bytes : List UInt8) : List Token → Marks → Marks
  | [], marks => marks
  | token :: tokens, marks => run bytes tokens (runToken bytes token marks)

def runToken (bytes : List UInt8) : Token → Marks → Marks
  | .literal c, marks =>
    (bytesOf c).foldl (fun marks byte => marks.across (· == byte) bytes) marks
  | .one, marks => marks.across (fun _ => true) bytes
  | .many, marks => marks.onwards false
  | .foldersFirst, marks =>
    marks.either ((marks.across isSlash bytes).either
      ((marks.onwards false).across isSlash bytes))
  | .foldersLast, marks => (marks.across isSlash bytes).onwards false
  | .foldersBetween, marks =>
    let inside := marks.across isSlash bytes
    inside.either ((inside.onwards false).across isSlash bytes)
  | .oneOf chars, marks => marks.across chars.holds bytes
  | .anyOf branches, marks =>
    if areVoid branches then marks else runBranches bytes branches marks

def runBranches (bytes : List UInt8) : List (List Token) → Marks → Marks
  | [], marks => marks.none
  | branch :: branches, marks =>
    let others := runBranches bytes branches marks
    if isVoid branch then others else (run bytes branch marks).either others

end

def Pattern.isEverything : Pattern → Bool
  | [.foldersFirst] => true
  | _ => false

def Pattern.accepts (pattern : Pattern) (name : String) : Bool :=
  let bytes := name.toUTF8.toList
  pattern.isEverything || (run bytes pattern (Marks.start bytes.length)).atEnd

end Conformance.Glob
