import Conformance.Text.Search

namespace Conformance.Zip

def isSeparator (c : Char) : Bool :=
  c == '/' || c == '\\'

def follow (reached : List String) : List String → Option (List String)
  | [] => some reached.reverse
  | "" :: ahead => follow reached ahead
  | "." :: ahead => follow reached ahead
  | ".." :: ahead =>
    match reached with
    | [] => none
    | _ :: reached => follow reached ahead
  | name :: ahead => follow (name :: reached) ahead

def hasDrive : List Char → Bool
  | drive :: ':' :: _ => drive.isAlpha
  | _ => false

/-- The segments of a name that leads to a place below where it starts, each ".." resolved. -/
def enclosed? (name : String) : Option (List String) :=
  let name := name.toList
  if name.contains '\x00' || (name.head?.any isSeparator) || hasDrive name then none
  else follow [] ((name.splitOnP isSeparator).map String.ofList)

end Conformance.Zip
