import Conformance.Yaml.Number

namespace Conformance.Yaml

inductive Value where
  | null
  | bool (value : Bool)
  | number (value : Number)
  | string (text : String)
  | sequence (items : List Value)
  | mapping (entries : List (Value × Value))
  | tagged (tag : String) (value : Value)
deriving Inhabited

namespace Value

mutual

def same : Value → Value → Bool
  | .null, .null => true
  | .bool left, .bool right => left == right
  | .number left, .number right => left.same right
  | .string left, .string right => left == right
  | .sequence left, .sequence right => sameItems left right
  | .mapping left, .mapping right =>
    left.length == right.length && sameEntries left right
  | .tagged tag left, .tagged other right => tag == other && same left right
  | _, _ => false

def sameItems : List Value → List Value → Bool
  | [], [] => true
  | left :: lefts, right :: rights => same left right && sameItems lefts rights
  | _, _ => false

def sameEntries : List (Value × Value) → List (Value × Value) → Bool
  | [], _ => true
  | (key, value) :: lefts, rights =>
    rights.any (fun entry => same key entry.1 && same value entry.2) &&
      sameEntries lefts rights

end

end Value

abbrev Mapping := List (Value × Value)

def Mapping.get? (mapping : Mapping) (key : String) : Option Value :=
  match mapping with
  | [] => none
  | (.string found, value) :: rest => if found = key then some value else get? rest key
  | _ :: rest => get? rest key

end Conformance.Yaml
