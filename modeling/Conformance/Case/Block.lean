import Conformance.Text.Blank
import Conformance.Text.Search

namespace Conformance.Block

def opening : List Char := "/*---".toList

def closing : List Char := "---*/".toList

inductive Problem where
  | noStart
  | noEnd
  | empty
deriving DecidableEq, Repr

/-- What stands in front of the block, in it, and behind it. -/
structure Parts where
  before : List Char
  body : List Char
  after : List Char
deriving DecidableEq, Repr

def split (contents : List Char) : Except Problem Parts :=
  match Text.cut? opening contents with
  | none => .error .noStart
  | some (before, rest) =>
    match Text.cut? closing rest with
    | none => .error .noEnd
    | some (body, after) => .ok ⟨before, body, after⟩

def body (contents : List Char) : Except Problem (List Char) :=
  match split contents with
  | .error problem => .error problem
  | .ok parts => if (Text.trimmed parts.body).isEmpty then .error .empty else .ok parts.body

end Conformance.Block
