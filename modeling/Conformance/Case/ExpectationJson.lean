import Conformance.Case.Expectation
import Conformance.Json

namespace Conformance.Expectation

def nameOf? : Json → Option String
  | .string text => some text
  | .object [(key, .null)] => some key
  | _ => none

def ofParts? (phase errorType : Json) : Option Expectation := do
  let phase ← (nameOf? phase).bind Phase.ofName?
  let errorType ← (nameOf? errorType).bind ErrorType.ofName?
  return { phase, errorType }

def ofJson? : Json → Option Expectation
  | .array [phase, errorType] => ofParts? phase errorType
  | .object members => do
    ofParts? (← Json.member? "phase" members) (← Json.member? "type" members)
  | _ => none

def toJson (expectation : Expectation) : Json :=
  .object
    [("phase", .string expectation.phase.name),
     ("type", .string expectation.errorType.name)]

theorem ofJson?_toJson (expectation : Expectation) :
    ofJson? expectation.toJson = some expectation := by
  rcases expectation with ⟨phase, errorType⟩
  cases phase <;> cases errorType <;> rfl

end Conformance.Expectation
