namespace Conformance

inductive Classification where
  | success
  | failure
  | falsePositive
  | falseNegative
deriving DecidableEq, Repr, Hashable

namespace Classification

def all : List Classification := [success, failure, falsePositive, falseNegative]

def name : Classification → String
  | success => "success"
  | failure => "failure"
  | falsePositive => "false positive"
  | falseNegative => "false negative"

theorem mem_all (classification : Classification) : classification ∈ all := by
  cases classification <;> decide

end Classification

inductive Execution where
  | completed
  | raised (phaseMatched : Bool)
deriving DecidableEq, Repr

inductive Outcome where
  | allowed (classification : Classification)
  | disallowed (classification : Classification)
deriving DecidableEq, Repr, Hashable

namespace Outcome

def classification : Outcome → Classification
  | allowed c => c
  | disallowed c => c

def isAllowed : Outcome → Bool
  | allowed _ => true
  | disallowed _ => false

end Outcome

namespace Execution

def whenAllowed (execution : Execution) (shouldThrow : Bool) : Classification :=
  match execution, shouldThrow with
  | completed, false => .success
  | completed, true => .falseNegative
  | raised true, true => .failure
  | raised false, true => .falseNegative
  | raised _, false => .falseNegative

def whenDisallowed (execution : Execution) (shouldThrow : Bool) : Classification :=
  match execution, shouldThrow with
  | completed, false => .falsePositive
  | completed, true => .falseNegative
  | raised true, true => .success
  | raised false, true => .failure
  | raised _, false => .failure

end Execution

def classify (execution : Execution) (shouldThrow ignored : Bool) : Outcome :=
  if ignored then .disallowed (execution.whenDisallowed shouldThrow)
  else .allowed (execution.whenAllowed shouldThrow)

@[simp] theorem isAllowed_classify (execution : Execution) (shouldThrow ignored : Bool) :
    (classify execution shouldThrow ignored).isAllowed = !ignored := by
  cases ignored <;> rfl

end Conformance
