import Conformance.Exclusion.Engine
import Conformance.Notice
import Conformance.Run.Outcome

namespace Conformance

inductive Reply (α : Type) where
  | returned (value : α)
  | crashed (text : String)
deriving Repr

namespace Reply

def map (f : α → β) : Reply α → Reply β
  | returned value => returned (f value)
  | crashed text => crashed text

end Reply

structure Executor (ε : Type) where
  execute : Case → Reply (Except ε Unit)
  shouldThrow : Case → Reply Bool := fun case => .returned case.isNegative
  isIgnored : Case → Reply Bool := fun _ => .returned false
  isParseError : ε → Reply Bool
  isResolutionError : ε → Reply Bool
  isRuntimeError : ε → Reply Bool
  onTestExecuted : Case → Reply Unit := fun _ => .returned ()

namespace Executor

/-- Ignores, besides what the executor ignores, all that some rules exclude. -/
def excluding (engine : Exclusion.Engine) (executor : Executor ε) : Executor ε :=
  { executor with
    isIgnored := fun case =>
      if engine.excludes case then .returned true else executor.isIgnored case }

def phaseMatches (executor : Executor ε) (case : Case) (error : ε) : Reply Bool :=
  match case.metadata.negative.map Expectation.phase with
  | some .parse => executor.isParseError error
  | some .resolution => executor.isResolutionError error
  | some .runtime => executor.isRuntimeError error
  | some .unknown => .returned false
  | none => .returned false

def execution (executor : Executor ε) (case : Case) : Reply Execution :=
  match executor.execute case with
  | .crashed text => .crashed text
  | .returned (.ok _) => .returned .completed
  | .returned (.error error) => (executor.phaseMatches case error).map .raised

/-- The hooks called so far, and the notices of their crashes; both in order. -/
structure Trace where
  calls : List Hook := []
  notices : List Notice := []
deriving DecidableEq, Repr

/-- Calls a hook; a crash leaves a notice and no answer. -/
def contained (case : Case) (hook : Hook) (reply : Reply α) (trace : Trace) :
    Option α × Trace :=
  let calls := trace.calls ++ [hook]
  match reply with
  | .returned value => (some value, { trace with calls })
  | .crashed text =>
    (none, ⟨calls, trace.notices ++ [.crashed case.display hook text]⟩)

structure Executed where
  outcome : Outcome
  trace : Trace

def run (executor : Executor ε) (case : Case) : Executed :=
  let (execution, trace) := contained case .execute (executor.execution case) {}
  let (shouldThrow, trace) := contained case .shouldThrow (executor.shouldThrow case) trace
  let (ignored, trace) := contained case .isIgnored (executor.isIgnored case) trace
  let outcome :=
    classify (execution.getD (.raised false)) (shouldThrow.getD case.isNegative)
      (ignored.getD false)
  let (_, trace) := contained case .onTestExecuted (executor.onTestExecuted case) trace
  ⟨outcome, trace⟩

@[simp] theorem calls_contained (case : Case) (hook : Hook) (reply : Reply α) (trace : Trace) :
    (contained case hook reply trace).2.calls = trace.calls ++ [hook] := by
  cases reply <;> rfl

theorem calls_run (executor : Executor ε) (case : Case) :
    (executor.run case).trace.calls = [.execute, .shouldThrow, .isIgnored, .onTestExecuted] := by
  simp [run]

end Executor

end Conformance
