import Conformance.Run.Executor
import Conformance.Run.Pool
import Conformance.Run.Summary

namespace Conformance

structure Runner where
  parallelism : Nat
deriving DecidableEq, Repr

namespace Runner

def create (parallelism : Nat) : Except Error Runner :=
  if parallelism = 0 then .error (.invalidArgument .noWorker) else .ok ⟨parallelism⟩

def setup (executor : Executor ε) (stopsAt : Nat → Bool) : Pool.Setup Case Executor.Executed where
  work := executor.run
  stopsAt := stopsAt

def summaryOf (pool : Pool Case Executor.Executed) : Summary :=
  .ofOutcomes pool.stoppedEarly (pool.recorded.reverse.map fun entry => (entry.1, entry.2.outcome))

/-- The pool after all is done; `cancelled` says that the run is stopped before
it starts, and `stopsAt` after how many cases it is stopped. -/
def pool (runner : Runner) (executor : Executor ε) (cases : List Case)
    (cancelled : Bool) (stopsAt : Nat → Bool) : Pool Case Executor.Executed :=
  Pool.complete (setup executor stopsAt) cases runner.parallelism cancelled

def run (runner : Runner) (executor : Executor ε) (cases : List Case)
    (cancelled : Bool := false) (stopsAt : Nat → Bool := fun _ => false) : Summary :=
  summaryOf (runner.pool executor cases cancelled stopsAt)

end Runner

namespace Inline

/-- The cases run, newest first, and whether any was left; `cancelled` tells
whether the flag is set after so many cases. -/
def runFrom (executor : Executor ε) (cancelled : Nat → Bool) (outcomes : List (Case × Outcome)) :
    List Case → List (Case × Outcome) × Bool
  | [] => (outcomes, false)
  | case :: cases =>
    if cancelled outcomes.length then (outcomes, true)
    else runFrom executor cancelled ((case, (executor.run case).outcome) :: outcomes) cases

def run (executor : Executor ε) (cancelled : Nat → Bool) (cases : List Case) : Summary :=
  let (outcomes, left) := runFrom executor cancelled [] cases
  .ofOutcomes left outcomes.reverse

end Inline

end Conformance
