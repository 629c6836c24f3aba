namespace Conformance

/-! A pool of workers. A feeder passes jobs from the input into a bounded queue,
workers take them from there and post what comes of them into a second queue,
and a collector records it. The feeder and each worker look at the stop flag
before they go on with a job they hold, and drop the job if the flag is set. -/

namespace Pool

inductive Feeder (α : Type) where
  | idle
  | holding (job : α)
  | ready (job : α)
  | exited
deriving DecidableEq, Repr

inductive Worker (α β : Type) where
  | idle
  | holding (job : α)
  | ready (job : α)
  | working (job : α)
  | done (job : α) (result : β)
  | exited
deriving DecidableEq, Repr

def Worker.isExited : Worker α β → Bool
  | exited => true
  | _ => false

def Feeder.isExited : Feeder α → Bool
  | exited => true
  | _ => false

/-- What is done with a job, and after how many jobs done the flag is set from
within. -/
structure Setup (α β : Type) where
  work : α → β
  stopsAt : Nat → Bool := fun _ => false

end Pool

/-- The queues hold their oldest entry first. `begun` and `recorded` keep what
was begun and recorded, newest first, and `finished` counts what was done. -/
structure Pool (α β : Type) where
  input : List α
  feeder : Pool.Feeder α
  jobs : List α
  workers : List (Pool.Worker α β)
  results : List (α × β)
  hand : Option (α × β)
  recorded : List (α × β)
  begun : List α
  finished : Nat
  cancelled : Bool
  stoppedEarly : Bool
deriving DecidableEq, Repr

namespace Pool

variable {α β : Type}

def start (input : List α) (workers : Nat) (cancelled : Bool) : Pool α β where
  input := input
  feeder := .idle
  jobs := []
  workers := List.replicate workers .idle
  results := []
  hand := none
  recorded := []
  begun := []
  finished := 0
  cancelled := cancelled
  stoppedEarly := false

def jobCapacity (pool : Pool α β) : Nat := 4 * pool.workers.length

def resultCapacity (pool : Pool α β) : Nat := 8 * pool.workers.length

def allExited (pool : Pool α β) : Bool :=
  pool.workers.all (·.isExited)

def isFinal (pool : Pool α β) : Bool :=
  pool.feeder.isExited && pool.allExited && pool.results.isEmpty && pool.hand.isNone

inductive Move where
  | pull
  | check
  | send
  | take (worker : Nat)
  | inspect (worker : Nat)
  | begin (worker : Nat)
  | finish (worker : Nat)
  | post (worker : Nat)
  | collect
  | record
  | cancel
deriving DecidableEq, Repr

def setWorker (pool : Pool α β) (index : Nat) (worker : Worker α β) : Pool α β :=
  { pool with workers := pool.workers.set index worker }

def pull? (pool : Pool α β) : Option (Pool α β) :=
  match pool.feeder, pool.input with
  | .idle, [] => some { pool with feeder := .exited }
  | .idle, job :: input => some { pool with feeder := .holding job, input }
  | _, _ => none

def check? (pool : Pool α β) : Option (Pool α β) :=
  match pool.feeder with
  | .holding job =>
    if pool.cancelled then some { pool with feeder := .exited, stoppedEarly := true }
    else some { pool with feeder := .ready job }
  | _ => none

def send? (pool : Pool α β) : Option (Pool α β) :=
  match pool.feeder with
  | .ready job =>
    if pool.allExited then some { pool with feeder := .exited, stoppedEarly := true }
    else if pool.jobs.length < pool.jobCapacity then
      some { pool with feeder := .idle, jobs := pool.jobs ++ [job] }
    else none
  | _ => none

def take? (pool : Pool α β) (index : Nat) : Option (Pool α β) :=
  match pool.workers[index]?, pool.jobs with
  | some .idle, job :: jobs => some { pool.setWorker index (.holding job) with jobs }
  | some .idle, [] =>
    if pool.feeder.isExited then some (pool.setWorker index .exited) else none
  | _, _ => none

def inspect? (pool : Pool α β) (index : Nat) : Option (Pool α β) :=
  match pool.workers[index]? with
  | some (.holding job) =>
    if pool.cancelled then some { pool.setWorker index .exited with stoppedEarly := true }
    else some (pool.setWorker index (.ready job))
  | _ => none

def begin? (pool : Pool α β) (index : Nat) : Option (Pool α β) :=
  match pool.workers[index]? with
  | some (.ready job) =>
    some { pool.setWorker index (.working job) with begun := job :: pool.begun }
  | _ => none

def finish? (setup : Setup α β) (pool : Pool α β) (index : Nat) : Option (Pool α β) :=
  match pool.workers[index]? with
  | some (.working job) =>
    let finished := pool.finished + 1
    some { pool.setWorker index (.done job (setup.work job)) with
      finished
      cancelled := pool.cancelled || setup.stopsAt finished }
  | _ => none

def post? (pool : Pool α β) (index : Nat) : Option (Pool α β) :=
  match pool.workers[index]? with
  | some (.done job result) =>
    if pool.results.length < pool.resultCapacity then
      some { pool.setWorker index .idle with results := pool.results ++ [(job, result)] }
    else none
  | _ => none

def collect? (pool : Pool α β) : Option (Pool α β) :=
  match pool.hand, pool.results with
  | none, entry :: results => some { pool with hand := some entry, results }
  | _, _ => none

def record? (pool : Pool α β) : Option (Pool α β) :=
  match pool.hand with
  | some entry => some { pool with hand := none, recorded := entry :: pool.recorded }
  | none => none

def move? (setup : Setup α β) (pool : Pool α β) : Move → Option (Pool α β)
  | .pull => pool.pull?
  | .check => pool.check?
  | .send => pool.send?
  | .take index => pool.take? index
  | .inspect index => pool.inspect? index
  | .begin index => pool.begin? index
  | .finish index => pool.finish? setup index
  | .post index => pool.post? index
  | .collect => pool.collect?
  | .record => pool.record?
  | .cancel => some { pool with cancelled := true }

/-- One move of the pool itself, and not of those who cancel it from outside. -/
def Step (setup : Setup α β) (pool next : Pool α β) : Prop :=
  ∃ move, move ≠ .cancel ∧ pool.move? setup move = some next

def candidates (workers : Nat) : List Move :=
  [.record, .collect] ++
    (List.range workers).flatMap (fun index =>
      [.post index, .finish index, .begin index, .inspect index, .take index]) ++
    [.send, .check, .pull]

def next? (setup : Setup α β) (pool : Pool α β) : Option (Pool α β) :=
  (candidates pool.workers.length).findSome? (pool.move? setup)

def run (setup : Setup α β) : Nat → Pool α β → Pool α β
  | 0, pool => pool
  | fuel + 1, pool =>
    match pool.next? setup with
    | none => pool
    | some next => run setup fuel next

/-- A job takes ten moves at most, and everyone exits once. -/
def complete (setup : Setup α β) (input : List α) (workers : Nat) (cancelled : Bool) :
    Pool α β :=
  run setup (10 * input.length + workers + 1) (start input workers cancelled)

theorem step_of_next? {setup : Setup α β} {pool next : Pool α β}
    (h : pool.next? setup = some next) : Step setup pool next := by
  obtain ⟨move, hmem, htaken⟩ := List.exists_of_findSome?_eq_some h
  refine ⟨move, ?_, htaken⟩
  rintro rfl
  simp [candidates] at hmem

end Pool

end Conformance
