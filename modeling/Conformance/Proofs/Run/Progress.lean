import Conformance.Proofs.Run.Complete
import Mathlib.Algebra.GroupWithZero.Nat

namespace Conformance.Pool

/-! A pool neither gets stuck nor goes on for ever: until everyone is done, somebody can
move, and every move brings the end nearer. -/

variable {α β : Type} {setup : Setup α β} {pool next : Pool α β} {move : Move}
  {index workers : Nat}

def Feeder.rank : Feeder α → Nat
  | .idle => 1
  | .holding _ => 10
  | .ready _ => 9
  | .exited => 0

def Worker.rank : Worker α β → Nat
  | .idle => 1
  | .holding _ => 7
  | .ready _ => 6
  | .working _ => 5
  | .done _ _ => 4
  | .exited => 0

def rank (pool : Pool α β) : Nat :=
  10 * pool.input.length + pool.feeder.rank + 7 * pool.jobs.length +
    (pool.workers.map Worker.rank).sum + 2 * pool.results.length + pool.hand.toList.length

theorem rank_start (input : List α) (workers : Nat) (cancelled : Bool) :
    (start input workers cancelled : Pool α β).rank = 10 * input.length + workers + 1 := by
  simp [rank, start, Feeder.rank, Worker.rank]
  omega

theorem sum_map_set (weight : Worker α β → Nat) {all : List (Worker α β)} {old : Worker α β}
    (hold : all[index]? = some old) (new : Worker α β) :
    ((all.set index new).map weight).sum + weight old = (all.map weight).sum + weight new := by
  induction all generalizing index with
  | nil => simp at hold
  | cons worker all ih =>
      cases index with
      | zero =>
          obtain rfl : worker = old := by simpa using hold
          simp only [List.set_cons_zero, List.map_cons, List.sum_cons]
          omega
      | succ index =>
          have hrest := ih (by simpa using hold)
          simp only [List.set_cons_succ, List.map_cons, List.sum_cons]
          omega

theorem Change.rank_lt (change : Change setup pool move next) (hmove : move ≠ .cancel) :
    next.rank < pool.rank := by
  cases change with
  | ended hfeeder | refused hfeeder | passed hfeeder | undelivered hfeeder =>
      simp only [rank, hfeeder, Feeder.rank]
      omega
  | pulled hfeeder hinput =>
      simp only [rank, hfeeder, hinput, Feeder.rank, List.length_cons]
      omega
  | sent hfeeder =>
      simp only [rank, hfeeder, Feeder.rank, List.length_append, List.length_singleton]
      omega
  | @taken _ job _ hworker hjobs =>
      have hsum := sum_map_set Worker.rank hworker (.holding job)
      simp only [rank, setWorker, hjobs, Worker.rank, List.length_cons] at hsum ⊢
      omega
  | left hworker | dropped hworker =>
      have hsum := sum_map_set Worker.rank hworker .exited
      simp only [rank, setWorker, Worker.rank] at hsum ⊢
      omega
  | @cleared _ job hworker =>
      have hsum := sum_map_set Worker.rank hworker (.ready job)
      simp only [rank, setWorker, Worker.rank] at hsum ⊢
      omega
  | @begun _ job hworker =>
      have hsum := sum_map_set Worker.rank hworker (.working job)
      simp only [rank, setWorker, Worker.rank] at hsum ⊢
      omega
  | @finished _ job hworker =>
      have hsum := sum_map_set Worker.rank hworker (.done job (setup.work job))
      simp only [rank, setWorker, Worker.rank] at hsum ⊢
      omega
  | posted hworker =>
      have hsum := sum_map_set Worker.rank hworker .idle
      simp only [rank, setWorker, Worker.rank, List.length_append,
        List.length_singleton] at hsum ⊢
      omega
  | collected hhand hresults =>
      simp only [rank, hhand, hresults, Option.toList, List.length_cons, List.length_nil]
      omega
  | recorded hhand =>
      simp only [rank, hhand, Option.toList, List.length_cons, List.length_nil]
      omega
  | stopped => contradiction

/-- Raising the flag, too, is done once. -/
def measure (pool : Pool α β) : Nat :=
  pool.rank + (!pool.cancelled).toNat

theorem Change.cancelled_of_cancelled (change : Change setup pool move next)
    (h : pool.cancelled = true) : next.cancelled = true := by
  cases change <;> first | exact h | simp [h]

/-- A move brings the end nearer, or it raises a flag that is raised. -/
theorem Change.measure_lt (change : Change setup pool move next) :
    move = .cancel ∧ next = pool ∨ next.measure < pool.measure := by
  by_cases hmove : move = .cancel
  · subst hmove
    cases change with
    | stopped =>
        by_cases hflag : pool.cancelled = true
        · refine .inl ⟨rfl, ?_⟩
          rw [← hflag]
        · refine .inr ?_
          simp [measure, rank, hflag]
  · refine .inr ?_
    have hrank := change.rank_lt hmove
    have hflag : (!next.cancelled).toNat ≤ (!pool.cancelled).toNat := by
      cases hcancelled : pool.cancelled with
      | true => rw [change.cancelled_of_cancelled hcancelled]
      | false => exact Bool.toNat_le _
    rw [measure, measure]
    omega

/-- The workers are as many as they were, and the queues hold no more than they have room
for. -/
structure Bounded (workers : Nat) (pool : Pool α β) : Prop where
  crew : pool.workers.length = workers
  jobs : pool.jobs.length ≤ 4 * workers
  results : pool.results.length ≤ 8 * workers

theorem bounded_start (input : List α) (workers : Nat) (cancelled : Bool) :
    Bounded workers (start input workers cancelled : Pool α β) := by
  refine ⟨?_, ?_, ?_⟩ <;> simp [start]

theorem Bounded.change (h : Bounded workers pool) (change : Change setup pool move next) :
    Bounded workers next := by
  obtain ⟨rfl, hjobs, hresults⟩ := h
  cases change with
  | sent hfeeder hworkers hroom =>
      refine ⟨rfl, ?_, hresults⟩
      rw [List.length_append, List.length_singleton]
      exact hroom
  | taken hworker hmore =>
      refine ⟨by simp [setWorker], ?_, hresults⟩
      rw [hmore, List.length_cons] at hjobs
      exact Nat.le_of_succ_le hjobs
  | posted hworker hroom =>
      refine ⟨by simp [setWorker], hjobs, ?_⟩
      rw [List.length_append, List.length_singleton]
      exact hroom
  | collected hhand hmore =>
      refine ⟨rfl, hjobs, ?_⟩
      rw [hmore, List.length_cons] at hresults
      exact Nat.le_of_succ_le hresults
  | left | dropped | cleared | begun | finished =>
      exact ⟨by simp [setWorker], hjobs, hresults⟩
  | ended | pulled | refused | passed | undelivered | recorded | stopped =>
      exact ⟨rfl, hjobs, hresults⟩

theorem Change.step (change : Change setup pool move next) (hmove : move ≠ .cancel) :
    Step setup pool next :=
  ⟨move, hmove, move?_of_change change⟩

theorem exists_step_of_feeder (setup : Setup α β) (hlive : pool.feeder ≠ .exited)
    (hroom : pool.allExited = true ∨ pool.jobs.length < pool.jobCapacity) :
    ∃ next, Step setup pool next := by
  cases hfeeder : pool.feeder with
  | idle =>
      cases hinput : pool.input with
      | nil => exact ⟨_, (Change.ended hfeeder hinput).step (by simp)⟩
      | cons job input => exact ⟨_, (Change.pulled hfeeder hinput).step (by simp)⟩
  | holding job =>
      cases hflag : pool.cancelled with
      | true => exact ⟨_, (Change.refused hfeeder hflag).step (by simp)⟩
      | false => exact ⟨_, (Change.passed hfeeder hflag).step (by simp)⟩
  | ready job =>
      cases hall : pool.allExited with
      | true => exact ⟨_, (Change.undelivered hfeeder hall).step (by simp)⟩
      | false =>
          rw [hall] at hroom
          exact ⟨_, (Change.sent hfeeder hall (hroom.resolve_left (by simp))).step (by simp)⟩
  | exited => exact absurd hfeeder hlive

theorem exists_step_of_worker (setup : Setup α β) {worker : Worker α β}
    (hworker : pool.workers[index]? = some worker) (hlive : worker ≠ .exited)
    (hroom : pool.results.length < pool.resultCapacity) :
    (∃ next, Step setup pool next) ∨ pool.jobs = [] ∧ pool.feeder ≠ .exited := by
  cases worker with
  | idle =>
      cases hjobs : pool.jobs with
      | cons job jobs => exact .inl ⟨_, (Change.taken hworker hjobs).step (by simp)⟩
      | nil =>
          by_cases hfeeder : pool.feeder = .exited
          · exact .inl ⟨_, (Change.left hworker hjobs hfeeder).step (by simp)⟩
          · exact .inr ⟨rfl, hfeeder⟩
  | holding job =>
      cases hflag : pool.cancelled with
      | true => exact .inl ⟨_, (Change.dropped hworker hflag).step (by simp)⟩
      | false => exact .inl ⟨_, (Change.cleared hworker hflag).step (by simp)⟩
  | ready job => exact .inl ⟨_, (Change.begun hworker).step (by simp)⟩
  | working job => exact .inl ⟨_, (Change.finished hworker).step (by simp)⟩
  | done job result => exact .inl ⟨_, (Change.posted hworker hroom).step (by simp)⟩
  | exited => contradiction

theorem exists_live_worker (h : pool.allExited ≠ true) :
    ∃ (index : Nat) (worker : Worker α β),
      pool.workers[index]? = some worker ∧ worker ≠ .exited := by
  rw [Ne, allExited_iff] at h
  push Not at h
  obtain ⟨worker, hmem, hlive⟩ := h
  obtain ⟨index, hindex⟩ := List.mem_iff_getElem?.mp hmem
  exact ⟨index, worker, hindex, hlive⟩

theorem isFinal_or_exists_step (setup : Setup α β) (pool : Pool α β) :
    pool.isFinal = true ∨ ∃ next, Step setup pool next := by
  cases hhand : pool.hand with
  | some entry => exact .inr ⟨_, (Change.recorded hhand).step (by simp)⟩
  | none =>
      cases hresults : pool.results with
      | cons entry results => exact .inr ⟨_, (Change.collected hhand hresults).step (by simp)⟩
      | nil =>
          by_cases hall : pool.allExited = true
          · by_cases hfeeder : pool.feeder = .exited
            · exact .inl (isFinal_iff.mpr ⟨hfeeder, hall, hresults, hhand⟩)
            · exact .inr (exists_step_of_feeder setup hfeeder (.inl hall))
          · obtain ⟨index, worker, hworker, hlive⟩ := exists_live_worker hall
            have hmanned := (List.getElem?_eq_some_iff.mp hworker).1
            have hroom : pool.results.length < pool.resultCapacity := by
              rw [hresults, resultCapacity, List.length_nil]
              omega
            rcases exists_step_of_worker setup hworker hlive hroom with
              hstep | ⟨hjobs, hfeeder⟩
            · exact .inr hstep
            · refine .inr (exists_step_of_feeder setup hfeeder (.inr ?_))
              rw [hjobs, jobCapacity, List.length_nil]
              omega

theorem not_step_of_isFinal (hfinal : pool.isFinal = true) : ¬ Step setup pool next := by
  obtain ⟨hfeeder, hall, hresults, hhand⟩ := isFinal_iff.mp hfinal
  rintro ⟨move, hmove, htaken⟩
  have hexited {index : Nat} {worker : Worker α β} (hworker : pool.workers[index]? = some worker) :
      worker = .exited :=
    allExited_iff.mp hall worker (List.mem_of_getElem? hworker)
  cases change_of_move? htaken with
  | ended h | pulled h | refused h | passed h | undelivered h | sent h =>
      rw [hfeeder] at h
      cases h
  | taken h | left h | dropped h | cleared h | begun h | finished h | posted h =>
      cases hexited h
  | collected _ h =>
      rw [hresults] at h
      cases h
  | recorded h =>
      rw [hhand] at h
      cases h
  | stopped => contradiction

theorem mem_candidates (change : Change setup pool move next) (hmove : move ≠ .cancel) :
    move ∈ candidates pool.workers.length := by
  have hbound {index : Nat} {worker : Worker α β} (hworker : pool.workers[index]? = some worker) :
      index < pool.workers.length :=
    (List.getElem?_eq_some_iff.mp hworker).1
  cases change with
  | taken h | left h | dropped h | cleared h | begun h | finished h | posted h =>
      simp [candidates, hbound h]
  | stopped => contradiction
  | _ => simp [candidates]

theorem not_step_of_next? (h : pool.next? setup = none) : ¬ Step setup pool next := by
  rintro ⟨move, hmove, htaken⟩
  have hmem := mem_candidates (change_of_move? htaken) hmove
  rw [next?, List.findSome?_eq_none_iff] at h
  rw [h move hmem] at htaken
  cases htaken

theorem isFinal_run (setup : Setup α β) {fuel : Nat} (hfuel : pool.rank ≤ fuel) :
    (run setup fuel pool).isFinal = true := by
  induction fuel generalizing pool with
  | zero =>
      refine (isFinal_or_exists_step setup pool).resolve_right ?_
      rintro ⟨next, move, hmove, htaken⟩
      have hrank := (change_of_move? htaken).rank_lt hmove
      omega
  | succ fuel ih =>
      rw [run]
      split
      · rename_i hnone
        refine (isFinal_or_exists_step setup pool).resolve_right ?_
        rintro ⟨next, hstep⟩
        exact not_step_of_next? hnone hstep
      · rename_i next hnext
        obtain ⟨move, hmove, htaken⟩ := step_of_next? hnext
        have hrank := (change_of_move? htaken).rank_lt hmove
        exact ih (by omega)

/-- Moves are made one after the other; what is done with a job may differ from move to
move. -/
def make? (pool : Pool α β) (schedule : List (Setup α β × Move)) : Option (Pool α β) :=
  schedule.foldlM (fun pool made => pool.move? made.1 made.2) pool

theorem make?_cons_eq_some_iff {made : Setup α β × Move} {schedule : List (Setup α β × Move)} :
    pool.make? (made :: schedule) = some next ↔
      ∃ middle, pool.move? made.1 made.2 = some middle ∧ middle.make? schedule = some next := by
  simp [make?, List.foldlM_cons, Option.bind_eq_some_iff]

/-- Tells the moves of the pool from those of who raises the flag from outside. -/
def Move.isOwn (move : Move) : Bool :=
  move ≠ .cancel

theorem rank_make? {schedule : List (Setup α β × Move)} (h : pool.make? schedule = some next) :
    (schedule.filter (·.2.isOwn)).length + next.rank ≤ pool.rank := by
  induction schedule generalizing pool with
  | nil =>
      obtain rfl : pool = next := by simpa [make?] using h
      simp
  | cons made schedule ih =>
      obtain ⟨middle, htaken, hrest⟩ := make?_cons_eq_some_iff.mp h
      have hmore := ih hrest
      have hchange := change_of_move? htaken
      -- the flag costs nothing, and each other move is paid for by the rank
      by_cases hmove : made.2 = .cancel
      · rw [List.filter_cons_of_neg (by simp [Move.isOwn, hmove])]
        rw [hmove] at hchange
        cases hchange with
        | stopped => exact hmore
      · rw [List.filter_cons_of_pos (by simp [Move.isOwn, hmove]), List.length_cons]
        have hrank := hchange.rank_lt hmove
        omega

/-- At every moment of a run the queues hold no more than they have room for, and somebody
can move unless everyone is done and every result recorded. Each move brings the end nearer,
so that a run is over after ten moves for each job and one for everyone who exits, in
whatever order they are made and whenever the flag is raised. -/
theorem ends_without_deadlock (input : List α) {workers : Nat} (hworkers : 0 < workers)
    (cancelled : Bool) :
    (∀ pool : Pool α β, Evolves (start input workers cancelled) pool →
      Bounded workers pool ∧
        (∀ setup : Setup α β,
          pool.isFinal = true ∧ pool.begun.Perm (pool.recorded.map Prod.fst) ∧
              (∀ next, ¬ Step setup pool next) ∨
            pool.isFinal = false ∧ ∃ next, Step setup pool next) ∧
        ∀ (setup : Setup α β) move next, pool.move? setup move = some next →
          move = .cancel ∧ next = pool ∨ next.measure < pool.measure) ∧
      (∀ (schedule : List (Setup α β × Move)) last,
        (start input workers cancelled).make? schedule = some last →
          (schedule.filter (·.2.isOwn)).length ≤ 10 * input.length + workers + 1) ∧
      ∀ setup : Setup α β, (complete setup input workers cancelled).isFinal = true := by
  refine ⟨fun pool hrun => ⟨?_, fun setup => ?_, ?_⟩, fun schedule last hmade => ?_,
    fun setup => ?_⟩
  · exact hrun.keeps (Bounded workers) (fun change h => h.change change)
      (bounded_start input workers cancelled)
  · cases hfinal : pool.isFinal with
    | true =>
        have horderly := (orderly_start input hworkers cancelled).evolves hrun
        have haccounted := (accounted_start input workers cancelled).evolves hrun
        exact .inl ⟨rfl, (haccounted.final horderly hfinal).1,
          fun next => not_step_of_isFinal hfinal⟩
    | false =>
        have hstep := isFinal_or_exists_step setup pool
        rw [hfinal] at hstep
        exact .inr ⟨rfl, hstep.resolve_left (by simp)⟩
  · intro setup move next htaken
    exact (change_of_move? htaken).measure_lt
  · have hrank := rank_make? hmade
    rw [rank_start] at hrank
    omega
  · exact isFinal_run setup (rank_start input workers cancelled).le

/-- Two workers and an engine that crashes at the first case, which also raises the flag. -/
theorem ends_without_deadlock_lost :
    (complete (Runner.setup Runner.lostInStrict (· == 1))
        [Runner.unmarked "test/b.js" true, Runner.unmarked "test/a.js" false] 2
          false).isFinal = true ∧
      ∀ pool : Pool Case Executor.Executed,
        Evolves (start [Runner.unmarked "test/b.js" true, Runner.unmarked "test/a.js" false] 2
          false) pool →
        pool.jobs.length ≤ 8 ∧ pool.results.length ≤ 16 ∧
          (pool.isFinal = false → ∃ next,
            Step (Runner.setup Runner.lostInStrict (· == 1)) pool next) := by
  obtain ⟨hpools, -, hcomplete⟩ := ends_without_deadlock (α := Case)
    (β := Executor.Executed)
    [Runner.unmarked "test/b.js" true, Runner.unmarked "test/a.js" false] (by decide : 0 < 2)
    false
  refine ⟨hcomplete _, fun pool hrun => ?_⟩
  obtain ⟨hbounded, hstep, -⟩ := hpools pool hrun
  refine ⟨hbounded.jobs, hbounded.results, fun hfinal => ?_⟩
  rcases hstep (Runner.setup Runner.lostInStrict (· == 1)) with hdone | hstep
  · rw [hdone.1] at hfinal
    cases hfinal
  · exact hstep.2

end Conformance.Pool
