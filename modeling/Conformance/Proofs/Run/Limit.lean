import Conformance.Proofs.Run.Stopping

namespace Conformance

/-! Runs that are stopped by one of their own jobs, once so many are done. -/

namespace Pool

variable {α β : Type} {setup : Setup α β} {pool next : Pool α β} {move : Move}
  {index limit workers : Nat} {input : List α} {worker : Worker α β}

def Worker.atWork : Worker α β → Nat
  | .working _ => 1
  | _ => 0

theorem sum_poised_add_sum_atWork_le (all : List (Worker α β)) :
    (all.map Worker.poised).sum + (all.map Worker.atWork).sum ≤ all.length := by
  induction all with
  | nil => exact Nat.le_refl 0
  | cons worker all ih =>
      have hone : worker.poised + worker.atWork ≤ 1 := by
        cases worker <;> simp [Worker.poised, Worker.atWork]
      simp only [List.map_cons, List.sum_cons, List.length_cons]
      omega

/-- The flag goes up when the last of so many jobs is done. -/
structure StopsAfter (setup : Setup α β) (limit : Nat) : Prop where
  positive : 0 < limit
  before : ∀ count < limit, setup.stopsAt count = false
  reached : setup.stopsAt limit = true

theorem StopsAfter.le_or_stopsAt_iff (h : StopsAfter setup limit) {count : Nat} :
    limit ≤ count ∨ setup.stopsAt (count + 1) = true ↔ limit ≤ count + 1 := by
  rcases Nat.lt_trichotomy (count + 1) limit with hlt | rfl | hgt
  · simp [h.before _ hlt]
    omega
  · simp [h.reached]
  · simp [Nat.le_of_lt_succ hgt, hgt.le]

/-- What is begun is done or worked on, and as long as the flag is down there is room below
the limit for one more. -/
structure Limited (limit : Nat) (pool : Pool α β) : Prop where
  begun : pool.begun.length = pool.finished + (pool.workers.map Worker.atWork).sum
  flag : pool.cancelled = true ↔ limit ≤ pool.finished
  room : pool.begun.length + (pool.workers.map Worker.poised).sum < limit + pool.workers.length

theorem limited_start (hlimit : 0 < limit) (input : List α) (workers : Nat) :
    Limited limit (start input workers false : Pool α β) := by
  refine ⟨?_, ?_, ?_⟩
  · simp [start, Worker.atWork]
  · simp [start, Nat.ne_of_gt hlimit]
  · simp [start, Worker.poised, hlimit]

theorem Limited.setWorker (h : Limited limit pool) {old : Worker α β}
    (hold : pool.workers[index]? = some old) (new : Worker α β) (hpoised : old.poised = new.poised)
    (hwork : old.atWork = new.atWork) : Limited limit (pool.setWorker index new) := by
  have hready := sum_map_set Worker.poised hold new
  have hbusy := sum_map_set Worker.atWork hold new
  obtain ⟨hbegun, hflag, hroom⟩ := h
  refine ⟨?_, hflag, ?_⟩
  · simp only [Pool.setWorker]
    omega
  · simp only [Pool.setWorker, List.length_set]
    omega

theorem Limited.change (hsetup : StopsAfter setup limit) (h : Limited limit pool)
    (change : Change setup pool move next) (hmove : move ≠ .cancel) : Limited limit next := by
  have ⟨hbegun, hflag, hroom⟩ := h
  cases change with
  | @taken _ job _ hworker =>
      have hnext := h.setWorker hworker (.holding job) rfl rfl
      exact ⟨hnext.begun, hnext.flag, hnext.room⟩
  | left hworker => exact h.setWorker hworker .exited rfl rfl
  | dropped hworker =>
      have hnext := h.setWorker hworker .exited rfl rfl
      exact ⟨hnext.begun, hnext.flag, hnext.room⟩
  | posted hworker =>
      have hnext := h.setWorker hworker .idle rfl rfl
      exact ⟨hnext.begun, hnext.flag, hnext.room⟩
  | @cleared index job hworker hdown =>
      have hwork := sum_map_set Worker.atWork hworker (.ready job)
      simp only [Worker.atWork] at hwork
      -- the jobs taken on and not done are no more than the workers, and fewer than the
      -- limit are done
      have hcrew := sum_poised_add_sum_atWork_le (pool.workers.set index (.ready job))
      have hbelow : pool.finished < limit := by
        rw [← Nat.not_le, ← hflag, hdown]
        exact Bool.false_ne_true
      rw [List.length_set] at hcrew
      refine ⟨?_, hflag, ?_⟩
      · simp only [Pool.setWorker]
        omega
      · simp only [Pool.setWorker, List.length_set]
        omega
  | @begun _ job hworker =>
      have hpoised := sum_map_set Worker.poised hworker (.working job)
      have hwork := sum_map_set Worker.atWork hworker (.working job)
      simp only [Worker.poised, Worker.atWork] at hpoised hwork
      refine ⟨?_, hflag, ?_⟩
      · simp only [Pool.setWorker, List.length_cons]
        omega
      · simp only [Pool.setWorker, List.length_set, List.length_cons]
        omega
  | @finished _ job hworker =>
      have hpoised := sum_map_set Worker.poised hworker (.done job (setup.work job))
      have hwork := sum_map_set Worker.atWork hworker (.done job (setup.work job))
      simp only [Worker.poised, Worker.atWork] at hpoised hwork
      refine ⟨?_, ?_, ?_⟩
      · simp only [Pool.setWorker]
        omega
      · rw [Bool.or_eq_true, hflag]
        exact hsetup.le_or_stopsAt_iff
      · simp only [Pool.setWorker, List.length_set]
        omega
  | stopped => exact absurd rfl hmove
  | ended | pulled | refused | passed | undelivered | sent | collected | recorded =>
      exact ⟨hbegun, hflag, hroom⟩

theorem limited_of_steps (hsetup : StopsAfter setup limit)
    (hrun : Relation.ReflTransGen (Step setup) pool next) (h : Limited limit pool) :
    Limited limit next := by
  induction hrun with
  | refl => exact h
  | tail _ hstep ih =>
      obtain ⟨move, hmove, change⟩ := hstep.change
      exact ih.change hsetup change hmove

/-- The one worker, the queue and the feeder hold, in this order, what comes next in the
input, as long as they go on; what is dropped by one of them who exits is behind all that is
taken on. -/
structure InOrder (input : List α) (worker : Worker α β) (pool : Pool α β) : Prop where
  alone : pool.workers = [worker]
  taken : pool.begun.reverse ++ worker.taken ++ worker.held <+: input
  queued : worker ≠ .exited →
    pool.begun.reverse ++ worker.taken ++ worker.held ++ pool.jobs <+: input
  fed : worker ≠ .exited → pool.feeder ≠ .exited →
    pool.begun.reverse ++ worker.taken ++ worker.held ++ pool.jobs ++ pool.feeder.held ++
      pool.input = input

theorem inOrder_start (input : List α) (cancelled : Bool) :
    InOrder input .idle (start input 1 cancelled : Pool α β) := by
  refine ⟨rfl, ?_, fun _ => ?_, fun _ _ => ?_⟩ <;>
    simp [start, Worker.taken, Worker.held, Feeder.held]

theorem InOrder.change (h : InOrder input worker pool) (change : Change setup pool move next) :
    ∃ worker, InOrder input worker next := by
  obtain ⟨halone, htaken, hqueued, hfed⟩ := h
  have hone {index : Nat} {other : Worker α β} (hother : pool.workers[index]? = some other) :
      index = 0 ∧ worker = other := by
    rw [halone, List.getElem?_singleton, Option.ite_none_right_eq_some] at hother
    exact hother.imp_right Option.some.inj
  have hset (new : Worker α β) : (pool.setWorker 0 new).workers = [new] := by
    rw [setWorker, halone]
    rfl
  cases change with
  | ended | refused | undelivered =>
      exact ⟨worker, halone, htaken, hqueued, fun _ hfeeder => absurd rfl hfeeder⟩
  | pulled hfeeder hinput =>
      refine ⟨worker, halone, htaken, hqueued, fun hlive _ => ?_⟩
      simpa [hfeeder, hinput, Feeder.held] using hfed hlive
  | passed hfeeder =>
      refine ⟨worker, halone, htaken, hqueued, fun hlive _ => ?_⟩
      simpa [hfeeder, Feeder.held] using hfed hlive
  | sent hfeeder =>
      have hall (hlive : worker ≠ .exited) := hfed hlive (by simp [hfeeder])
      refine ⟨worker, halone, htaken, fun hlive => ⟨pool.input, ?_⟩, fun hlive _ => ?_⟩
      · simpa [hfeeder, Feeder.held] using hall hlive
      · simpa [hfeeder, Feeder.held] using hall hlive
  | @taken _ job jobs hworker hjobs =>
      obtain ⟨rfl, rfl⟩ := hone hworker
      have hnext := hqueued (by simp)
      refine ⟨.holding job, hset _, ?_, fun _ => ?_, fun _ hlive => ?_⟩
      · refine List.IsPrefix.trans ⟨jobs, ?_⟩ hnext
        simp [setWorker, hjobs, Worker.taken, Worker.held]
      · simpa [setWorker, hjobs, Worker.taken, Worker.held] using hnext
      · simpa [setWorker, hjobs, Worker.taken, Worker.held] using hfed (by simp) hlive
  | left hworker =>
      obtain ⟨rfl, rfl⟩ := hone hworker
      exact ⟨.exited, hset _, htaken, fun hlive => absurd rfl hlive,
        fun hlive => absurd rfl hlive⟩
  | @dropped _ job hworker =>
      obtain ⟨rfl, rfl⟩ := hone hworker
      refine ⟨.exited, hset _, ?_, fun hlive => absurd rfl hlive, fun hlive => absurd rfl hlive⟩
      refine List.IsPrefix.trans ⟨[job], ?_⟩ htaken
      simp [setWorker, Worker.taken, Worker.held]
  | @cleared _ job hworker =>
      obtain ⟨rfl, rfl⟩ := hone hworker
      refine ⟨.ready job, hset _, ?_, fun _ => ?_, fun _ hlive => ?_⟩
      · simpa [setWorker, Worker.taken, Worker.held] using htaken
      · simpa [setWorker, Worker.taken, Worker.held] using hqueued (by simp)
      · simpa [setWorker, Worker.taken, Worker.held] using hfed (by simp) hlive
  | @begun _ job hworker =>
      obtain ⟨rfl, rfl⟩ := hone hworker
      refine ⟨.working job, hset _, ?_, fun _ => ?_, fun _ hlive => ?_⟩
      · simpa [setWorker, Worker.taken, Worker.held] using htaken
      · simpa [setWorker, Worker.taken, Worker.held] using hqueued (by simp)
      · simpa [setWorker, Worker.taken, Worker.held] using hfed (by simp) hlive
  | @finished _ job hworker =>
      obtain ⟨rfl, rfl⟩ := hone hworker
      exact ⟨.done job (setup.work job), hset _, htaken, fun _ => hqueued (by simp),
        fun _ => hfed (by simp)⟩
  | posted hworker =>
      obtain ⟨rfl, rfl⟩ := hone hworker
      exact ⟨.idle, hset _, htaken, fun _ => hqueued (by simp), fun _ => hfed (by simp)⟩
  | collected | recorded | stopped => exact ⟨worker, halone, htaken, hqueued, hfed⟩

theorem exists_inOrder_of_evolves {cancelled : Bool}
    (hrun : Evolves (start input 1 cancelled) pool) : ∃ worker, InOrder input worker pool :=
  hrun.keeps (fun pool => ∃ worker, InOrder input worker pool)
    (fun change h => h.elim fun _ h => h.change change) ⟨.idle, inOrder_start input cancelled⟩

theorem begun_isPrefix {cancelled : Bool} (hrun : Evolves (start input 1 cancelled) pool) :
    pool.begun.reverse <+: input := by
  obtain ⟨worker, horder⟩ := exists_inOrder_of_evolves hrun
  refine List.IsPrefix.trans ?_ horder.taken
  rw [List.append_assoc]
  exact List.prefix_append _ _

theorem begun_of_steps_one (hsetup : StopsAfter setup limit)
    (hrun : Relation.ReflTransGen (Step setup) (start input 1 false) pool) :
    pool.begun.reverse <+: input.take limit ∧
      (pool.isFinal = true → pool.begun.reverse = input.take limit ∧
        (pool.stoppedEarly = true ↔ limit < input.length)) := by
  have hevolves := evolves_of_steps hrun
  have hstart := begun_isPrefix hevolves
  have hlimited := limited_of_steps hsetup hrun (limited_start hsetup.positive input 1)
  obtain ⟨worker, horder⟩ := exists_inOrder_of_evolves hevolves
  have hbelow : pool.begun.reverse.length ≤ limit := by
    have hroom := hlimited.room
    rw [horder.alone, List.length_singleton] at hroom
    rw [List.length_reverse]
    omega
  have htake : pool.begun.reverse <+: input.take limit :=
    List.prefix_take_iff.mpr ⟨hstart, hbelow⟩
  refine ⟨htake, fun hfinal => ?_⟩
  have horderly := (orderly_start input Nat.one_pos false).evolves hevolves
  have haccounted := (accounted_start input 1 false).evolves hevolves
  rw [List.length_reverse] at hbelow
  cases hstopped : pool.stoppedEarly with
  | false =>
      have hlength := (haccounted.begun_perm horderly hfinal hstopped).length_eq
      have hall : pool.begun.reverse = input :=
        hstart.eq_of_length (by rw [List.length_reverse, hlength])
      rw [List.take_of_length_le (hlength ▸ hbelow)]
      exact ⟨hall, by simp [← hlength, hbelow]⟩
  | true =>
      obtain ⟨-, left, hleft, hflag⟩ := haccounted.final horderly hfinal
      have hreached := hlimited.flag.mp (horderly.flag hstopped)
      have hbegun := hlimited.begun
      have hlength := hleft.length_eq
      have hmore : 0 < left.length := List.length_pos_of_ne_nil (hflag.mp hstopped)
      rw [List.length_append] at hlength
      have htaken : (input.take limit).length = limit := by
        rw [List.length_take]
        omega
      refine ⟨htake.eq_of_length ?_, ?_⟩
      · rw [htaken, List.length_reverse]
        omega
      · simp only [true_iff]
        omega

end Pool

namespace Inline

variable {ε : Type} {cancelled : Nat → Bool} {limit : Nat}

theorem run_limited (executor : Executor ε) (cases : List Case)
    (hdown : ∀ count < limit, cancelled count = false) (hup : cancelled limit = true) :
    run executor cancelled cases =
      .ofOutcomes (decide (limit < cases.length))
        ((cases.take limit).map fun case => (case, (executor.run case).outcome)) := by
  have hfirst := runFrom_append executor cancelled [] (cases.take limit) (cases.drop limit) ?_
  · rw [List.take_append_drop, List.append_nil] at hfirst
    rw [run, hfirst]
    by_cases hlong : limit < cases.length
    · have hcount : ((cases.take limit).map fun case =>
          (case, (executor.run case).outcome)).reverse.length = limit := by
        rw [List.length_reverse, List.length_map, List.length_take]
        omega
      rw [List.drop_eq_getElem_cons hlong, runFrom, hcount, if_pos hup, decide_eq_true hlong]
      exact congrArg (Summary.ofOutcomes true) (List.reverse_reverse _)
    · rw [List.drop_eq_nil_of_le (Nat.le_of_not_lt hlong), runFrom, decide_eq_false hlong]
      exact congrArg (Summary.ofOutcomes false) (List.reverse_reverse _)
  · intro count hcount
    rw [List.length_nil, List.length_take] at hcount
    exact hdown count (by omega)

end Inline

namespace Runner

open Pool

variable {ε : Type}

theorem summaryOf_final {cases : List Case} {workers : Nat} (hworkers : 0 < workers)
    {cancelled : Bool} {pool : Pool Case Executor.Executed}
    (hrun : Evolves (start cases workers cancelled) pool) (hfinal : pool.isFinal = true) :
    (summaryOf pool).cases.Perm pool.begun ∧ (summaryOf pool).cancelled = pool.stoppedEarly ∧
      ∃ left, (pool.begun ++ left).Perm cases ∧ (pool.stoppedEarly = true ↔ left ≠ []) := by
  have horderly := (orderly_start cases hworkers cancelled).evolves hrun
  have haccounted := (accounted_start cases workers cancelled).evolves hrun
  obtain ⟨hbegun, hleft⟩ := haccounted.final horderly hfinal
  exact ⟨(cases_summaryOf_perm pool).trans hbegun.symm, by simp [summaryOf], hleft⟩

/-- Once the flag is up, a worker begins another case only if it had looked at the flag
before, and none begins two. Where it is up from the start nothing is begun. A single worker
that raises it with a given case begins the cases up to that one, in their order and however
fast the others are, as does a run without workers. -/
theorem begun_behind_flag (executor : Executor ε) (cases : List Case) {workers : Nat}
    (hworkers : 0 < workers) :
    (∀ cancelled pool schedule last,
      Evolves (start cases workers cancelled : Pool Case Executor.Executed) pool →
        pool.cancelled = true → pool.make? schedule = some last →
          (beginners schedule).Nodup ∧ (beginners schedule).length ≤ workers ∧
            (∀ index ∈ beginners schedule,
              ∃ case, pool.workers[index]? = some (.ready case)) ∧
            last.begun.length = pool.begun.length + (beginners schedule).length) ∧
      (∀ pool, Evolves (start cases workers true) pool →
        pool.begun = [] ∧
          (pool.isFinal = true →
            (summaryOf pool).cases = [] ∧
              ((summaryOf pool).cancelled = true ↔ cases ≠ []))) ∧
      (∀ limit stopsAt pool, StopsAfter (setup executor stopsAt) limit →
        Relation.ReflTransGen (Step (setup executor stopsAt)) (start cases 1 false) pool →
          pool.begun.reverse <+: cases.take limit ∧
            (pool.isFinal = true →
              pool.begun.reverse = cases.take limit ∧
                (summaryOf pool).cases.Perm (cases.take limit) ∧
                  ((summaryOf pool).cancelled = true ↔ limit < cases.length))) ∧
      ∀ (limit : Nat) (cancelled : Nat → Bool), (∀ count < limit, cancelled count = false) →
        cancelled limit = true →
          Inline.run executor cancelled cases =
            .ofOutcomes (decide (limit < cases.length))
              ((cases.take limit).map fun case => (case, (executor.run case).outcome)) := by
  refine ⟨fun cancelled pool schedule last hrun hflag hmade => ?_, fun pool hrun => ?_,
    fun limit stopsAt pool hsetup hrun => ?_,
    fun limit cancelled => Inline.run_limited executor cases⟩
  · obtain ⟨hnodup, hready, hcrew⟩ := beginners_of_cancelled hmade hflag
    have hbounded := hrun.keeps (Bounded workers) (fun change h => h.change change)
      (bounded_start cases workers cancelled)
    rw [hbounded.crew] at hcrew
    exact ⟨hnodup, hcrew, hready, length_begun_make? hmade⟩
  · have hbegun := begun_of_start_cancelled hrun
    refine ⟨hbegun, fun hfinal => ?_⟩
    obtain ⟨hcases, hsaid, left, hleft, hflag⟩ := summaryOf_final hworkers hrun hfinal
    rw [hbegun] at hcases hleft
    rw [hsaid, hflag, ← List.length_pos_iff, ← List.length_pos_iff, ← hleft.length_eq]
    exact ⟨List.perm_nil.mp hcases, Iff.rfl⟩
  · obtain ⟨hstart, hlast⟩ := begun_of_steps_one hsetup hrun
    refine ⟨hstart, fun hfinal => ?_⟩
    obtain ⟨hbegun, hstopped⟩ := hlast hfinal
    obtain ⟨hcases, hsaid, -⟩ := summaryOf_final Nat.one_pos (evolves_of_steps hrun) hfinal
    rw [hsaid, ← hbegun]
    exact ⟨rfl, hcases.trans (List.reverse_perm _).symm, hstopped⟩

/-- One worker that the first of two cases stops. -/
theorem begun_behind_flag_first :
    (complete (setup lostInStrict (· == 1))
        [unmarked "test/a.js" false, unmarked "test/a.js" true] 1 false).isFinal = true ∧
      (complete (setup lostInStrict (· == 1))
          [unmarked "test/a.js" false, unmarked "test/a.js" true] 1 false).begun.reverse =
        [unmarked "test/a.js" false] ∧
      (summaryOf (complete (setup lostInStrict (· == 1))
        [unmarked "test/a.js" false, unmarked "test/a.js" true] 1 false)).cancelled = true := by
  have hfinal : (complete (setup lostInStrict (· == 1))
      [unmarked "test/a.js" false, unmarked "test/a.js" true] 1 false).isFinal = true := by
    decide
  have hsetup : StopsAfter (setup lostInStrict (· == 1)) 1 := ⟨by decide, by decide, by decide⟩
  obtain ⟨-, -, hone, -⟩ := begun_behind_flag lostInStrict
    [unmarked "test/a.js" false, unmarked "test/a.js" true] (by decide : 0 < 1)
  obtain ⟨hbegun, -, hcancelled⟩ := (hone 1 _ _ hsetup (steps_run _ _ _)).2 hfinal
  exact ⟨hfinal, hbegun, hcancelled.mpr (by decide)⟩

end Runner

end Conformance
