import Conformance.Proofs.Run.Buckets
import Conformance.Proofs.Run.Final

namespace Conformance

/-! What a summary says of the cases that were to be run. Nobody sees in which
order the workers went on, and the summary says whether a case was left. -/

namespace Pool

variable {α β : Type} {setup : Setup α β} {pool next : Pool α β} {move : Move}

theorem Change.cancelled_eq (change : Change setup pool move next)
    (hmove : move ≠ .cancel) (hsetup : ∀ count, setup.stopsAt count = false) :
    next.cancelled = pool.cancelled := by
  cases change with
  | finished => simp [hsetup]
  | stopped => exact absurd rfl hmove
  | _ => rfl

theorem Step.change (h : Step setup pool next) :
    ∃ move, move ≠ .cancel ∧ Change setup pool move next := by
  obtain ⟨move, hmove, htaken⟩ := h
  exact ⟨move, hmove, change_of_move? htaken⟩

theorem evolves_of_steps (hrun : Relation.ReflTransGen (Step setup) pool next) :
    Evolves pool next :=
  Relation.ReflTransGen.mono (fun _ _ => Step.advances) _ _ hrun

theorem cancelled_of_steps (hsetup : ∀ count, setup.stopsAt count = false)
    (hrun : Relation.ReflTransGen (Step setup) pool next) :
    next.cancelled = pool.cancelled := by
  induction hrun with
  | refl => rfl
  | tail _ hstep ih =>
      obtain ⟨move, hmove, change⟩ := hstep.change
      exact (change.cancelled_eq hmove hsetup).trans ih

theorem faithful_of_steps (hrun : Relation.ReflTransGen (Step setup) pool next)
    (h : Faithful setup pool) : Faithful setup next := by
  induction hrun with
  | refl => exact h
  | tail _ hstep ih =>
      obtain ⟨move, _, change⟩ := hstep.change
      exact ih.change change

theorem recorded_of_steps {input : List α} {workers : Nat} (hworkers : 0 < workers)
    (hsetup : ∀ count, setup.stopsAt count = false)
    (hrun : Relation.ReflTransGen (Step setup) (start input workers false) pool)
    (hfinal : pool.isFinal = true) :
    pool.stoppedEarly = false ∧ (pool.recorded.map Prod.fst).Perm input := by
  have hevolves := evolves_of_steps hrun
  have horderly := (orderly_start input hworkers false).evolves hevolves
  have hcancelled : pool.cancelled = false := cancelled_of_steps hsetup hrun
  have hstopped : pool.stoppedEarly = false := by
    refine Bool.eq_false_iff.mpr fun hstopped => ?_
    simpa [hcancelled] using horderly.flag hstopped
  have haccounted := (accounted_start input workers false).evolves hevolves
  have hbegun := haccounted.begun_perm horderly hfinal hstopped
  exact ⟨hstopped, (haccounted.final horderly hfinal).1.symm.trans hbegun⟩

theorem steps_run (setup : Setup α β) (fuel : Nat) (pool : Pool α β) :
    Relation.ReflTransGen (Step setup) pool (run setup fuel pool) := by
  induction fuel generalizing pool with
  | zero => exact .refl
  | succ fuel ih =>
      unfold run
      split
      · exact .refl
      · rename_i next hnext
        exact .head (step_of_next? hnext) (ih next)

end Pool

namespace Inline

variable {ε : Type}

theorem runFrom_append (executor : Executor ε) (cancelled : Nat → Bool)
    (outcomes : List (Case × Outcome)) (first rest : List Case)
    (hdown : ∀ count < outcomes.length + first.length, cancelled count = false) :
    runFrom executor cancelled outcomes (first ++ rest) =
      runFrom executor cancelled
        ((first.map fun case => (case, (executor.run case).outcome)).reverse ++ outcomes)
        rest := by
  induction first generalizing outcomes with
  | nil => rfl
  | cons case first ih =>
      rw [List.length_cons] at hdown
      have hnow : cancelled outcomes.length = false := hdown _ (by omega)
      rw [List.cons_append, runFrom, hnow, if_neg Bool.false_ne_true, ih]
      · simp
      · intro count hcount
        rw [List.length_cons] at hcount
        exact hdown count (by omega)

theorem run_uncancelled (executor : Executor ε) (cases : List Case) :
    run executor (fun _ => false) cases =
      .ofOutcomes false (cases.map fun case => (case, (executor.run case).outcome)) := by
  have hall := runFrom_append executor (fun _ => false) [] cases [] fun _ _ => rfl
  rw [List.append_nil, List.append_nil] at hall
  rw [run, hall]
  simp [runFrom]

end Inline

namespace Runner

open Pool

/-- The cases that a pool has recorded, oldest first, with their outcomes. -/
def outcomesOf (pool : Pool Case Executor.Executed) : List (Case × Outcome) :=
  pool.recorded.reverse.map fun entry => (entry.1, entry.2.outcome)

theorem outcomesOf_perm (pool : Pool Case Executor.Executed) :
    ((outcomesOf pool).map Prod.fst).Perm (pool.recorded.map Prod.fst) := by
  have hfirst : (outcomesOf pool).map Prod.fst = (pool.recorded.map Prod.fst).reverse := by
    simp [outcomesOf, Function.comp_def]
  rw [hfirst]
  exact List.reverse_perm _

theorem cases_summaryOf_perm (pool : Pool Case Executor.Executed) :
    (summaryOf pool).cases.Perm (pool.recorded.map Prod.fst) :=
  (Summary.cases_ofOutcomes_perm _ _).trans (outcomesOf_perm pool)

variable {ε : Type}

theorem casesOf_outcomesOf_perm {executor : Executor ε} {stopsAt : Nat → Bool}
    {pool : Pool Case Executor.Executed} {cases : List Case}
    (hfaithful : Faithful (setup executor stopsAt) pool)
    (hrecorded : (pool.recorded.map Prod.fst).Perm cases) (outcome : Outcome) :
    (Summary.casesOf (outcomesOf pool) outcome).Perm
      (cases.filter fun case => (executor.run case).outcome = outcome) := by
  rw [Summary.casesOf_eq_filter (fun case => (executor.run case).outcome)]
  · exact ((outcomesOf_perm pool).trans hrecorded).filter _
  · intro entry hentry
    obtain ⟨told, htold, rfl⟩ := List.mem_map.mp hentry
    have hwork := hfaithful.recorded told (List.mem_reverse.mp htold)
    exact congrArg Executor.Executed.outcome hwork

/-- Where nobody stops the run, its summary holds each case once, in the bucket
of its outcome and in order. With cases that differ in file or mode it is the
summary of running them one after the other, whatever the workers do. -/
theorem summaryOf_undisturbed (executor : Executor ε) (cases : List Case) {workers : Nat}
    (hworkers : 0 < workers) {pool : Pool Case Executor.Executed}
    (hrun : Relation.ReflTransGen (Step (setup executor fun _ => false))
      (start cases workers false) pool)
    (hfinal : pool.isFinal = true) :
    (summaryOf pool).cancelled = false ∧ (summaryOf pool).cases.Perm cases ∧
      (∀ outcome,
        ((summaryOf pool).bucket outcome).Pairwise Case.Before ∧
          ((summaryOf pool).bucket outcome).Perm
            (cases.filter fun case => (executor.run case).outcome = outcome)) ∧
        ((cases.map Case.identity).Nodup →
          summaryOf pool = Inline.run executor (fun _ => false) cases) := by
  obtain ⟨hstopped, hrecorded⟩ := recorded_of_steps hworkers (fun _ => rfl) hrun hfinal
  have hbucket := casesOf_outcomesOf_perm
    (faithful_of_steps hrun (faithful_start _ cases workers false)) hrecorded
  have hcancelled : (summaryOf pool).cancelled = false := by simpa [summaryOf] using hstopped
  refine ⟨hcancelled, (cases_summaryOf_perm pool).trans hrecorded, fun outcome => ?_,
    fun hdistinct => ?_⟩
  · rw [summaryOf, Summary.bucket_ofOutcomes]
    exact ⟨Summary.sortCases_pairwise _, (Summary.sortCases_perm _).trans (hbucket outcome)⟩
  · rw [Inline.run_uncancelled]
    refine Summary.eq_of_bucket_eq (fun outcome => ?_) (by simp [summaryOf])
      (by simpa using hcancelled)
    have hinline := Summary.casesOf_eq_filter (fun case => (executor.run case).outcome)
      (cases.map fun case => (case, (executor.run case).outcome)) (by simp) outcome
    simp only [List.map_map, Function.comp_def, List.map_id'] at hinline
    rw [summaryOf, Summary.bucket_ofOutcomes, Summary.bucket_ofOutcomes, hinline]
    refine Summary.sortCases_eq_of_perm ?_ (hbucket outcome)
    exact hdistinct.sublist (List.filter_sublist.map _)

def unmarked (fileName : String) (strict : Bool) : Case where
  metadata := ⟨fileName, "", "", "", "", [], [], [], [], none, .script⟩
  program := ""
  strict := strict

/-- An engine that is lost in strict mode. -/
def lostInStrict : Executor Unit where
  execute := fun case => if case.strict then .crashed "lost" else .returned (.ok ())
  isParseError := fun _ => .returned false
  isResolutionError := fun _ => .returned false
  isRuntimeError := fun _ => .returned true

/-- Two workers, a case that crashes its engine, and one that passes. -/
theorem summaryOf_undisturbed_pair :
    (complete (setup lostInStrict fun _ => false)
        [unmarked "test/b.js" true, unmarked "test/a.js" false] 2 false).isFinal = true ∧
      ([unmarked "test/b.js" true, unmarked "test/a.js" false].map Case.identity).Nodup ∧
      summaryOf (complete (setup lostInStrict fun _ => false)
          [unmarked "test/b.js" true, unmarked "test/a.js" false] 2 false) =
        Inline.run lostInStrict (fun _ => false)
          [unmarked "test/b.js" true, unmarked "test/a.js" false] := by
  have hfinal : (complete (setup lostInStrict fun _ => false)
      [unmarked "test/b.js" true, unmarked "test/a.js" false] 2 false).isFinal = true := by
    decide
  have hdistinct : ([unmarked "test/b.js" true, unmarked "test/a.js" false].map
      Case.identity).Nodup := by decide
  have hall := summaryOf_undisturbed lostInStrict _ (by decide) (steps_run _ _ _) hfinal
  exact ⟨hfinal, hdistinct, hall.2.2.2 hdistinct⟩

/-- However the workers go on, and whenever the flag is raised and by whom, each
case is recorded once or left, and the summary says whether any was left. None
is where the flag is raised once every case has been taken on. -/
theorem cancelled_iff_left (cases : List Case) {workers : Nat} (hworkers : 0 < workers)
    {cancelled : Bool} {pool : Pool Case Executor.Executed}
    (hrun : Evolves (start cases workers cancelled) pool)
    (hfinal : pool.isFinal = true) :
    (summaryOf pool).cases.Perm pool.begun ∧
      (∃ left, (pool.begun ++ left).Perm cases ∧
        ((summaryOf pool).cancelled = true ↔ left ≠ [])) ∧
      ((summaryOf pool).cancelled = false → (summaryOf pool).total = cases.length) ∧
      ∀ middle, Evolves (start cases workers cancelled) middle → Evolves middle pool →
        middle.cancelled = false → middle.untaken = [] →
          (summaryOf pool).cancelled = false := by
  have horderly := (orderly_start cases hworkers cancelled).evolves hrun
  have hsaid : (summaryOf pool).cancelled = pool.stoppedEarly := by simp [summaryOf]
  have haccounted := (accounted_start cases workers cancelled).evolves hrun
  obtain ⟨hbegun, left, hleft, hflag⟩ := haccounted.final horderly hfinal
  have hcases := (cases_summaryOf_perm pool).trans hbegun.symm
  rw [hsaid]
  refine ⟨hcases, ⟨left, hleft, hflag⟩, fun hstopped => ?_,
    fun middle hbefore hafter hraised huntaken => ?_⟩
  · have hall := haccounted.begun_perm horderly hfinal hstopped
    rw [← Summary.length_cases]
    exact (hcases.trans hall).length_eq
  · refine hafter.stoppedEarly_of_untaken_eq_nil huntaken (Bool.eq_false_iff.mpr fun hstopped => ?_)
    have hmiddle := (orderly_start cases hworkers cancelled).evolves hbefore
    simpa [hraised] using hmiddle.flag hstopped

/-- One worker, where the first case stops the run: the second one is left. -/
theorem cancelled_iff_left_stopped :
    (complete (setup lostInStrict (· == 1))
        [unmarked "test/a.js" false, unmarked "test/a.js" true] 1 false).isFinal = true ∧
      (summaryOf (complete (setup lostInStrict (· == 1))
        [unmarked "test/a.js" false, unmarked "test/a.js" true] 1 false)).cancelled = true ∧
      ∃ left, left ≠ [] ∧
        ((complete (setup lostInStrict (· == 1))
          [unmarked "test/a.js" false, unmarked "test/a.js" true] 1 false).begun ++ left).Perm
            [unmarked "test/a.js" false, unmarked "test/a.js" true] := by
  have hfinal : (complete (setup lostInStrict (· == 1))
      [unmarked "test/a.js" false, unmarked "test/a.js" true] 1 false).isFinal = true := by
    decide
  have hcancelled : (summaryOf (complete (setup lostInStrict (· == 1))
      [unmarked "test/a.js" false, unmarked "test/a.js" true] 1 false)).cancelled = true := by
    decide
  have hall := cancelled_iff_left _ (by decide) (evolves_of_steps (steps_run _ _ _)) hfinal
  obtain ⟨left, hleft, hflag⟩ := hall.2.1
  exact ⟨hfinal, hcancelled, left, hflag.mp hcancelled, hleft⟩

end Runner

end Conformance
