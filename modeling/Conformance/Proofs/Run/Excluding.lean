import Conformance.Proofs.Run.Crashes
import Conformance.Proofs.Run.Progress

namespace Conformance

/-! Excluding cases from a run that nobody stops. The rules are asked before the hook is, and
take a case that they exclude to a bucket of those that are to go wrong; all other cases stay
where they are. -/

namespace Summary

/-- Each case is in the bucket of its outcome, as many times as it was given. -/
structure Holds (outcomeOf : Case → Outcome) (cases : List Case) (summary : Summary) : Prop where
  recorded : summary.cases.Perm cases
  bucket : ∀ outcome,
    (summary.bucket outcome).Perm (cases.filter fun case => outcomeOf case = outcome)

variable {outcomeOf other : Case → Outcome} {cases : List Case} {summary second : Summary}

theorem Holds.outcome_eq (h : summary.Holds outcomeOf cases) {outcome : Outcome} {case : Case}
    (hcase : case ∈ summary.bucket outcome) : outcomeOf case = outcome := by
  have hmem := (h.bucket outcome).mem_iff.mp hcase
  simpa using List.of_mem_filter hmem

theorem Holds.filter_perm (h : summary.Holds outcomeOf cases) (among : Case → Bool)
    (outcome : Outcome) :
    ((summary.bucket outcome).filter among).Perm
      (cases.filter fun case => among case && outcomeOf case = outcome) := by
  have hfilter := (h.bucket outcome).filter among
  rwa [List.filter_filter] at hfilter

theorem Holds.filter_congr (h : summary.Holds outcomeOf cases) (h' : second.Holds other cases)
    (among : Case → Bool) (hagree : ∀ case, among case = true → outcomeOf case = other case)
    (outcome : Outcome) :
    ((summary.bucket outcome).filter among).Perm ((second.bucket outcome).filter among) := by
  have hsame : (cases.filter fun case => among case && outcomeOf case = outcome) =
      cases.filter fun case => among case && other case = outcome := by
    refine List.filter_congr fun case _ => ?_
    cases hamong : among case with
    | false => rfl
    | true => rw [hagree case hamong]
  exact (hsame ▸ h.filter_perm among outcome).trans (h'.filter_perm among outcome).symm

theorem mem_problems_iff {problem : Classification × Case} :
    problem ∈ summary.problems ↔ problem.2 ∈ summary.bucket (.disallowed problem.1) := by
  obtain ⟨classification, case⟩ := problem
  simp only [problems, List.mem_flatMap, List.mem_map, Prod.mk.injEq]
  constructor
  · rintro ⟨_, _, _, hcase, rfl, rfl⟩
    exact hcase
  · exact fun hcase => ⟨_, classification.mem_all, case, hcase, rfl, rfl⟩

theorem cases_problems (summary : Summary) :
    summary.problems.map Prod.snd =
      Classification.all.flatMap fun c => summary.bucket (.disallowed c) := by
  simp [problems, List.map_flatMap, Function.comp_def, bucket]

theorem hasProblems_iff : summary.hasProblems = true ↔ summary.problems ≠ [] := by
  have hlength : summary.problems.length = summary.disallowed.size := by
    simp [problems, Classification.all, Buckets.size, Buckets.get, Nat.add_assoc]
  rw [← List.length_pos_iff, hlength, hasProblems, Buckets.isEmpty]
  simp [Nat.pos_iff_ne_zero]

theorem Holds.problems_perm (h : summary.Holds outcomeOf cases) :
    (summary.problems.map Prod.snd).Perm
      (cases.filter fun case => !(outcomeOf case).isAllowed) := by
  have hallowed (c : Classification) :
      (summary.bucket (.allowed c)).filter (fun case => !(outcomeOf case).isAllowed) = [] :=
    List.filter_eq_nil_iff.mpr fun case hcase => by simp [h.outcome_eq hcase, Outcome.isAllowed]
  have hdisallowed (c : Classification) :
      (summary.bucket (.disallowed c)).filter (fun case => !(outcomeOf case).isAllowed) =
        summary.bucket (.disallowed c) :=
    List.filter_eq_self.mpr fun case hcase => by simp [h.outcome_eq hcase, Outcome.isAllowed]
  have hproblems : summary.problems.map Prod.snd =
      summary.cases.filter fun case => !(outcomeOf case).isAllowed := by
    rw [cases_problems, Summary.cases, Outcome.all]
    simp [List.filter_flatMap, List.flatMap_append, List.flatMap_map, hallowed, hdisallowed]
  rw [hproblems]
  exact h.recorded.filter _

theorem Holds.hasProblems_iff (h : summary.Holds outcomeOf cases) :
    summary.hasProblems = true ↔ ∃ case ∈ cases, (outcomeOf case).isAllowed = false := by
  rw [Summary.hasProblems_iff, ← List.length_pos_iff, ← List.length_map Prod.snd,
    h.problems_perm.length_eq, List.length_filter_pos_iff]
  simp

end Summary

namespace Executor

variable {ε : Type}

theorem outcome_excluding (engine : Exclusion.Engine) (executor : Executor ε) (case : Case) :
    ((executor.excluding engine).run case).outcome =
      classify (executor.observed case) (executor.throws case)
        (engine.excludes case || executor.ignores case) := by
  have hignores : (executor.excluding engine).ignores case =
      (engine.excludes case || executor.ignores case) := by
    cases hexcluded : engine.excludes case <;>
      simp [ignores, excluding, hexcluded, Reply.value?]
  rw [run_eq, hignores]
  rfl

theorem ignores_iff {executor : Executor ε} {case : Case} :
    executor.ignores case = true ↔ executor.isIgnored case = .returned true := by
  cases hignored : executor.isIgnored case <;> simp [ignores, hignored, Reply.value?]

end Executor

namespace Runner

open Pool

variable {ε : Type}

/-- What comes of a run that nobody stops, whatever its workers do, or if there are none. -/
inductive Undisturbed (executor : Executor ε) (cases : List Case) : Summary → Prop where
  | pooled {workers : Nat} {pool : Pool Case Executor.Executed} (hworkers : 0 < workers)
      (hrun : Relation.ReflTransGen (Step (setup executor fun _ => false))
        (start cases workers false) pool)
      (hfinal : pool.isFinal = true) : Undisturbed executor cases (summaryOf pool)
  | inline : Undisturbed executor cases (Inline.run executor (fun _ => false) cases)

theorem undisturbed_run (runner : Runner) (hworkers : 0 < runner.parallelism)
    (executor : Executor ε) (cases : List Case) :
    Undisturbed executor cases (runner.run executor cases) :=
  .pooled hworkers (steps_run _ _ _) (isFinal_run _ (rank_start cases _ false).le)

theorem Undisturbed.holds {executor : Executor ε} {cases : List Case} {summary : Summary}
    (h : Undisturbed executor cases summary) :
    summary.Holds (fun case => (executor.run case).outcome) cases := by
  cases h with
  | pooled hworkers hrun hfinal =>
      obtain ⟨-, hrecorded⟩ := recorded_of_steps hworkers (fun _ => rfl) hrun hfinal
      have hfaithful := faithful_of_steps hrun (faithful_start _ cases _ false)
      refine ⟨(cases_summaryOf_perm _).trans hrecorded, fun outcome => ?_⟩
      rw [summaryOf, Summary.bucket_ofOutcomes]
      exact (Summary.sortCases_perm _).trans (casesOf_outcomesOf_perm hfaithful hrecorded outcome)
  | inline =>
      rw [Inline.run_uncancelled]
      refine ⟨(Summary.cases_ofOutcomes_perm _ _).trans (by simp [Function.comp_def]),
        fun outcome => ?_⟩
      rw [Summary.bucket_ofOutcomes,
        Summary.casesOf_eq_filter (fun case => (executor.run case).outcome) _ (by simp)]
      simpa [Function.comp_def] using Summary.sortCases_perm _

/-- Some rules take the cases that they exclude to a bucket of those that are to go wrong,
after the same execution; the others stay where they are. The problems are the cases that are
excluded or ignored, each once. -/
theorem excluding_moves_excluded (engine : Exclusion.Engine) (executor : Executor ε)
    {cases : List Case} {bare wrapped : Summary} (hbare : Undisturbed executor cases bare)
    (hwrapped : Undisturbed (executor.excluding engine) cases wrapped) :
    bare.cases.Perm cases ∧ wrapped.cases.Perm cases ∧
      (∀ outcome,
        (bare.bucket outcome).Perm
          (cases.filter fun case =>
            classify (executor.observed case) (executor.throws case) (executor.ignores case) =
              outcome)) ∧
      (∀ outcome,
        ((bare.bucket outcome).filter fun case => !engine.excludes case).Perm
          ((wrapped.bucket outcome).filter fun case => !engine.excludes case)) ∧
      (∀ outcome,
        ((wrapped.bucket outcome).filter engine.excludes).Perm
          (cases.filter fun case => engine.excludes case &&
            .disallowed ((executor.observed case).whenDisallowed (executor.throws case)) =
              outcome)) ∧
      (wrapped.hasProblems = true ↔
        ∃ case ∈ cases,
          engine.excludes case = true ∨ executor.isIgnored case = .returned true) ∧
      (wrapped.problems.map Prod.snd).Perm
        (cases.filter fun case => engine.excludes case || executor.ignores case) ∧
      ∀ problem ∈ wrapped.problems,
        problem.1 = (executor.observed problem.2).whenDisallowed (executor.throws problem.2) := by
  have hheld := hwrapped.holds
  refine ⟨hbare.holds.recorded, hheld.recorded, fun outcome => ?_, fun outcome => ?_,
    fun outcome => ?_, ?_, ?_, fun problem hproblem => ?_⟩
  · simpa only [Executor.run_eq] using hbare.holds.bucket outcome
  · refine hbare.holds.filter_congr hheld _ (fun case hcase => ?_) outcome
    have hkept : engine.excludes case = false := by simpa using hcase
    rw [executor.outcome_excluding, hkept, Bool.false_or, Executor.run_eq]
  · refine (hheld.filter_perm engine.excludes outcome).trans
      (List.Perm.of_eq (List.filter_congr fun case _ => ?_))
    cases hexcluded : engine.excludes case with
    | false => rfl
    | true =>
        rw [executor.outcome_excluding, hexcluded]
        rfl
  · rw [hheld.hasProblems_iff]
    simp only [executor.outcome_excluding, isAllowed_classify, Bool.not_eq_false', Bool.or_eq_true,
      Executor.ignores_iff]
  · refine hheld.problems_perm.trans (List.Perm.of_eq (List.filter_congr fun case _ => ?_))
    rw [executor.outcome_excluding, isAllowed_classify, Bool.not_not]
  · have houtcome := hheld.outcome_eq (Summary.mem_problems_iff.mp hproblem)
    rw [executor.outcome_excluding, classify] at houtcome
    split at houtcome
    · exact (Outcome.disallowed.inj houtcome).symm
    · cases houtcome

def inFolder (folder : String) : Exclusion.Engine where
  directories := [⟨folder, folder.toList⟩]

theorem excludes_inFolder (folder : String) (case : Case) :
    (inFolder folder).excludes case =
      Path.within folder.toList (Exclusion.Engine.caseName case).toList := by
  cases hwithin : Path.within folder.toList (Exclusion.Engine.caseName case).toList <;>
    simp [inFolder, Exclusion.Engine.excludes, Exclusion.Engine.resolve,
      Exclusion.Engine.directoryReason?, Exclusion.Engine.fileReason?,
      Exclusion.Engine.featureReason?, Exclusion.Engine.flagReason?,
      Exclusion.Engine.patternReason?, hwithin]

/-- An engine is lost in two cases, one of which is excluded. -/
theorem excluding_moves_excluded_lost :
    ((Runner.mk 2).run (lostInStrict.excluding (inFolder "b"))
      [unmarked "test/b/c.js" true, unmarked "test/a.js" true]).problems =
        [(.failure, unmarked "test/b/c.js" true)] := by
  have hexcluded : (inFolder "b").excludes (unmarked "test/b/c.js" true) = true := by
    rw [excludes_inFolder]
    decide
  have hkept : (inFolder "b").excludes (unmarked "test/a.js" true) = false := by
    rw [excludes_inFolder]
    decide
  obtain ⟨-, -, -, -, -, -, hproblems, hclassified⟩ :=
    excluding_moves_excluded (inFolder "b") lostInStrict .inline
      (undisturbed_run ⟨2⟩ (by decide) _ [unmarked "test/b/c.js" true, unmarked "test/a.js" true])
  have hone : [unmarked "test/b/c.js" true, unmarked "test/a.js" true].filter (fun case =>
      (inFolder "b").excludes case || lostInStrict.ignores case) =
        [unmarked "test/b/c.js" true] := by
    simp [hexcluded, hkept, Executor.ignores, lostInStrict, Reply.value?]
  rw [hone, List.perm_singleton, List.map_eq_singleton_iff] at hproblems
  obtain ⟨⟨classification, case⟩, hlisted, rfl⟩ := hproblems
  obtain rfl : classification = .failure := hclassified _ (by rw [hlisted]; exact .head _)
  exact hlisted

end Runner

end Conformance
