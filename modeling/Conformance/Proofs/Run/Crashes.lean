import Conformance.Proofs.Run.Complete

namespace Conformance

/-! What becomes of one case whose hooks crash. A crash ends all that goes on until somebody
contains it, and the hooks that are called, the predicates of errors included, are told one by
one. -/

namespace Reply

variable {α β : Type}

def value? : Reply α → Option α
  | returned value => some value
  | crashed _ => none

/-- The answer of a hook, or the one that stands in for it where it crashes. -/
inductive Settles (reply : Reply α) (instead : α) : α → Prop where
  | returned {value : α} (h : reply = .returned value) : Settles reply instead value
  | crashed {text : String} (h : reply = .crashed text) : Settles reply instead instead

theorem settles_iff {reply : Reply α} {instead value : α} :
    reply.Settles instead value ↔ reply.value?.getD instead = value := by
  cases reply with
  | returned answer =>
      constructor
      · rintro (h | h)
        · cases h
          rfl
        · cases h
      · rintro rfl
        exact .returned rfl
  | crashed text =>
      constructor
      · rintro (h | h)
        · cases h
        · rfl
      · rintro rfl
        exact .crashed rfl

end Reply

namespace Executor

variable {ε α β : Type}

/-- Hooks are called with the case, and the predicates with the error that it raised. -/
inductive Call (ε : Type) where
  | hook (hook : Hook)
  | isParseError (error : ε)
  | isResolutionError (error : ε)
  | isRuntimeError (error : ε)

def Call.hook? : Call ε → Option Hook
  | .hook called => some called
  | .isParseError _ | .isResolutionError _ | .isRuntimeError _ => none

/-- The calls that are made and the notices that are left, in order, and how it ends. -/
structure Course (ε α : Type) where
  calls : List (Call ε)
  notices : List Notice
  reply : Reply α

namespace Course

def ask (call : Call ε) (reply : Reply α) : Course ε α := ⟨[call], [], reply⟩

def andThen (course : Course ε α) (next : α → Course ε β) : Course ε β :=
  match course.reply with
  | .crashed text => ⟨course.calls, course.notices, .crashed text⟩
  | .returned value =>
    ⟨course.calls ++ (next value).calls, course.notices ++ (next value).notices,
      (next value).reply⟩

instance : Monad (Course ε) where
  pure value := ⟨[], [], .returned value⟩
  bind := andThen

def contain (case : Case) (hook : Hook) (course : Course ε α) : Course ε (Option α) :=
  match course.reply with
  | .crashed text =>
    ⟨course.calls, course.notices ++ [.crashed case.display hook text], .returned none⟩
  | .returned value => ⟨course.calls, course.notices, .returned (some value)⟩

end Course

open Course

/-- The predicate of one phase, and how a call of it is told. -/
structure Judge (ε : Type) where
  call : ε → Call ε
  answer : ε → Reply Bool

def judge? (executor : Executor ε) (case : Case) : Option (Judge ε) :=
  match case.metadata.negative.map Expectation.phase with
  | some .parse => some ⟨.isParseError, executor.isParseError⟩
  | some .resolution => some ⟨.isResolutionError, executor.isResolutionError⟩
  | some .runtime => some ⟨.isRuntimeError, executor.isRuntimeError⟩
  | some .unknown => none
  | none => none

def judged (executor : Executor ε) (case : Case) (error : ε) : Course ε Bool :=
  match executor.judge? case with
  | some judge => ask (judge.call error) (judge.answer error)
  | none => pure false

def attempt (executor : Executor ε) (case : Case) : Course ε Execution := do
  match ← ask (.hook .execute) (executor.execute case) with
  | .ok _ => return .completed
  | .error error => return .raised (← judged executor case error)

/-- One case, call by call: the execution and the predicate share what contains their
crashes, and the other hooks have each their own. -/
def course (executor : Executor ε) (case : Case) : Course ε Outcome := do
  let execution ← contain case .execute (attempt executor case)
  let shouldThrow ← contain case .shouldThrow
    (ask (.hook .shouldThrow) (executor.shouldThrow case))
  let ignored ← contain case .isIgnored (ask (.hook .isIgnored) (executor.isIgnored case))
  let outcome := classify (execution.getD (.raised false)) (shouldThrow.getD case.isNegative)
    (ignored.getD false)
  let _ ← contain case .onTestExecuted
    (ask (.hook .onTestExecuted) (executor.onTestExecuted case))
  return outcome

def crashNotices (case : Case) (hook : Hook) : Reply α → List Notice
  | .returned _ => []
  | .crashed text => [.crashed case.display hook text]

theorem contain_bind (case : Case) (hook : Hook) (course : Course ε α)
    (next : Option α → Course ε β) :
    contain case hook course >>= next =
      ⟨course.calls ++ (next course.reply.value?).calls,
        course.notices ++ crashNotices case hook course.reply ++
          (next course.reply.value?).notices,
        (next course.reply.value?).reply⟩ := by
  obtain ⟨calls, notices, reply⟩ := course
  cases reply with
  | returned value => simp [contain, Bind.bind, andThen, Reply.value?, crashNotices]
  | crashed text => rfl

theorem contained_eq (case : Case) (hook : Hook) (reply : Reply α) (trace : Trace) :
    contained case hook reply trace =
      (reply.value?, ⟨trace.calls ++ [hook], trace.notices ++ crashNotices case hook reply⟩) := by
  cases reply with
  | returned value => simp [contained, Reply.value?, crashNotices]
  | crashed text => rfl

/-- The calls of an execution: of the executor, and where it raised an error, of the one
predicate that tells its phase. -/
def executionCalls (executor : Executor ε) (case : Case) : List (Call ε) :=
  .hook .execute ::
    match executor.execute case with
    | .returned (.error error) => ((executor.judge? case).map fun judge => judge.call error).toList
    | _ => []

theorem phaseMatches_eq (executor : Executor ε) (case : Case) (error : ε) :
    executor.phaseMatches case error =
      ((executor.judge? case).map fun judge => judge.answer error).getD (.returned false) := by
  rw [phaseMatches, judge?]
  cases case.metadata.negative.map Expectation.phase with
  | none => rfl
  | some phase => cases phase <;> rfl

theorem attempt_eq (executor : Executor ε) (case : Case) :
    executor.attempt case = ⟨executor.executionCalls case, [], executor.execution case⟩ := by
  simp only [attempt, executionCalls, execution]
  cases hexecute : executor.execute case with
  | crashed text => rfl
  | returned result =>
      cases result with
      | ok value => rfl
      | error error =>
          simp only [judged, phaseMatches_eq]
          cases executor.judge? case with
          | none => rfl
          | some judge =>
              simp only [ask, Bind.bind, andThen, Option.map_some, Option.getD_some]
              cases judge.answer error <;> rfl

/-- What comes of an execution: a crash counts as an error in another phase. -/
def observed (executor : Executor ε) (case : Case) : Execution :=
  (executor.execution case).value?.getD (.raised false)

def throws (executor : Executor ε) (case : Case) : Bool :=
  (executor.shouldThrow case).value?.getD case.isNegative

def ignores (executor : Executor ε) (case : Case) : Bool :=
  (executor.isIgnored case).value?.getD false

def hookNotices (executor : Executor ε) (case : Case) : List Notice :=
  crashNotices case .execute (executor.execution case) ++
    crashNotices case .shouldThrow (executor.shouldThrow case) ++
    crashNotices case .isIgnored (executor.isIgnored case) ++
    crashNotices case .onTestExecuted (executor.onTestExecuted case)

theorem run_eq (executor : Executor ε) (case : Case) :
    executor.run case =
      ⟨classify (executor.observed case) (executor.throws case) (executor.ignores case),
        ⟨[.execute, .shouldThrow, .isIgnored, .onTestExecuted], executor.hookNotices case⟩⟩ := by
  simp [run, contained_eq, observed, throws, ignores, hookNotices]

theorem course_eq (executor : Executor ε) (case : Case) :
    executor.course case =
      ⟨executor.executionCalls case ++
          [.hook .shouldThrow, .hook .isIgnored, .hook .onTestExecuted],
        (executor.run case).trace.notices, .returned (executor.run case).outcome⟩ := by
  simp only [course, contain_bind, attempt_eq, run_eq]
  simp [ask, hookNotices, observed, throws, ignores, Pure.pure]

theorem hook?_judge {executor : Executor ε} {case : Case} {judge : Judge ε}
    (h : executor.judge? case = some judge) (error : ε) : (judge.call error).hook? = none := by
  unfold judge? at h
  split at h <;> cases h <;> rfl

theorem hooks_executionCalls (executor : Executor ε) (case : Case) :
    (executor.executionCalls case).filterMap Call.hook? = [.execute] := by
  have hjudge (error : ε) : ((executor.judge? case).map fun judge =>
      judge.call error).toList.filterMap Call.hook? = [] := by
    cases hjudge : executor.judge? case with
    | none => rfl
    | some judge => simp [hook?_judge hjudge]
  unfold executionCalls
  split
  · simp [Call.hook?, hjudge]
  · rfl

theorem hooks_course (executor : Executor ε) (case : Case) :
    (executor.course case).calls.filterMap Call.hook? = (executor.run case).trace.calls := by
  rw [course_eq, List.filterMap_append, hooks_executionCalls, calls_run]
  rfl

theorem mem_executionCalls_hook {executor : Executor ε} {case : Case} {hook : Hook}
    (h : .hook hook ∈ executor.executionCalls case) : hook = .execute := by
  have hmem : hook ∈ (executor.executionCalls case).filterMap Call.hook? :=
    List.mem_filterMap.mpr ⟨_, h, rfl⟩
  rwa [hooks_executionCalls, List.mem_singleton] at hmem

theorem phaseMatches_iff {executor : Executor ε} {case : Case} {error : ε} :
    (executor.phaseMatches case error).value?.getD false = true ↔
      ∃ judge, executor.judge? case = some judge ∧ judge.answer error = .returned true := by
  rw [phaseMatches_eq]
  cases executor.judge? case with
  | none => simp [Reply.value?]
  | some judge => cases hanswer : judge.answer error <;> simp [Reply.value?, hanswer]

theorem observed_of_error {executor : Executor ε} {case : Case} {error : ε}
    (h : executor.execute case = .returned (.error error)) :
    executor.observed case =
      .raised ((executor.phaseMatches case error).value?.getD false) := by
  simp only [observed, execution, h]
  cases executor.phaseMatches case error <;> rfl

/-- What an execution is taken for. Only an error of which the predicate of the case's own
phase answers so belongs to that phase. -/
inductive Observes (executor : Executor ε) (case : Case) : Execution → Prop where
  | completed (hexecute : executor.execute case = .returned (.ok ())) :
      Observes executor case .completed
  | matched {error : ε} {judge : Judge ε}
      (hexecute : executor.execute case = .returned (.error error))
      (hjudge : executor.judge? case = some judge)
      (hanswer : judge.answer error = .returned true) :
      Observes executor case (.raised true)
  | missed (hexecute : executor.execute case ≠ .returned (.ok ()))
      (hanswer : ∀ error judge, executor.execute case = .returned (.error error) →
        executor.judge? case = some judge → judge.answer error ≠ .returned true) :
      Observes executor case (.raised false)

theorem observes_observed (executor : Executor ε) (case : Case) :
    executor.Observes case (executor.observed case) := by
  cases hexecute : executor.execute case with
  | crashed text =>
      have hobserved : executor.observed case = .raised false := by
        simp [observed, execution, hexecute, Reply.value?]
      rw [hobserved]
      exact .missed (by simp [hexecute]) (by simp [hexecute])
  | returned result =>
      cases result with
      | ok value =>
          have hobserved : executor.observed case = .completed := by
            simp [observed, execution, hexecute, Reply.value?]
          rw [hobserved]
          exact .completed hexecute
      | error error =>
          rw [observed_of_error hexecute]
          cases hmatch : (executor.phaseMatches case error).value?.getD false with
          | true =>
              obtain ⟨judge, hjudge, hanswer⟩ := phaseMatches_iff.mp hmatch
              exact .matched hexecute hjudge hanswer
          | false =>
              refine .missed (by simp [hexecute]) fun other judge hother hjudge hanswer => ?_
              obtain rfl : error = other := by simpa [hexecute] using hother
              simp [phaseMatches_iff.mpr ⟨judge, hjudge, hanswer⟩] at hmatch

theorem Observes.unique {executor : Executor ε} {case : Case} {first second : Execution}
    (h : executor.Observes case first) (h' : executor.Observes case second) :
    first = second := by
  cases h with
  | completed hexecute =>
      cases h' with
      | completed => rfl
      | matched hother => simp [hexecute] at hother
      | missed hother => exact absurd hexecute hother
  | matched hexecute hjudge hanswer =>
      cases h' with
      | completed hother => simp [hexecute] at hother
      | matched => rfl
      | missed _ hother => exact absurd hanswer (hother _ _ hexecute hjudge)
  | missed hexecute hanswer =>
      cases h' with
      | completed hother => exact absurd hother hexecute
      | matched hother hjudge htrue => exact absurd htrue (hanswer _ _ hother hjudge)
      | missed => rfl

theorem observes_iff {executor : Executor ε} {case : Case} {execution : Execution} :
    executor.Observes case execution ↔ executor.observed case = execution :=
  ⟨fun h => (observes_observed executor case).unique h,
    fun h => h ▸ observes_observed executor case⟩

/-- What is known of one case, whatever its hooks do. -/
structure Settled (executor : Executor ε) (case : Case) : Prop where
  /-- It comes to one outcome, and no crash gets further than its hook. -/
  course : executor.course case =
    ⟨executor.executionCalls case ++
        [.hook .shouldThrow, .hook .isIgnored, .hook .onTestExecuted],
      (executor.run case).trace.notices, .returned (executor.run case).outcome⟩
  hooks : (executor.course case).calls.filterMap Call.hook? = (executor.run case).trace.calls
  /-- The last hook is told once and at the end, and has no say in the outcome. -/
  told : ∃ before, (executor.course case).calls = before ++ [.hook .onTestExecuted] ∧
    .hook .onTestExecuted ∉ before
  fixed : ∀ onTestExecuted,
    ({ executor with onTestExecuted }.run case).outcome = (executor.run case).outcome
  outcome : (executor.run case).outcome =
    classify (executor.observed case) (executor.throws case) (executor.ignores case)
  observes : ∀ execution,
    executor.Observes case execution ↔ executor.observed case = execution
  throws : ∀ throws,
    (executor.shouldThrow case).Settles case.isNegative throws ↔ executor.throws case = throws
  ignores : ∀ ignored,
    (executor.isIgnored case).Settles false ignored ↔ executor.ignores case = ignored
  /-- The expected error is one that was raised, and not a crash. -/
  expected : (executor.run case).outcome = .allowed .failure ∨
      (executor.run case).outcome = .disallowed .success →
    ∃ error judge, executor.execute case = .returned (.error error) ∧
      executor.judge? case = some judge ∧ judge.answer error = .returned true

theorem observed_of_expected {execution : Execution} {shouldThrow ignored : Bool}
    (h : classify execution shouldThrow ignored = .allowed .failure ∨
      classify execution shouldThrow ignored = .disallowed .success) :
    execution = .raised true := by
  revert h
  cases execution with
  | completed => cases shouldThrow <;> cases ignored <;> decide
  | raised phaseMatched =>
      cases phaseMatched <;> cases shouldThrow <;> cases ignored <;> decide

theorem classify_ne_falsePositive (execution : Execution) (shouldThrow ignored : Bool) :
    classify execution shouldThrow ignored ≠ .allowed .falsePositive := by
  cases execution with
  | completed => cases shouldThrow <;> cases ignored <;> decide
  | raised phaseMatched =>
      cases phaseMatched <;> cases shouldThrow <;> cases ignored <;> decide

theorem outcome_run_ne (executor : Executor ε) (case : Case) :
    (executor.run case).outcome ≠ .allowed .falsePositive := by
  rw [run_eq]
  exact classify_ne_falsePositive _ _ _

theorem settled (executor : Executor ε) (case : Case) : executor.Settled case where
  course := course_eq executor case
  hooks := hooks_course executor case
  told := by
    refine ⟨executor.executionCalls case ++ [.hook .shouldThrow, .hook .isIgnored], ?_, ?_⟩
    · simp [course_eq]
    · intro hmem
      obtain hmem | hmem := List.mem_append.mp hmem
      · exact absurd (mem_executionCalls_hook hmem) (by decide)
      · simp at hmem
  fixed := fun onTestExecuted => by simp only [run_eq]; rfl
  outcome := by rw [run_eq]
  observes := fun _ => observes_iff
  throws := fun _ => Reply.settles_iff
  ignores := fun _ => Reply.settles_iff
  expected := fun h => by
    rw [run_eq] at h
    cases observes_iff.mpr (observed_of_expected h) with
    | matched hexecute hjudge hanswer => exact ⟨_, _, hexecute, hjudge, hanswer⟩

end Executor

namespace Inline

variable {ε : Type}

theorem told_runFrom {executor : Executor ε} (holds : Outcome → Prop)
    (hrun : ∀ case, holds (executor.run case).outcome) (cancelled : Nat → Bool)
    (cases : List Case) {outcomes : List (Case × Outcome)}
    (h : ∀ entry ∈ outcomes, holds entry.2) :
    ∀ entry ∈ (runFrom executor cancelled outcomes cases).1, holds entry.2 := by
  induction cases generalizing outcomes with
  | nil => exact h
  | cons case cases ih =>
      unfold runFrom
      split
      · exact h
      · exact ih (List.forall_mem_cons.mpr ⟨hrun case, h⟩)

end Inline

namespace Runner

open Pool

variable {ε : Type}

/-- A move of a run whose hooks may answer otherwise each time they are called. -/
def Moves (ε : Type) (pool next : Pool Case Executor.Executed) : Prop :=
  ∃ (executor : Executor ε) (stopsAt : Nat → Bool) (move : Pool.Move),
    pool.move? (setup executor stopsAt) move = some next

theorem told_of_moves (holds : Case × Executor.Executed → Prop)
    (hwork : ∀ (executor : Executor ε) case, holds (case, executor.run case))
    {cases : List Case} {workers : Nat} {cancelled : Bool} {pool : Pool Case Executor.Executed}
    (hrun : Relation.ReflTransGen (Moves ε) (start cases workers cancelled) pool) :
    Told holds pool := by
  induction hrun with
  | refl => exact told_start holds cases workers cancelled
  | tail _ hmoved ih =>
      obtain ⟨executor, stopsAt, move, hmove⟩ := hmoved
      exact ih.change (fun case => hwork executor case) (change_of_move? hmove)

theorem falsePositive_of_moves {cases : List Case} {workers : Nat} {cancelled : Bool}
    {pool : Pool Case Executor.Executed}
    (hrun : Relation.ReflTransGen (Moves ε) (start cases workers cancelled) pool) :
    (summaryOf pool).bucket (.allowed .falsePositive) = [] := by
  refine Summary.bucket_ofOutcomes_eq_nil fun entry hentry => ?_
  obtain ⟨told, htold, rfl⟩ := List.mem_map.mp hentry
  have hall := told_of_moves (fun entry => entry.2.outcome ≠ .allowed .falsePositive)
    (fun executor => executor.outcome_run_ne) hrun
  exact hall.recorded told (List.mem_reverse.mp htold)

theorem moves_of_steps {executor : Executor ε} {stopsAt : Nat → Bool}
    {pool next : Pool Case Executor.Executed}
    (hrun : Relation.ReflTransGen (Step (setup executor stopsAt)) pool next) :
    Relation.ReflTransGen (Moves ε) pool next :=
  Relation.ReflTransGen.mono
    (fun _ _ ⟨move, _, hmove⟩ => ⟨executor, stopsAt, move, hmove⟩) _ _ hrun

/-- Each case comes to one outcome, whatever its hooks do; the last of them is told once that
is fixed. A crash is never the error that was expected, and no run, with workers or without
and with hooks that may change their answers, holds a false positive that was allowed. -/
theorem settled_without_falsePositive (executor : Executor ε) :
    (∀ case, executor.Settled case) ∧
      (∀ cases workers cancelled pool,
        Relation.ReflTransGen (Moves ε) (start cases workers cancelled) pool →
          (summaryOf pool).allowed.falsePositive = []) ∧
      ∀ cancelled cases, (Inline.run executor cancelled cases).allowed.falsePositive = [] := by
  refine ⟨executor.settled, fun _ _ _ _ hrun => falsePositive_of_moves hrun,
    fun cancelled cases => ?_⟩
  have htold := Inline.told_runFrom (· ≠ .allowed .falsePositive) executor.outcome_run_ne
    cancelled cases (List.forall_mem_nil _)
  exact Summary.bucket_ofOutcomes_eq_nil fun entry hentry =>
    htold entry (List.mem_reverse.mp hentry)

def failing (phase : Phase) : Case where
  metadata := { (unmarked "test/a.js" false).metadata with negative := some ⟨phase, .syntaxError⟩ }
  program := ""
  strict := false

/-- An engine that crashes wherever it is not asked about the parse phase. -/
def onlyParses : Executor Unit where
  execute := fun _ => .returned (.error ())
  shouldThrow := fun _ => .crashed "lost"
  isIgnored := fun _ => .crashed "lost"
  isParseError := fun _ => .returned true
  isResolutionError := fun _ => .crashed "lost"
  isRuntimeError := fun _ => .crashed "lost"
  onTestExecuted := fun _ => .crashed "lost"

/-- The error is the expected one where the predicate answers, and not where it crashes. -/
theorem settled_without_falsePositive_lost :
    (onlyParses.run (failing .parse)).outcome = .allowed .failure ∧
      onlyParses.Observes (failing .parse) (.raised true) ∧
      (onlyParses.run (failing .runtime)).outcome = .allowed .falseNegative ∧
      (summaryOf (complete (setup onlyParses fun _ => false)
        [failing .parse, failing .runtime] 2 false)).allowed.falsePositive = [] := by
  obtain ⟨hsettled, hmoves, -⟩ := settled_without_falsePositive onlyParses
  have houtcome : (onlyParses.run (failing .parse)).outcome = .allowed .failure := by decide
  obtain ⟨error, judge, hexecute, hjudge, hanswer⟩ :=
    (hsettled (failing .parse)).expected (.inl houtcome)
  exact ⟨houtcome, .matched hexecute hjudge hanswer, by decide,
    hmoves _ _ _ _ (moves_of_steps (steps_run _ _ _))⟩

end Runner

end Conformance
