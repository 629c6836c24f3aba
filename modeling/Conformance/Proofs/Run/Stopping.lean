import Conformance.Proofs.Run.Progress

namespace Conformance.Pool

/-! Once the flag is up, nobody takes another job on. The jobs that are still begun are those
of workers that have looked at the flag before. -/

variable {α β : Type} {setup : Setup α β} {pool next last : Pool α β} {move : Move}
  {index limit workers : Nat}

namespace Worker

@[simp] def poised : Worker α β → Nat
  | .ready _ => 1
  | _ => 0

theorem poised_le_one (worker : Worker α β) : worker.poised ≤ 1 := by
  cases worker <;> simp [poised]

theorem exists_ready_of_poised {worker : Worker α β} (h : 0 < worker.poised) :
    ∃ job, worker = .ready job := by
  cases worker with
  | ready job => exact ⟨job, rfl⟩
  | _ => exact absurd h (Nat.lt_irrefl 0)

end Worker

def poisedAt (all : List (Worker α β)) (index : Nat) : Nat :=
  all[index]?.elim 0 Worker.poised

variable {all : List (Worker α β)}

theorem poisedAt_le_one (all : List (Worker α β)) (index : Nat) : poisedAt all index ≤ 1 := by
  rw [poisedAt]
  cases all[index]? with
  | none => exact Nat.zero_le 1
  | some worker => exact worker.poised_le_one

theorem exists_ready_of_poisedAt (h : 0 < poisedAt all index) :
    ∃ job, all[index]? = some (.ready job) := by
  rw [poisedAt] at h
  cases hworker : all[index]? with
  | none =>
      rw [hworker] at h
      exact absurd h (Nat.lt_irrefl 0)
  | some worker =>
      rw [hworker] at h
      obtain ⟨job, rfl⟩ := Worker.exists_ready_of_poised h
      exact ⟨job, rfl⟩

theorem poisedAt_set {old : Worker α β} (hold : all[index]? = some old) (new : Worker α β)
    (other : Nat) :
    poisedAt (all.set index new) other + (if index = other then old.poised else 0) =
      poisedAt all other + (if index = other then new.poised else 0) := by
  have hbound : index < all.length := (List.getElem?_eq_some_iff.mp hold).1
  by_cases hother : index = other
  · subst hother
    rw [poisedAt, poisedAt, hold, List.getElem?_set_self hbound]
    simp [Nat.add_comm]
  · simp [poisedAt, hother]

@[simp] def Move.beginner : Move → List Nat
  | .begin index => [index]
  | _ => []

/-- The workers that begin a job in a schedule, one entry for each job. -/
def beginners (schedule : List (Setup α β × Move)) : List Nat :=
  schedule.flatMap (·.2.beginner)

@[simp] theorem beginners_cons (made : Setup α β × Move) (schedule : List (Setup α β × Move)) :
    beginners (made :: schedule) = made.2.beginner ++ beginners schedule :=
  List.flatMap_cons

theorem Change.poisedAt_add (change : Change setup pool move next)
    (hflag : pool.cancelled = true) (other : Nat) :
    poisedAt next.workers other + move.beginner.count other =
      poisedAt pool.workers other := by
  cases change with
  | @taken _ job _ hworker =>
      simpa [setWorker, List.count_singleton] using poisedAt_set hworker (.holding job) other
  | left hworker | dropped hworker =>
      simpa [setWorker, List.count_singleton] using poisedAt_set hworker .exited other
  | cleared _ hdown =>
      rw [hflag] at hdown
      cases hdown
  | @begun _ job hworker =>
      simpa [setWorker, List.count_singleton] using poisedAt_set hworker (.working job) other
  | @finished _ job hworker =>
      simpa [setWorker, List.count_singleton] using poisedAt_set hworker
        (.done job (setup.work job)) other
  | posted hworker =>
      simpa [setWorker, List.count_singleton] using poisedAt_set hworker .idle other
  | _ => rfl

theorem Change.length_begun (change : Change setup pool move next) :
    next.begun.length = pool.begun.length + move.beginner.length := by
  cases change <;> rfl

theorem length_begun_make? {schedule : List (Setup α β × Move)}
    (h : pool.make? schedule = some last) :
    last.begun.length = pool.begun.length + (beginners schedule).length := by
  induction schedule generalizing pool with
  | nil =>
      obtain rfl : pool = last := by simpa [make?] using h
      rfl
  | cons made schedule ih =>
      obtain ⟨next, htaken, hrest⟩ := make?_cons_eq_some_iff.mp h
      rw [ih hrest, (change_of_move? htaken).length_begun, beginners_cons, List.length_append]
      exact Nat.add_assoc _ _ _

theorem poisedAt_make? {schedule : List (Setup α β × Move)}
    (h : pool.make? schedule = some last) (hflag : pool.cancelled = true) (index : Nat) :
    poisedAt last.workers index + (beginners schedule).count index =
      poisedAt pool.workers index := by
  induction schedule generalizing pool with
  | nil =>
      obtain rfl : pool = last := by simpa [make?] using h
      rfl
  | cons made schedule ih =>
      obtain ⟨next, htaken, hrest⟩ := make?_cons_eq_some_iff.mp h
      have hchange := change_of_move? htaken
      have hlast := ih hrest (hchange.cancelled_of_cancelled hflag)
      rw [beginners_cons, List.count_append, ← hchange.poisedAt_add hflag, ← hlast]
      omega

theorem beginners_of_cancelled {schedule : List (Setup α β × Move)}
    (h : pool.make? schedule = some last) (hflag : pool.cancelled = true) :
    (beginners schedule).Nodup ∧
      (∀ index ∈ beginners schedule, ∃ job, pool.workers[index]? = some (.ready job)) ∧
      (beginners schedule).length ≤ pool.workers.length := by
  have hnodup : (beginners schedule).Nodup := by
    refine List.nodup_iff_count_le_one.mpr fun index => ?_
    have hready := poisedAt_make? h hflag index
    have hone := poisedAt_le_one pool.workers index
    omega
  have hready : ∀ index ∈ beginners schedule,
      ∃ job, pool.workers[index]? = some (.ready job) := by
    intro index hindex
    apply exists_ready_of_poisedAt
    have hcount := List.count_pos_iff.mpr hindex
    have hready := poisedAt_make? h hflag index
    omega
  refine ⟨hnodup, hready, ?_⟩
  have hcrew : beginners schedule ⊆ List.range pool.workers.length := by
    intro index hindex
    obtain ⟨job, hjob⟩ := hready index hindex
    exact List.mem_range.mpr (List.getElem?_eq_some_iff.mp hjob).1
  simpa using (List.subperm_of_subset hnodup hcrew).length_le

theorem exists_make?_of_evolves (hrun : Evolves pool last) :
    ∃ schedule, pool.make? schedule = some last := by
  induction hrun using Relation.ReflTransGen.head_induction_on with
  | refl => exact ⟨[], rfl⟩
  | head hstep _ ih =>
      obtain ⟨setup, move, htaken⟩ := hstep
      obtain ⟨schedule, hrest⟩ := ih
      exact ⟨(setup, move) :: schedule, make?_cons_eq_some_iff.mpr ⟨_, htaken, hrest⟩⟩

theorem begun_of_start_cancelled {input : List α}
    (hrun : Evolves (start input workers true) pool) : pool.begun = [] := by
  obtain ⟨schedule, hmade⟩ := exists_make?_of_evolves hrun
  have hnobody : beginners schedule = [] := by
    refine List.eq_nil_iff_forall_not_mem.mpr fun index hindex => ?_
    obtain ⟨job, hjob⟩ := (beginners_of_cancelled hmade rfl).2.1 index hindex
    have hidle := List.eq_of_mem_replicate (List.mem_of_getElem? hjob)
    cases hidle
  have hlength := length_begun_make? hmade
  rw [hnobody] at hlength
  exact List.eq_nil_of_length_eq_zero hlength

end Conformance.Pool
