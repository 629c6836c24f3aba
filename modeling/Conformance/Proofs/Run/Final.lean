import Conformance.Proofs.Run.Account

namespace Conformance.Pool

variable {α β : Type} {setup : Setup α β} {pool next : Pool α β} {move : Move}

/-! Pools in which everyone is done. -/

theorem isFinal_iff :
    pool.isFinal = true ↔
      pool.feeder = .exited ∧ pool.allExited = true ∧ pool.results = [] ∧
        pool.hand = none := by
  simp [isFinal, Feeder.isExited_iff, and_assoc]

theorem flatMap_of_allExited {γ : Type} (part : Worker α β → List γ)
    (hpart : part .exited = []) (hall : pool.allExited = true) :
    pool.workers.flatMap part = [] := by
  refine List.flatMap_eq_nil_iff.mpr fun worker hworker => ?_
  rw [allExited_iff.mp hall worker hworker, hpart]

theorem Accounted.final {input : List α} (h : Accounted input pool)
    (horderly : Orderly pool) (hfinal : pool.isFinal = true) :
    pool.begun.Perm (pool.recorded.map Prod.fst) ∧
      ∃ left, (pool.begun ++ left).Perm input ∧
        (pool.stoppedEarly = true ↔ left ≠ []) := by
  obtain ⟨hfeeder, hall, hresults, hhand⟩ := isFinal_iff.mp hfinal
  have hbegun := h.begun
  obtain ⟨dropped, hperm, hflag⟩ := h.remaining
  rw [underway, flatMap_of_allExited Worker.busy rfl hall, hresults, hhand] at hbegun
  rw [Pool.remaining, untaken, flatMap_of_allExited Worker.taken rfl hall,
    flatMap_of_allExited Worker.held rfl hall, hfeeder] at hperm
  simp only [Feeder.held, List.append_nil, List.append_assoc] at hperm
  refine ⟨hbegun, pool.input ++ (pool.jobs ++ dropped), hperm, ?_⟩
  rw [hflag]
  constructor
  · intro hdropped hleft
    simp only [List.append_eq_nil_iff] at hleft
    exact hdropped hleft.2.2
  · intro hleft hdropped
    have hstopped : pool.stoppedEarly ≠ true := fun hstopped => hflag.mp hstopped hdropped
    have hinput := (horderly.feeder hfeeder).resolve_left hstopped
    have hjobs := (horderly.worker (horderly.exited_of_allExited hall)).resolve_left hstopped
    exact hleft (by simp [hinput, hjobs.2, hdropped])

theorem Accounted.begun_perm {input : List α} (h : Accounted input pool)
    (horderly : Orderly pool) (hfinal : pool.isFinal = true)
    (hstopped : pool.stoppedEarly = false) : pool.begun.Perm input := by
  obtain ⟨-, left, hleft, hflag⟩ := h.final horderly hfinal
  have hnone : left = [] := by
    by_contra hne
    simp [hflag.mpr hne] at hstopped
  rwa [hnone, List.append_nil] at hleft

private theorem flatMap_set_eq_nil {γ : Type} {part : Worker α β → List γ}
    {workers : List (Worker α β)} (h : workers.flatMap part = []) (index : Nat)
    {worker : Worker α β} (hworker : part worker = []) :
    (workers.set index worker).flatMap part = [] := by
  refine List.flatMap_eq_nil_iff.mpr fun other hother => ?_
  obtain hold | rfl := List.mem_or_eq_of_mem_set hother
  · exact List.flatMap_eq_nil_iff.mp h other hold
  · exact hworker

theorem Change.untaken_eq_nil (change : Change setup pool move next)
    (h : pool.untaken = []) :
    next.untaken = [] ∧ next.stoppedEarly = pool.stoppedEarly := by
  simp only [untaken, List.append_eq_nil_iff] at h ⊢
  obtain ⟨⟨⟨hinput, hfed⟩, hjobs⟩, hheld⟩ := h
  cases change with
  | pulled hfeeder hmore => simp [hinput] at hmore
  | refused hfeeder | passed hfeeder | undelivered hfeeder | sent hfeeder =>
      simp [hfeeder, Feeder.held] at hfed
  | taken hworker hmore => simp [hjobs] at hmore
  | dropped hworker | cleared hworker =>
      have hmem := List.mem_of_getElem? hworker
      have hnone := List.flatMap_eq_nil_iff.mp hheld _ hmem
      simp [Worker.held] at hnone
  | left | begun | finished | posted =>
      exact ⟨⟨⟨⟨hinput, hfed⟩, hjobs⟩, flatMap_set_eq_nil hheld _ rfl⟩, rfl⟩
  | ended => exact ⟨⟨⟨⟨hinput, rfl⟩, hjobs⟩, hheld⟩, rfl⟩
  | collected | recorded | stopped => exact ⟨⟨⟨⟨hinput, hfed⟩, hjobs⟩, hheld⟩, rfl⟩

theorem Evolves.stoppedEarly_of_untaken_eq_nil (hrun : Evolves pool next)
    (huntaken : pool.untaken = []) (hflag : pool.stoppedEarly = false) :
    next.stoppedEarly = false := by
  let holds (pool : Pool α β) := pool.untaken = [] ∧ pool.stoppedEarly = false
  have hkept : holds next :=
    hrun.keeps holds
      (fun change h =>
        have hnext := change.untaken_eq_nil h.1
        ⟨hnext.1, hnext.2.trans h.2⟩)
      ⟨huntaken, hflag⟩
  exact hkept.2

def Worker.entries : Worker α β → List (α × β)
  | .done job result => [(job, result)]
  | _ => []

/-- What holds of all that is told of jobs, wherever it is told. -/
structure Told (holds : α × β → Prop) (pool : Pool α β) : Prop where
  workers : ∀ worker ∈ pool.workers, ∀ entry ∈ worker.entries, holds entry
  results : ∀ entry ∈ pool.results, holds entry
  hand : ∀ entry ∈ pool.hand, holds entry
  recorded : ∀ entry ∈ pool.recorded, holds entry

theorem told_start (holds : α × β → Prop) (input : List α) (workers : Nat)
    (cancelled : Bool) : Told holds (start input workers cancelled) := by
  refine ⟨fun worker hworker => ?_, by simp [start], by simp [start], by simp [start]⟩
  rw [List.eq_of_mem_replicate hworker]
  simp [Worker.entries]

theorem Told.change {holds : α × β → Prop} (h : Told holds pool)
    (hwork : ∀ job, holds (job, setup.work job)) (change : Change setup pool move next) :
    Told holds next := by
  obtain ⟨hworkers, hresults, hhands, hrecorded⟩ := h
  have hset {index : Nat} {worker : Worker α β}
      (hworker : ∀ entry ∈ worker.entries, holds entry) :
      ∀ other ∈ pool.workers.set index worker, ∀ entry ∈ other.entries, holds entry := by
    intro other hother
    obtain hold | rfl := List.mem_or_eq_of_mem_set hother
    · exact hworkers other hold
    · exact hworker
  cases change with
  | taken | left | dropped | cleared | begun =>
      exact ⟨hset (by simp [Worker.entries]), hresults, hhands, hrecorded⟩
  | finished =>
      refine ⟨hset fun entry hentry => ?_, hresults, hhands, hrecorded⟩
      obtain rfl := List.mem_singleton.mp hentry
      exact hwork _
  | posted hworker =>
      refine ⟨hset (by simp [Worker.entries]), fun entry hentry => ?_, hhands, hrecorded⟩
      obtain hold | hnew := List.mem_append.mp hentry
      · exact hresults entry hold
      · exact hworkers _ (List.mem_of_getElem? hworker) entry hnew
  | collected hhand hmore =>
      rw [hmore] at hresults
      refine ⟨hworkers, fun entry hentry => hresults entry (List.mem_cons_of_mem _ hentry),
        fun entry hentry => ?_, hrecorded⟩
      obtain rfl := Option.mem_some_iff.mp hentry
      exact hresults _ List.mem_cons_self
  | recorded hhand =>
      refine ⟨hworkers, hresults, by simp, fun entry hentry => ?_⟩
      obtain rfl | hold := List.mem_cons.mp hentry
      · exact hhands _ (by simp [hhand])
      · exact hrecorded entry hold
  | _ => exact ⟨hworkers, hresults, hhands, hrecorded⟩

/-- What is told of a job is what the work on it gives, wherever it is told. -/
structure Faithful (setup : Setup α β) (pool : Pool α β) : Prop where
  workers : ∀ worker ∈ pool.workers, ∀ entry ∈ worker.entries,
    entry.2 = setup.work entry.1
  results : ∀ entry ∈ pool.results, entry.2 = setup.work entry.1
  hand : ∀ entry ∈ pool.hand, entry.2 = setup.work entry.1
  recorded : ∀ entry ∈ pool.recorded, entry.2 = setup.work entry.1

theorem faithful_iff :
    Faithful setup pool ↔ Told (fun entry => entry.2 = setup.work entry.1) pool :=
  ⟨fun h => ⟨h.workers, h.results, h.hand, h.recorded⟩,
    fun h => ⟨h.workers, h.results, h.hand, h.recorded⟩⟩

theorem faithful_start (setup : Setup α β) (input : List α) (workers : Nat)
    (cancelled : Bool) : Faithful setup (start input workers cancelled) :=
  faithful_iff.mpr (told_start _ input workers cancelled)

theorem Faithful.change (h : Faithful setup pool) (change : Change setup pool move next) :
    Faithful setup next :=
  faithful_iff.mpr ((faithful_iff.mp h).change (fun _ => rfl) change)

end Conformance.Pool
