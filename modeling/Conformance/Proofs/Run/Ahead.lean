import Conformance.Proofs.Run.Progress

namespace Conformance

/-! How far a run reads ahead. The jobs that are pulled from the input and are neither recorded
nor dropped are in five places, each of which holds a bounded number of them. -/

namespace Pool

variable {α β : Type} {setup : Setup α β} {pool next first : Pool α β} {move : Move}
  {index workers : Nat} {input : List α}

def Worker.carried : Worker α β → List α
  | .holding job => [job]
  | .ready job => [job]
  | .working job => [job]
  | .done job _ => [job]
  | _ => []

/-- The jobs that are ahead of the record. What workers who exit leave in the queue counts, too. -/
def ahead (pool : Pool α β) : List α :=
  pool.feeder.held ++ pool.jobs ++ pool.workers.flatMap Worker.carried ++
    pool.results.map Prod.fst ++ pool.hand.toList.map Prod.fst

/-- A move takes jobs from the input to those ahead, and from there to the record, or it drops
one of them and says so. -/
theorem Change.ahead_perm (change : Change setup pool move next) :
    ∃ pulled dropped, pool.input = pulled ++ next.input ∧
      (pulled ++ (pool.ahead ++ pool.recorded.map Prod.fst)).Perm
        (next.ahead ++ next.recorded.map Prod.fst ++ dropped) ∧
      (dropped = [] ∧ next.stoppedEarly = pool.stoppedEarly ∨ next.stoppedEarly = true) := by
  classical
  cases change with
  | @pulled job input hfeeder hinput =>
      refine ⟨[job], [], hinput, List.perm_iff_count.mpr fun other => ?_, .inl ⟨rfl, rfl⟩⟩
      simp only [ahead, hfeeder, Feeder.held, List.count_append, List.count_cons, List.count_nil]
      omega
  | @refused lost hfeeder | @undelivered lost hfeeder =>
      refine ⟨[], [lost], rfl, List.perm_iff_count.mpr fun other => ?_, .inr rfl⟩
      simp only [ahead, hfeeder, Feeder.held, List.count_append, List.count_cons, List.count_nil]
      omega
  | @dropped index lost hworker =>
      refine ⟨[], [lost], rfl, List.perm_iff_count.mpr fun other => ?_, .inr rfl⟩
      have hcarried := count_part_le Worker.carried other hworker
      simp only [ahead, setWorker, List.count_append, List.count_nil,
        count_flatMap_set Worker.carried other hworker, Worker.carried] at hcarried ⊢
      omega
  | ended hfeeder | passed hfeeder | sent hfeeder =>
      refine ⟨[], [], rfl, List.perm_iff_count.mpr fun other => ?_, .inl ⟨rfl, rfl⟩⟩
      simp only [ahead, hfeeder, Feeder.held, List.count_append, List.count_cons, List.count_nil]
      omega
  | taken hworker hjobs =>
      refine ⟨[], [], rfl, List.perm_iff_count.mpr fun other => ?_, .inl ⟨rfl, rfl⟩⟩
      simp only [ahead, setWorker, hjobs, List.count_append, List.count_cons, List.count_nil,
        count_flatMap_set Worker.carried other hworker, Worker.carried]
      omega
  | left hworker | cleared hworker | begun hworker | finished hworker | posted hworker =>
      refine ⟨[], [], rfl, List.perm_iff_count.mpr fun other => ?_, .inl ⟨rfl, rfl⟩⟩
      have hcarried := count_part_le Worker.carried other hworker
      simp only [ahead, setWorker, List.map_append, List.map_cons, List.map_nil,
        List.count_append, List.count_cons, List.count_nil,
        count_flatMap_set Worker.carried other hworker, Worker.carried] at hcarried ⊢
      omega
  | collected hhand hresults =>
      refine ⟨[], [], rfl, List.perm_iff_count.mpr fun other => ?_, .inl ⟨rfl, rfl⟩⟩
      simp only [ahead, hhand, hresults, Option.toList, List.map_cons, List.map_nil,
        List.count_append, List.count_cons, List.count_nil]
      omega
  | recorded hhand =>
      refine ⟨[], [], rfl, List.perm_iff_count.mpr fun other => ?_, .inl ⟨rfl, rfl⟩⟩
      simp only [ahead, hhand, Option.toList, List.map_cons, List.map_nil, List.count_append,
        List.count_cons, List.count_nil]
      omega
  | stopped => exact ⟨[], [], rfl, by simp [ahead], .inl ⟨rfl, rfl⟩⟩

/-- Each job that is pulled is ahead, recorded or dropped, and a pool that drops one says that it
was stopped. -/
def Conserves (input : List α) (pool : Pool α β) : Prop :=
  ∃ pulled dropped, input = pulled ++ pool.input ∧
    pulled.Perm (pool.ahead ++ pool.recorded.map Prod.fst ++ dropped) ∧
    (dropped ≠ [] → pool.stoppedEarly = true)

theorem Conserves.change (h : Conserves input pool) (change : Change setup pool move next) :
    Conserves input next := by
  obtain ⟨pulled, dropped, hinput, hperm, hflag⟩ := h
  obtain ⟨more, lost, hmore, hmoved, hsaid⟩ := change.ahead_perm
  refine ⟨pulled ++ more, lost ++ dropped, ?_, ?_, fun hne => ?_⟩
  · rw [hinput, hmore, List.append_assoc]
  · have hall := (hperm.append_left more).trans
      (List.append_assoc .. ▸ hmoved.append_right dropped)
    rw [List.append_assoc _ lost dropped] at hall
    exact List.perm_append_comm.trans hall
  · rcases hsaid with ⟨rfl, hsame⟩ | hstopped
    · rw [hsame]
      exact hflag hne
    · exact hstopped

theorem Feeder.length_held_le (feeder : Feeder α) : feeder.held.length ≤ 1 := by
  cases feeder <;> simp [Feeder.held]

theorem Worker.length_carried_le (worker : Worker α β) : worker.carried.length ≤ 1 := by
  cases worker <;> simp [Worker.carried]

theorem length_flatMap_carried_le (all : List (Worker α β)) :
    (all.flatMap Worker.carried).length ≤ all.length := by
  induction all with
  | nil => exact Nat.le_refl 0
  | cons worker all ih =>
      have hone := worker.length_carried_le
      rw [List.flatMap_cons, List.length_append, List.length_cons]
      omega

theorem length_ahead (pool : Pool α β) :
    pool.ahead.length = pool.feeder.held.length + pool.jobs.length +
      (pool.workers.flatMap Worker.carried).length + pool.results.length +
        pool.hand.toList.length := by
  simp only [ahead, List.length_append, List.length_map]

theorem Bounded.ahead_le (h : Bounded workers pool) :
    pool.ahead.length ≤ 13 * workers + 2 := by
  have hfeeder := pool.feeder.length_held_le
  have hworkers := length_flatMap_carried_le pool.workers
  have hhand := Option.length_toList_le (o := pool.hand)
  rw [length_ahead]
  have := h.crew
  have := h.jobs
  have := h.results
  omega

/-- A pool before its first move. Someone who could not be started has exited. -/
structure Begins (input : List α) (workers : Nat) (pool : Pool α β) : Prop where
  input : pool.input = input
  crew : pool.workers.length = workers
  feeder : pool.feeder = .idle ∨ pool.feeder = .exited
  workers : ∀ worker ∈ pool.workers, worker = .idle ∨ worker = .exited
  jobs : pool.jobs = []
  results : pool.results = []
  hand : pool.hand = none
  recorded : pool.recorded = []

theorem begins_start (input : List α) (workers : Nat) (cancelled : Bool) :
    Begins input workers (start input workers cancelled : Pool α β) := by
  refine ⟨rfl, by simp [start], .inl rfl, fun worker hworker => ?_, rfl, rfl, rfl, rfl⟩
  exact .inl (List.eq_of_mem_replicate hworker)

namespace Begins

theorem bounded (h : Begins input workers pool) : Bounded workers pool :=
  ⟨h.crew, by simp [h.jobs], by simp [h.results]⟩

theorem ahead_eq_nil (h : Begins input workers pool) : pool.ahead = [] := by
  have hfeeder : pool.feeder.held = [] := by
    rcases h.feeder with hfeeder | hfeeder <;> rw [hfeeder] <;> rfl
  have hworkers : pool.workers.flatMap Worker.carried = [] := by
    refine List.flatMap_eq_nil_iff.mpr fun worker hworker => ?_
    rcases h.workers worker hworker with rfl | rfl <;> rfl
  simp [ahead, hfeeder, hworkers, h.jobs, h.results, h.hand]

theorem conserves (h : Begins input workers pool) : Conserves input pool :=
  ⟨[], [], h.input.symm, by simp [h.ahead_eq_nil, h.recorded], by simp⟩

end Begins

/-- Nobody but the one who records can move. -/
def IsFull (setup : Setup α β) (pool : Pool α β) : Prop :=
  ∀ move next, Change setup pool move next → move = .record ∨ move = .cancel

/-- Nothing was stopped or recorded yet. -/
structure Undisturbed (workers : Nat) (input : List α) (pool : Pool α β) : Prop where
  bounded : Bounded workers pool
  orderly : Orderly pool
  conserves : Conserves input pool
  flag : pool.cancelled = false
  recorded : pool.recorded = []

theorem Undisturbed.change (h : Undisturbed workers input pool)
    (hsetup : ∀ count, setup.stopsAt count = false) (change : Change setup pool move next)
    (hmove : move ≠ .record) (hcancel : move ≠ .cancel) : Undisturbed workers input next := by
  refine ⟨h.bounded.change change, h.orderly.change change, h.conserves.change change,
    (change.cancelled_eq hcancel hsetup).trans h.flag, ?_⟩
  cases change with
  | recorded => exact absurd rfl hmove
  | _ => exact h.recorded

theorem Undisturbed.exists_full (h : Undisturbed workers input pool)
    (hsetup : ∀ count, setup.stopsAt count = false) :
    ∃ full, Evolves pool full ∧ Undisturbed workers input full ∧ IsFull setup full := by
  induction hrank : pool.rank using Nat.strong_induction_on generalizing pool with
  | _ rank ih =>
      by_cases hfull : IsFull setup pool
      · exact ⟨pool, .refl, h, hfull⟩
      · rw [IsFull] at hfull
        push Not at hfull
        obtain ⟨move, next, change, hmove, hcancel⟩ := hfull
        have hlt := change.rank_lt hcancel
        obtain ⟨full, hrun, hnext⟩ :=
          ih next.rank (hrank ▸ hlt) (h.change hsetup change hmove hcancel) rfl
        exact ⟨full, .head ⟨setup, move, move?_of_change change⟩ hrun, hnext⟩

theorem Undisturbed.not_stoppedEarly (h : Undisturbed workers input pool) :
    pool.stoppedEarly ≠ true := by
  intro hstopped
  have hraised := h.orderly.flag hstopped
  rw [h.flag] at hraised
  cases hraised

theorem Undisturbed.length_input (h : Undisturbed workers input pool) :
    input.length = pool.ahead.length + pool.input.length := by
  obtain ⟨pulled, dropped, rfl, hperm, hflag⟩ := h.conserves
  have hkept : dropped = [] := by
    by_contra hne
    exact h.not_stoppedEarly (hflag hne)
  have hlength := hperm.length_eq
  rw [h.recorded, hkept, List.map_nil, List.append_nil, List.append_nil] at hlength
  rw [List.length_append, hlength]

namespace IsFull

theorem feeder (hfull : IsFull setup pool) (hflag : pool.cancelled = false)
    (hlive : pool.feeder ≠ .exited) :
    pool.feeder.held.length = 1 ∧ pool.jobCapacity ≤ pool.jobs.length := by
  cases hfeeder : pool.feeder with
  | idle =>
      cases hinput : pool.input with
      | nil => simpa using hfull _ _ (.ended hfeeder hinput)
      | cons job input => simpa using hfull _ _ (.pulled hfeeder hinput)
  | holding job => simpa using hfull _ _ (.passed hfeeder hflag)
  | ready job =>
      refine ⟨rfl, Nat.not_lt.mp fun hroom => ?_⟩
      cases hall : pool.allExited with
      | true => simpa using hfull _ _ (.undelivered hfeeder hall)
      | false => simpa using hfull _ _ (.sent hfeeder hall hroom)
  | exited => exact absurd hfeeder hlive

theorem worker (hfull : IsFull setup pool) (hflag : pool.cancelled = false)
    (hjobs : pool.jobs ≠ []) {worker : Worker α β} (hworker : pool.workers[index]? = some worker)
    (hlive : worker ≠ .exited) :
    worker.carried.length = 1 ∧ pool.resultCapacity ≤ pool.results.length := by
  cases worker with
  | idle =>
      obtain ⟨job, jobs, hmore⟩ := List.exists_cons_of_ne_nil hjobs
      simpa using hfull _ _ (.taken hworker hmore)
  | holding job => simpa using hfull _ _ (.cleared hworker hflag)
  | ready job => simpa using hfull _ _ (.begun hworker)
  | working job => simpa using hfull _ _ (.finished hworker)
  | done job result =>
      refine ⟨rfl, Nat.not_lt.mp fun hroom => ?_⟩
      simpa using hfull _ _ (.posted hworker hroom)
  | exited => exact absurd rfl hlive

theorem hand (hfull : IsFull setup pool) (hresults : pool.results ≠ []) :
    pool.hand.toList.length = 1 := by
  cases hhand : pool.hand with
  | some entry => rfl
  | none =>
      obtain ⟨entry, results, hmore⟩ := List.exists_cons_of_ne_nil hresults
      simpa using hfull _ _ (.collected hhand hmore)

end IsFull

theorem length_flatMap_carried {all : List (Worker α β)}
    (hall : ∀ worker ∈ all, worker.carried.length = 1) :
    (all.flatMap Worker.carried).length = all.length := by
  induction all with
  | nil => rfl
  | cons worker all ih =>
      rw [List.forall_mem_cons] at hall
      rw [List.flatMap_cons, List.length_append, List.length_cons, hall.1, ih hall.2, Nat.add_comm]

theorem Undisturbed.length_ahead (h : Undisturbed workers input pool) (hfull : IsFull setup pool)
    (hlong : 13 * workers + 2 ≤ input.length) : pool.ahead.length = 13 * workers + 2 := by
  have hstopped := h.not_stoppedEarly
  have hmost := h.bounded.ahead_le
  by_cases hfeeder : pool.feeder = .exited
  · have hinput := (h.orderly.feeder hfeeder).resolve_left hstopped
    have hlength := h.length_input
    rw [hinput, List.length_nil] at hlength
    omega
  · obtain ⟨hheld, hjobs⟩ := hfull.feeder h.flag hfeeder
    have hcrew := h.bounded.crew
    have hmanned : 0 < pool.workers.length := List.length_pos_iff.mpr h.orderly.manned
    have hsome : pool.jobs ≠ [] := by
      rw [← List.length_pos_iff]
      rw [jobCapacity] at hjobs
      omega
    have hlive : ∀ worker ∈ pool.workers, worker ≠ .exited := by
      rintro worker hworker rfl
      exact hfeeder ((h.orderly.worker hworker).resolve_left hstopped).1
    have hworker : ∀ worker ∈ pool.workers,
        worker.carried.length = 1 ∧ pool.resultCapacity ≤ pool.results.length := by
      intro worker hworker
      obtain ⟨index, hindex⟩ := List.mem_iff_getElem?.mp hworker
      exact hfull.worker h.flag hsome hindex (hlive worker hworker)
    have hcarried := length_flatMap_carried fun worker hmem => (hworker worker hmem).1
    have hresults := (hworker _ (List.getElem_mem hmanned)).2
    have hhand : pool.hand.toList.length = 1 := by
      apply hfull.hand
      rw [← List.length_pos_iff]
      rw [resultCapacity] at hresults
      omega
    rw [Pool.length_ahead, hheld, hcarried, hhand]
    rw [jobCapacity] at hjobs
    rw [resultCapacity] at hresults
    have := h.bounded.jobs
    have := h.bounded.results
    omega

theorem undisturbed_start (hworkers : 0 < workers) (input : List α) :
    Undisturbed workers input (start input workers false : Pool α β) :=
  ⟨bounded_start input workers false, orderly_start input hworkers false,
    (begins_start input workers false).conserves, rfl, rfl⟩

theorem exists_length_ahead_eq (work : α → β) (hworkers : 0 < workers)
    (hlong : 13 * workers + 2 ≤ input.length) :
    ∃ pool : Pool α β, Evolves (start input workers false) pool ∧
      pool.ahead.length = 13 * workers + 2 := by
  have hsetup : ∀ count, (⟨work, fun _ => false⟩ : Setup α β).stopsAt count = false :=
    fun _ => rfl
  obtain ⟨pool, hrun, hpool, hfull⟩ := (undisturbed_start hworkers input).exists_full hsetup
  exact ⟨pool, hrun, hpool.length_ahead hfull hlong⟩

end Pool

namespace Runner

open Pool

/-- At every moment of a run, with whoever could be started, the cases that were pulled from the
input and are neither in the summary nor dropped are one at most in the hands of the feeder, of
each worker and of who records them, and in the queues no more than these have room for. There
are runs in which all these places are taken. -/
theorem length_ahead_le (cases : List Case) (workers : Nat) :
    (∀ first pool : Pool Case Executor.Executed, Begins cases workers first →
      Evolves first pool →
        (∃ pulled dropped, cases = pulled ++ pool.input ∧
          pulled.Perm (pool.ahead ++ (summaryOf pool).cases ++ dropped) ∧
          (dropped ≠ [] → pool.stoppedEarly = true)) ∧
        (pool.feeder.held.length ≤ 1 ∧ pool.jobs.length ≤ 4 * workers ∧
          pool.workers.length = workers ∧
          (∀ worker ∈ pool.workers, worker.carried.length ≤ 1) ∧
          pool.results.length ≤ 8 * workers ∧ pool.hand.toList.length ≤ 1) ∧
        pool.ahead.length ≤ 13 * workers + 2) ∧
      (0 < workers → 13 * workers + 2 ≤ cases.length →
        ∃ pool : Pool Case Executor.Executed, Evolves (start cases workers false) pool ∧
          pool.ahead.length = 13 * workers + 2) := by
  refine ⟨fun first pool hfirst hrun => ?_, fun hworkers hlong => ?_⟩
  · have hbounded := hrun.keeps (Bounded workers) (fun change h => h.change change)
      hfirst.bounded
    obtain ⟨pulled, dropped, hinput, hperm, hflag⟩ := hrun.keeps (Conserves cases)
      (fun change h => h.change change) hfirst.conserves
    have hsummary := (cases_summaryOf_perm pool).symm
    refine ⟨⟨pulled, dropped, hinput, ?_, hflag⟩, ⟨pool.feeder.length_held_le, hbounded.jobs,
      hbounded.crew, fun worker _ => worker.length_carried_le, hbounded.results,
      Option.length_toList_le⟩, hbounded.ahead_le⟩
    exact hperm.trans ((hsummary.append_left pool.ahead).append_right dropped)
  · exact exists_length_ahead_eq lostInStrict.run hworkers hlong

/-- One worker, and as many cases as can be ahead of it. -/
theorem length_ahead_le_fifteen :
    ∃ pool : Pool Case Executor.Executed,
      Evolves (start (List.replicate 15 (unmarked "test/a.js" false)) 1 false) pool ∧
        pool.ahead.length = 15 ∧ pool.jobs.length ≤ 4 ∧ pool.results.length ≤ 8 ∧
          ∃ pulled dropped, List.replicate 15 (unmarked "test/a.js" false) =
              pulled ++ pool.input ∧
            pulled.Perm (pool.ahead ++ (summaryOf pool).cases ++ dropped) := by
  obtain ⟨hall, hsome⟩ := length_ahead_le (List.replicate 15 (unmarked "test/a.js" false)) 1
  obtain ⟨pool, hrun, hlength⟩ := hsome (by decide) (by simp)
  obtain ⟨⟨pulled, dropped, hinput, hperm, -⟩, ⟨-, hjobs, -, -, hresults, -⟩, -⟩ :=
    hall _ pool (begins_start _ 1 false) hrun
  exact ⟨pool, hrun, hlength, hjobs, hresults, pulled, dropped, hinput, hperm⟩

end Runner

end Conformance
