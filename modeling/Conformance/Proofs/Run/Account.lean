import Conformance.Proofs.Run.Change
import Mathlib.Logic.Relation
import Mathlib.Data.List.Basic

namespace Conformance.Pool

variable {α β : Type}

/-! Where a job is. A worker has taken a job on once it has looked at the flag
and goes on with the job. -/

def Feeder.held : Feeder α → List α
  | .holding job => [job]
  | .ready job => [job]
  | _ => []

namespace Worker

def held : Worker α β → List α
  | .holding job => [job]
  | _ => []

def taken : Worker α β → List α
  | .ready job => [job]
  | _ => []

def busy : Worker α β → List α
  | .working job => [job]
  | .done job _ => [job]
  | _ => []

end Worker

def untaken (pool : Pool α β) : List α :=
  pool.input ++ pool.feeder.held ++ pool.jobs ++ pool.workers.flatMap Worker.held

/-- The jobs that are taken on or begun, and those that may still be. -/
def remaining (pool : Pool α β) : List α :=
  pool.begun ++ pool.workers.flatMap Worker.taken ++ pool.untaken

def underway (pool : Pool α β) : List α :=
  pool.workers.flatMap Worker.busy ++ pool.results.map Prod.fst ++
    pool.hand.toList.map Prod.fst

variable {setup : Setup α β} {pool next : Pool α β} {move : Move}

theorem count_part_le [DecidableEq α] (part : Worker α β → List α) (job : α)
    {workers : List (Worker α β)} {index : Nat} {worker : Worker α β}
    (hworker : workers[index]? = some worker) :
    (part worker).count job ≤ (workers.flatMap part).count job := by
  have hmem : worker ∈ workers := List.mem_of_getElem? hworker
  exact List.Sublist.count_le job (List.sublist_flatten_of_mem (List.mem_map_of_mem hmem))

theorem count_flatMap_set [DecidableEq α] (part : Worker α β → List α) (job : α)
    {workers : List (Worker α β)} {index : Nat} {old : Worker α β}
    (hold : workers[index]? = some old) (new : Worker α β) :
    ((workers.set index new).flatMap part).count job =
      (workers.flatMap part).count job + (part new).count job - (part old).count job := by
  induction workers generalizing index with
  | nil => simp at hold
  | cons worker workers ih =>
      cases index with
      | zero =>
          have heq : worker = old := by simpa using hold
          subst heq
          simp only [List.set_cons_zero, List.flatMap_cons, List.count_append]
          omega
      | succ index =>
          have hrest : workers[index]? = some old := by simpa using hold
          have hle := count_part_le part job hrest
          simp only [List.set_cons_succ, List.flatMap_cons, List.count_append, ih hrest]
          omega

theorem Change.begun_perm (change : Change setup pool move next)
    (h : pool.begun.Perm (pool.underway ++ pool.recorded.map Prod.fst)) :
    next.begun.Perm (next.underway ++ next.recorded.map Prod.fst) := by
  classical
  refine List.perm_iff_count.mpr fun job => ?_
  have hjob := List.perm_iff_count.mp h job
  simp only [underway, List.count_append] at hjob ⊢
  cases change with
  | taken hworker | left hworker | dropped hworker | cleared hworker | begun hworker
  | finished hworker | posted hworker =>
      have hle := count_part_le Worker.busy job hworker
      simp only [setWorker, count_flatMap_set Worker.busy job hworker, Worker.busy,
        List.count_cons, List.count_nil, List.map_append, List.count_append,
        List.map_cons, List.map_nil] at hle ⊢
      omega
  | collected hhand hresults =>
      simp only [hhand, hresults, Option.toList, List.map_cons, List.map_nil,
        List.count_cons, List.count_nil] at hjob ⊢
      omega
  | recorded hhand =>
      simp only [hhand, Option.toList, List.map_cons, List.map_nil, List.count_cons,
        List.count_nil] at hjob ⊢
      omega
  | _ => exact hjob

theorem Change.remaining_perm (change : Change setup pool move next) :
    (next.stoppedEarly = pool.stoppedEarly ∧ pool.remaining.Perm next.remaining) ∨
      (next.stoppedEarly = true ∧
        ∃ job, pool.remaining.Perm (job :: next.remaining)) := by
  classical
  cases change with
  | @refused lost hfeeder | @undelivered lost hfeeder =>
      refine .inr ⟨rfl, lost, List.perm_iff_count.mpr fun job => ?_⟩
      simp only [remaining, untaken, hfeeder, Feeder.held, List.count_append,
        List.count_cons, List.count_nil]
      omega
  | @dropped _ lost hworker =>
      refine .inr ⟨rfl, lost, List.perm_iff_count.mpr fun job => ?_⟩
      have hheld := count_part_le Worker.held job hworker
      simp only [remaining, untaken, setWorker, List.count_append, List.count_cons,
        List.count_nil, count_flatMap_set Worker.held job hworker,
        count_flatMap_set Worker.taken job hworker, Worker.held, Worker.taken] at hheld ⊢
      omega
  | taken hworker hjobs =>
      refine .inl ⟨rfl, List.perm_iff_count.mpr fun job => ?_⟩
      simp only [remaining, untaken, setWorker, hjobs, List.count_append, List.count_cons,
        List.count_nil, count_flatMap_set Worker.held job hworker,
        count_flatMap_set Worker.taken job hworker, Worker.held, Worker.taken]
      omega
  | left hworker | cleared hworker | begun hworker | finished hworker | posted hworker =>
      refine .inl ⟨rfl, List.perm_iff_count.mpr fun job => ?_⟩
      have hheld := count_part_le Worker.held job hworker
      have htaken := count_part_le Worker.taken job hworker
      simp only [remaining, untaken, setWorker, List.count_append, List.count_cons,
        List.count_nil, count_flatMap_set Worker.held job hworker,
        count_flatMap_set Worker.taken job hworker, Worker.held, Worker.taken] at hheld htaken ⊢
      omega
  | ended hfeeder | passed hfeeder =>
      refine .inl ⟨rfl, ?_⟩
      simp only [remaining, untaken, hfeeder, Feeder.held, List.Perm.refl]
  | pulled hfeeder hinput =>
      refine .inl ⟨rfl, List.perm_iff_count.mpr fun job => ?_⟩
      simp only [remaining, untaken, hfeeder, hinput, Feeder.held, List.count_append,
        List.count_cons, List.count_nil]
      omega
  | sent hfeeder =>
      refine .inl ⟨rfl, List.perm_iff_count.mpr fun job => ?_⟩
      simp only [remaining, untaken, hfeeder, Feeder.held, List.count_append,
        List.count_cons, List.count_nil]
      omega
  | collected | recorded | stopped => exact .inl ⟨rfl, .rfl⟩

/-- Some move is made, the one of an outsider who raises the flag included. -/
def Advances (pool next : Pool α β) : Prop :=
  ∃ setup move, pool.move? setup move = some next

/-- What a pool may come to, whatever is done with the jobs. -/
abbrev Evolves : Pool α β → Pool α β → Prop :=
  Relation.ReflTransGen Advances

theorem Step.advances (h : Step setup pool next) : pool.Advances next := by
  obtain ⟨move, _, hmove⟩ := h
  exact ⟨setup, move, hmove⟩

/-- What holds of a pool and is kept by each change holds of all it comes to. -/
theorem Evolves.keeps (holds : Pool α β → Prop)
    (hkept : ∀ {setup pool move next},
      Change setup pool move next → holds pool → holds next)
    (hrun : Evolves pool next) (hpool : holds pool) : holds next := by
  induction hrun with
  | refl => exact hpool
  | tail _ hstep ih =>
      obtain ⟨_, _, hmove⟩ := hstep
      exact hkept (change_of_move? hmove) ih

/-- Every job of the input is somewhere or was dropped, and the pool says
whether any was. -/
structure Accounted (input : List α) (pool : Pool α β) : Prop where
  begun : pool.begun.Perm (pool.underway ++ pool.recorded.map Prod.fst)
  remaining : ∃ dropped, (pool.remaining ++ dropped).Perm input ∧
    (pool.stoppedEarly = true ↔ dropped ≠ [])

theorem accounted_start (input : List α) (workers : Nat) (cancelled : Bool) :
    Accounted input (start input workers cancelled : Pool α β) := by
  have hnone (part : Worker α β → List α) (hidle : part .idle = []) :
      (List.replicate workers Worker.idle).flatMap part = [] := by
    simp [List.flatMap_replicate, hidle]
  refine ⟨?_, [], ?_, ?_⟩
  · simp [start, underway, hnone Worker.busy rfl]
  · simp [start, remaining, untaken, Feeder.held, hnone Worker.held rfl,
      hnone Worker.taken rfl]
  · simp [start]

theorem Accounted.change {input : List α} (h : Accounted input pool)
    (change : Change setup pool move next) : Accounted input next := by
  obtain ⟨hbegun, dropped, hperm, hflag⟩ := h
  refine ⟨change.begun_perm hbegun, ?_⟩
  obtain ⟨hsame, hkept⟩ | ⟨hstopped, job, hlost⟩ := change.remaining_perm
  · exact ⟨dropped, (hkept.symm.append_right dropped).trans hperm, by rw [hsame, hflag]⟩
  · refine ⟨job :: dropped, ?_, by simp [hstopped]⟩
    exact (List.perm_middle.trans (hlost.symm.append_right dropped)).trans hperm

theorem Accounted.evolves {input : List α} (h : Accounted input pool)
    (hrun : Evolves pool next) : Accounted input next :=
  hrun.keeps _ (fun change h => h.change change) h

/-- Nobody exits while there is something to do, unless the run was stopped, and
it is stopped only where the flag was raised. -/
structure Orderly (pool : Pool α β) : Prop where
  manned : pool.workers ≠ []
  feeder : pool.feeder = .exited → pool.stoppedEarly = true ∨ pool.input = []
  worker : .exited ∈ pool.workers →
    pool.stoppedEarly = true ∨ pool.feeder = .exited ∧ pool.jobs = []
  flag : pool.stoppedEarly = true → pool.cancelled = true

theorem orderly_start (input : List α) {workers : Nat} (hworkers : 0 < workers)
    (cancelled : Bool) : Orderly (start input workers cancelled : Pool α β) := by
  refine ⟨?_, ?_, ?_, ?_⟩
  · simpa [start] using Nat.ne_of_gt hworkers
  · simp [start]
  · simp [start]
  · simp [start]

theorem exited_of_mem_set {workers : List (Worker α β)} {index : Nat}
    {worker : Worker α β} (hworker : worker ≠ .exited)
    (h : .exited ∈ workers.set index worker) : .exited ∈ workers := by
  obtain hold | heq := List.mem_or_eq_of_mem_set h
  · exact hold
  · exact absurd heq.symm hworker

theorem Orderly.exited_of_allExited (h : Orderly pool) (hall : pool.allExited = true) :
    .exited ∈ pool.workers := by
  obtain ⟨worker, hworker⟩ := List.exists_mem_of_ne_nil _ h.manned
  have hexited := allExited_iff.mp hall worker hworker
  exact hexited ▸ hworker

theorem Orderly.change (h : Orderly pool) (change : Change setup pool move next) :
    Orderly next := by
  obtain ⟨hmanned, hfeeds, hworks, hflagged⟩ := h
  cases change with
  | ended hfeeder hinput =>
      refine ⟨hmanned, fun _ => .inr hinput, fun hexited => ?_, hflagged⟩
      exact (hworks hexited).imp_right fun hdone => ⟨rfl, hdone.2⟩
  | pulled hfeeder | passed hfeeder | sent hfeeder =>
      refine ⟨hmanned, by simp, fun hexited => ?_, hflagged⟩
      exact (hworks hexited).imp_right fun hdone => by simp [hfeeder] at hdone
  | refused hfeeder hflag =>
      exact ⟨hmanned, fun _ => .inl rfl, fun _ => .inl rfl, fun _ => hflag⟩
  | undelivered hfeeder hall =>
      refine ⟨hmanned, fun _ => .inl rfl, fun _ => .inl rfl, fun _ => ?_⟩
      have horderly : Orderly pool := ⟨hmanned, hfeeds, hworks, hflagged⟩
      obtain hstopped | hdone := hworks (horderly.exited_of_allExited hall)
      · exact hflagged hstopped
      · simp [hfeeder] at hdone
  | taken hworker hjobs =>
      refine ⟨by simpa [setWorker] using hmanned, hfeeds, fun hexited => ?_, hflagged⟩
      have hbefore := exited_of_mem_set (by simp) hexited
      exact (hworks hbefore).imp_right fun hdone => by simp [hjobs] at hdone
  | left hworker hjobs hfeeder =>
      exact ⟨by simpa [setWorker] using hmanned, hfeeds, fun _ => .inr ⟨hfeeder, hjobs⟩,
        hflagged⟩
  | dropped hworker hflag =>
      exact ⟨by simpa [setWorker] using hmanned, fun _ => .inl rfl, fun _ => .inl rfl,
        fun _ => hflag⟩
  | cleared hworker | begun hworker | posted hworker =>
      refine ⟨by simpa [setWorker] using hmanned, hfeeds, fun hexited => ?_, hflagged⟩
      exact hworks (exited_of_mem_set (by simp) hexited)
  | finished hworker =>
      refine ⟨by simpa [setWorker] using hmanned, hfeeds, fun hexited => ?_, fun hstopped => ?_⟩
      · exact hworks (exited_of_mem_set (by simp) hexited)
      · simp [hflagged hstopped]
  | collected | recorded => exact ⟨hmanned, hfeeds, hworks, hflagged⟩
  | stopped => exact ⟨hmanned, hfeeds, hworks, fun _ => rfl⟩

theorem Orderly.evolves (h : Orderly pool) (hrun : Evolves pool next) : Orderly next :=
  hrun.keeps _ (fun change h => h.change change) h

end Conformance.Pool
