import Conformance.Run.Pool

namespace Conformance.Pool

variable {α β : Type}

/-! What a move changes, and when it is made. A move that may go two ways stands
here twice. -/

inductive Change (setup : Setup α β) (pool : Pool α β) : Move → Pool α β → Prop where
  | ended (hfeeder : pool.feeder = .idle) (hinput : pool.input = []) :
      Change setup pool .pull { pool with feeder := .exited }
  | pulled {job : α} {input : List α} (hfeeder : pool.feeder = .idle)
      (hinput : pool.input = job :: input) :
      Change setup pool .pull { pool with feeder := .holding job, input }
  | refused {job : α} (hfeeder : pool.feeder = .holding job)
      (hflag : pool.cancelled = true) :
      Change setup pool .check { pool with feeder := .exited, stoppedEarly := true }
  | passed {job : α} (hfeeder : pool.feeder = .holding job)
      (hflag : pool.cancelled = false) :
      Change setup pool .check { pool with feeder := .ready job }
  | undelivered {job : α} (hfeeder : pool.feeder = .ready job)
      (hworkers : pool.allExited = true) :
      Change setup pool .send { pool with feeder := .exited, stoppedEarly := true }
  | sent {job : α} (hfeeder : pool.feeder = .ready job)
      (hworkers : pool.allExited = false)
      (hroom : pool.jobs.length < pool.jobCapacity) :
      Change setup pool .send { pool with feeder := .idle, jobs := pool.jobs ++ [job] }
  | taken {index : Nat} {job : α} {jobs : List α}
      (hworker : pool.workers[index]? = some .idle) (hjobs : pool.jobs = job :: jobs) :
      Change setup pool (.take index) { pool.setWorker index (.holding job) with jobs }
  | left {index : Nat} (hworker : pool.workers[index]? = some .idle)
      (hjobs : pool.jobs = []) (hfeeder : pool.feeder = .exited) :
      Change setup pool (.take index) (pool.setWorker index .exited)
  | dropped {index : Nat} {job : α}
      (hworker : pool.workers[index]? = some (.holding job))
      (hflag : pool.cancelled = true) :
      Change setup pool (.inspect index)
        { pool.setWorker index .exited with stoppedEarly := true }
  | cleared {index : Nat} {job : α}
      (hworker : pool.workers[index]? = some (.holding job))
      (hflag : pool.cancelled = false) :
      Change setup pool (.inspect index) (pool.setWorker index (.ready job))
  | begun {index : Nat} {job : α}
      (hworker : pool.workers[index]? = some (.ready job)) :
      Change setup pool (.begin index)
        { pool.setWorker index (.working job) with begun := job :: pool.begun }
  | finished {index : Nat} {job : α}
      (hworker : pool.workers[index]? = some (.working job)) :
      Change setup pool (.finish index)
        { pool.setWorker index (.done job (setup.work job)) with
          finished := pool.finished + 1
          cancelled := pool.cancelled || setup.stopsAt (pool.finished + 1) }
  | posted {index : Nat} {job : α} {result : β}
      (hworker : pool.workers[index]? = some (.done job result))
      (hroom : pool.results.length < pool.resultCapacity) :
      Change setup pool (.post index)
        { pool.setWorker index .idle with results := pool.results ++ [(job, result)] }
  | collected {entry : α × β} {results : List (α × β)} (hhand : pool.hand = none)
      (hresults : pool.results = entry :: results) :
      Change setup pool .collect { pool with hand := some entry, results }
  | recorded {entry : α × β} (hhand : pool.hand = some entry) :
      Change setup pool .record
        { pool with hand := none, recorded := entry :: pool.recorded }
  | stopped : Change setup pool .cancel { pool with cancelled := true }

theorem Feeder.isExited_iff {feeder : Feeder α} :
    feeder.isExited = true ↔ feeder = .exited := by
  cases feeder <;> simp [Feeder.isExited]

theorem Worker.isExited_iff {worker : Worker α β} :
    worker.isExited = true ↔ worker = .exited := by
  cases worker <;> simp [Worker.isExited]

theorem allExited_iff {pool : Pool α β} :
    pool.allExited = true ↔ ∀ worker ∈ pool.workers, worker = .exited := by
  simp [allExited, Worker.isExited_iff]

variable {setup : Setup α β} {pool next : Pool α β} {index : Nat}

private theorem change_of_pull? (h : pool.pull? = some next) :
    Change setup pool .pull next := by
  unfold pull? at h
  split at h
  · rename_i hfeeder hinput
    cases h
    exact .ended hfeeder hinput
  · rename_i hfeeder hinput
    cases h
    exact .pulled hfeeder hinput
  · simp at h

private theorem change_of_check? (h : pool.check? = some next) :
    Change setup pool .check next := by
  unfold check? at h
  split at h
  · rename_i job hfeeder
    split at h
    · rename_i hflag
      cases h
      exact .refused hfeeder hflag
    · rename_i hflag
      cases h
      exact .passed hfeeder (Bool.eq_false_iff.mpr hflag)
  · simp at h

private theorem change_of_send? (h : pool.send? = some next) :
    Change setup pool .send next := by
  unfold send? at h
  split at h
  · rename_i job hfeeder
    split at h
    · rename_i hworkers
      cases h
      exact .undelivered hfeeder hworkers
    · rename_i hworkers
      simp only [Option.ite_none_right_eq_some, Option.some.injEq] at h
      obtain ⟨hroom, rfl⟩ := h
      exact .sent hfeeder (Bool.eq_false_iff.mpr hworkers) hroom
  · simp at h

private theorem change_of_take? (h : pool.take? index = some next) :
    Change setup pool (.take index) next := by
  unfold take? at h
  split at h
  · rename_i hworker hjobs
    cases h
    exact .taken hworker hjobs
  · rename_i hworker hjobs
    simp only [Option.ite_none_right_eq_some, Option.some.injEq] at h
    obtain ⟨hfeeder, rfl⟩ := h
    exact .left hworker hjobs (Feeder.isExited_iff.mp hfeeder)
  · simp at h

private theorem change_of_inspect? (h : pool.inspect? index = some next) :
    Change setup pool (.inspect index) next := by
  unfold inspect? at h
  split at h
  · rename_i job hworker
    split at h
    · rename_i hflag
      cases h
      exact .dropped hworker hflag
    · rename_i hflag
      cases h
      exact .cleared hworker (Bool.eq_false_iff.mpr hflag)
  · simp at h

private theorem change_of_begin? (h : pool.begin? index = some next) :
    Change setup pool (.begin index) next := by
  unfold begin? at h
  split at h
  · rename_i job hworker
    cases h
    exact .begun hworker
  · simp at h

private theorem change_of_finish? (h : pool.finish? setup index = some next) :
    Change setup pool (.finish index) next := by
  unfold finish? at h
  split at h
  · rename_i job hworker
    cases h
    exact .finished hworker
  · simp at h

private theorem change_of_post? (h : pool.post? index = some next) :
    Change setup pool (.post index) next := by
  unfold post? at h
  split at h
  · rename_i job result hworker
    simp only [Option.ite_none_right_eq_some, Option.some.injEq] at h
    obtain ⟨hroom, rfl⟩ := h
    exact .posted hworker hroom
  · simp at h

private theorem change_of_collect? (h : pool.collect? = some next) :
    Change setup pool .collect next := by
  unfold collect? at h
  split at h
  · rename_i entry results hhand hresults
    cases h
    exact .collected hhand hresults
  · simp at h

private theorem change_of_record? (h : pool.record? = some next) :
    Change setup pool .record next := by
  unfold record? at h
  split at h
  · rename_i entry hhand
    cases h
    exact .recorded hhand
  · simp at h

theorem change_of_move? {move : Move} (h : pool.move? setup move = some next) :
    Change setup pool move next := by
  cases move with
  | pull => exact change_of_pull? h
  | check => exact change_of_check? h
  | send => exact change_of_send? h
  | take index => exact change_of_take? h
  | inspect index => exact change_of_inspect? h
  | begin index => exact change_of_begin? h
  | finish index => exact change_of_finish? h
  | post index => exact change_of_post? h
  | collect => exact change_of_collect? h
  | record => exact change_of_record? h
  | cancel =>
      cases h
      exact .stopped

theorem move?_of_change {move : Move} (h : Change setup pool move next) :
    pool.move? setup move = some next := by
  cases h <;>
    simp_all [move?, pull?, check?, send?, take?, inspect?, begin?, finish?, post?,
      collect?, record?, Feeder.isExited]

theorem move?_eq_some_iff {move : Move} :
    pool.move? setup move = some next ↔ Change setup pool move next :=
  ⟨change_of_move?, move?_of_change⟩

end Conformance.Pool
