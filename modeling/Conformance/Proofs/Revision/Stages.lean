import Conformance.Revision.Cache

namespace Conformance.Cache

/-! The way of a call through its stages. -/

variable {fetcher : Fetcher} {reader : Zip.Reader} {revision : Revision} {goal : Goal}
  {cache : Cache} {stage next : Stage}

namespace Stage

def isPlacing : Stage → Bool
  | .placing => true
  | _ => false

def isTransferring : Stage → Bool
  | transferring => true
  | _ => false

def inTransfer : Stage → Bool
  | opening | transferring | cleaning _ | placing => true
  | _ => false

def isBehindArchive : Stage → Bool
  | choosing | awaitingTree | lookingAgain | loading | clearing _ | unpacking _ | settling => true
  | _ => false

def isUnpacking : Stage → Bool
  | clearing _ | unpacking _ | settling => true
  | _ => false

def entries : Stage → Zip.Archive
  | clearing entries | unpacking entries => entries
  | _ => []

theorem eq_of_isTransferring (h : stage.isTransferring = true) : stage = transferring := by
  cases stage <;> first | rfl | cases h

theorem holdsLock_of_inTransfer (h : stage.inTransfer = true) : stage.holdsLock = true := by
  cases stage <;> first | rfl | cases h

theorem not_holdsLock_of_awaitsLock (h : stage.awaitsLock = true) : stage.holdsLock = false := by
  cases stage <;> first | rfl | cases h

theorem isUnpacking_of_isBehindArchive (h : stage.isBehindArchive = false) :
    stage.isUnpacking = false := by
  cases stage <;> first | rfl | cases h

/-- What may come after a stage: any may fail, and else there are few. -/
inductive Next : Goal → Stage → Stage → Prop
  | fails {goal : Goal} {stage : Stage} (error : Error)
      (running : stage.result? = none) : Next goal stage (.ended (.error error))
  | named {goal : Goal} : Next goal .asked .awaitingArchive
  | locked {goal : Goal} : Next goal .awaitingArchive .looking
  | found : Next .archive .looking (.ended (.ok ()))
  | foundForTree : Next .tree .looking .choosing
  | unreadable {goal : Goal} : Next goal .looking .discarding
  | absent {goal : Goal} : Next goal .looking .preparing
  | discarded {goal : Goal} : Next goal .discarding .preparing
  | prepared {goal : Goal} : Next goal .preparing .opening
  | opened {goal : Goal} : Next goal .opening .transferring
  | unopened {goal : Goal} (error : Error) : Next goal .opening (.cleaning error)
  | received {goal : Goal} : Next goal .transferring .placing
  | interrupted {goal : Goal} (error : Error) : Next goal .transferring (.cleaning error)
  | placed {goal : Goal} : Next goal .placing .confirming
  | confirmed : Next .archive .confirming (.ended (.ok ()))
  | confirmedForTree : Next .tree .confirming .choosing
  | chosen {goal : Goal} : Next goal .choosing (.ended (.ok ()))
  | missed {goal : Goal} : Next goal .choosing .awaitingTree
  | lockedForTree {goal : Goal} : Next goal .awaitingTree .lookingAgain
  | chosenAgain {goal : Goal} : Next goal .lookingAgain (.ended (.ok ()))
  | missedAgain {goal : Goal} : Next goal .lookingAgain .loading
  | loaded {goal : Goal} (entries : Zip.Archive) : Next goal .loading (.clearing entries)
  | cleared {goal : Goal} (entries : Zip.Archive) :
      Next goal (.clearing entries) (.unpacking entries)
  | unpacked {goal : Goal} (entry : Zip.Entry) (entries : Zip.Archive) :
      Next goal (.unpacking (entry :: entries)) (.unpacking entries)
  | emptied {goal : Goal} : Next goal (.unpacking []) .settling
  | settled {goal : Goal} : Next goal .settling (.ended (.ok ()))

theorem Next.holdsLock (h : Next goal stage next) (hlock : next.holdsLock = true) :
    stage.holdsLock = true ∨ stage.awaitsLock = true := by
  cases h <;> first | exact .inl rfl | exact .inr rfl | cases hlock

theorem Next.isBehindArchive (h : Next .archive stage next)
    (hstage : stage.isBehindArchive = false) : next.isBehindArchive = false := by
  cases h <;> first | rfl | cases hstage

theorem Next.eq_of_ok (h : Next .archive stage (.ended (.ok ())))
    (hstage : stage.isBehindArchive = false) : stage = .looking ∨ stage = .confirming := by
  cases h <;> first | exact .inl rfl | exact .inr rfl | cases hstage

theorem Next.entries_subset (h : Next goal stage next) (hstage : stage ≠ .loading) :
    next.entries ⊆ stage.entries := by
  cases h with
  | loaded => contradiction
  | cleared => exact List.Subset.refl _
  | unpacked entry entries => exact List.subset_cons_self entry entries
  | _ => exact List.nil_subset _

end Stage

theorem archiveAt_eq_ok_iff {host : Host} {path : String} {entries : Zip.Archive} :
    archiveAt reader host path = .ok entries ↔
      ∃ bytes, host.read path = .ok bytes ∧ reader bytes = .ok entries := by
  unfold archiveAt
  cases hread : host.read path with
  | error fault => cases fault <;> simp
  | ok bytes =>
      have hmapped : (reader bytes).mapError Error.zip = .ok entries ↔
          reader bytes = .ok entries := by
        cases reader bytes with
        | error problem => constructor <;> intro hread <;> cases hread
        | ok found => constructor <;> intro hread <;> cases hread <;> rfl
      simpa using hmapped

theorem flaw?_eq_none_iff {host : Host} {path : String} :
    flaw? reader host path = none ↔ ∃ entries, archiveAt reader host path = .ok entries := by
  unfold flaw?
  split
  · rename_i entries hentries
    simp [hentries]
  · rename_i problem hproblem
    simp [hproblem]
  · rename_i error _ herror
    simp [herror]

theorem next_change (changed : Host.Changed) (hresult : stage.result? = none)
    (hnext : Stage.Next goal stage next) : Stage.Next goal stage (cache.change changed next).2 := by
  unfold change
  split
  · exact hnext
  · exact .fails _ hresult

theorem next_lookForTree {otherwise : Stage}
    (hfound : Stage.Next goal stage (.ended (.ok ()))) (hmissed : Stage.Next goal stage otherwise) :
    Stage.Next goal stage (cache.lookForTree revision otherwise).2 := by
  unfold lookForTree
  split
  · exact hfound
  · exact hmissed

theorem next_clear (revision : Revision) (cache : Cache) (entries : Zip.Archive) :
    Stage.Next goal (.clearing entries) (cache.clear revision entries).2 := by
  unfold clear
  split
  · exact next_change _ rfl (.cleared entries)
  · exact .cleared entries

theorem next_unpackNext (revision : Revision) (cache : Cache) (entries : Zip.Archive) :
    Stage.Next goal (.unpacking entries) (cache.unpackNext revision entries).2 := by
  unfold unpackNext
  split
  · exact .emptied
  · split
    · exact .unpacked _ _
    · exact .fails _ rfl

theorem next_act (fetcher : Fetcher) (reader : Zip.Reader) (revision : Revision) (goal : Goal)
    (cache : Cache)
    (hresult : stage.result? = none) :
    Stage.Next goal stage (act fetcher reader revision goal cache stage).2 := by
  rw [act.eq_def]
  cases stage with
  | asked =>
      dsimp only
      unfold ask
      split
      · exact .named
      · exact .fails _ rfl
  | awaitingArchive => exact .locked
  | looking =>
      dsimp only
      unfold look
      split
      · split
        · cases goal
          · exact .found
          · exact .foundForTree
        · exact .unreadable
      · exact .absent
  | discarding =>
      dsimp only
      exact next_change _ rfl .discarded
  | preparing =>
      dsimp only
      unfold prepare
      split
      · exact .prepared
      · split
        · exact .prepared
        · exact .fails _ rfl
  | opening =>
      dsimp only
      unfold openPartial
      split
      · exact .opened
      · exact .unopened _
  | transferring =>
      dsimp only
      unfold transfer receive
      dsimp only
      split
      · exact .interrupted _
      · exact .received
      · exact .interrupted _
  | cleaning failure =>
      dsimp only
      unfold clean
      split
      · exact .fails _ rfl
      · exact .fails _ rfl
      · exact .fails _ rfl
  | placing =>
      dsimp only
      exact next_change _ rfl .placed
  | confirming =>
      dsimp only
      unfold confirm
      split
      · cases goal
        · exact .confirmed
        · exact .confirmedForTree
      · exact .fails _ rfl
  | choosing => exact next_lookForTree .chosen .missed
  | awaitingTree => exact .lockedForTree
  | lookingAgain => exact next_lookForTree .chosenAgain .missedAgain
  | loading =>
      dsimp only
      unfold load
      split
      · exact .loaded _
      · exact .fails _ rfl
  | clearing entries => exact next_clear revision cache entries
  | unpacking entries => exact next_unpackNext revision cache entries
  | settling =>
      dsimp only
      exact next_change _ rfl .settled
  | ended => cases hresult

theorem entries_act {good : Zip.Entry → Prop}
    (hread : ∀ bytes archive, cache.host.read revision.archivePath = .ok bytes →
      reader bytes = .ok archive → ∀ entry ∈ archive, good entry)
    (hresult : stage.result? = none) (hstage : ∀ entry ∈ stage.entries, good entry) :
    ∀ entry ∈ (act fetcher reader revision goal cache stage).2.entries, good entry := by
  by_cases hloading : stage = .loading
  · subst hloading
    rw [act]
    unfold load
    split
    · rename_i entries hentries
      obtain ⟨bytes, hpath, hbytes⟩ := archiveAt_eq_ok_iff.mp hentries
      exact hread bytes entries hpath hbytes
    · simp [Stage.entries, Stage.fail]
  · intro entry hentry
    exact hstage entry
      ((next_act fetcher reader revision goal cache hresult).entries_subset hloading hentry)

theorem transfers_change (changed : Host.Changed) (stage : Stage) :
    (cache.change changed stage).1.transfers = cache.transfers := by
  unfold change
  split <;> rfl

theorem transfers_act : (act fetcher reader revision goal cache stage).1.transfers =
    if stage.isTransferring then revision.url :: cache.transfers else cache.transfers := by
  rw [act.eq_def]
  cases stage with
  | asked => dsimp only; unfold ask; split <;> rfl
  | looking =>
      dsimp only
      unfold look
      split
      · split <;> rfl
      · rfl
  | discarding =>
      dsimp only
      exact transfers_change _ _
  | preparing =>
      dsimp only
      unfold prepare
      split
      · rfl
      · split <;> rfl
  | opening => dsimp only; unfold openPartial; split <;> rfl
  | transferring =>
      dsimp only
      unfold transfer receive
      dsimp only
      split <;> rfl
  | cleaning failure => dsimp only; unfold clean; split <;> rfl
  | placing =>
      dsimp only
      exact transfers_change _ _
  | confirming => dsimp only; unfold confirm; split <;> rfl
  | choosing => dsimp only; unfold lookForTree; split <;> rfl
  | lookingAgain => dsimp only; unfold lookForTree; split <;> rfl
  | loading => dsimp only; unfold load; split <;> rfl
  | clearing entries =>
      dsimp only
      unfold clear
      split
      · exact transfers_change _ _
      · rfl
  | unpacking entries =>
      dsimp only
      unfold unpackNext
      split
      · rfl
      · split <;> rfl
  | settling =>
      dsimp only
      exact transfers_change _ _
  | awaitingArchive => rfl
  | awaitingTree => rfl
  | ended => rfl

theorem complete_of_result {result : Except Error Unit} (hresult : stage.result? = some result) :
    complete fetcher reader revision goal cache stage = (cache, result) := by
  rw [complete.eq_def]
  split
  · rename_i other hother
    rw [hresult] at hother
    cases hother
    rfl
  · rename_i hnone
    rw [hresult] at hnone
    cases hnone

theorem complete_ended (result : Except Error Unit) :
    complete fetcher reader revision goal cache (.ended result) = (cache, result) :=
  complete_of_result rfl

theorem complete_of_running (hresult : stage.result? = none) :
    complete fetcher reader revision goal cache stage =
      complete fetcher reader revision goal (act fetcher reader revision goal cache stage).1
        (act fetcher reader revision goal cache stage).2 := by
  rw [complete.eq_def]
  split
  · rename_i result hended
    rw [hresult] at hended
    cases hended
  · rfl

end Conformance.Cache
