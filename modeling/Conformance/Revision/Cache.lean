import Conformance.Notice
import Conformance.Revision.Basic
import Conformance.Revision.Unpack

namespace Conformance

/-! The cache of fetched revisions. A call brings a revision into the cache, as
an archive or as an unpacked tree, in stages; between two stages of one call,
others may go on. A transfer goes to a file of its own, which takes the
archive's place once it is whole, and a tree is unpacked likewise. -/

/-- Why a transfer failed: for a reason of its own, or with another error. -/
inductive Refusal where
  | reason (text : String)
  | raised (error : Error)

instance : Coe String Refusal := ⟨.reason⟩

def Refusal.toError (url : String) : Refusal → Error
  | reason text => .download url text
  | raised error => error

/-- What a transfer brings: some bytes, and perhaps a failure after them. -/
structure Delivery where
  bytes : ByteArray
  failure : Option Refusal := none

/-- Answers the transfers of a URL; they are counted from 0. -/
abbrev Fetcher := Nat → String → Delivery

structure Cache where
  host : Host
  transfers : List String := []
  notices : List Notice := []

namespace Cache

def notice (cache : Cache) (notice : Notice) : Cache :=
  { cache with notices := notice :: cache.notices }

section

variable (reader : Zip.Reader)

def archiveAt (host : Host) (path : String) : Except Error Zip.Archive :=
  match host.read path with
  | .ok bytes => (reader bytes).mapError .zip
  | .error .isDirectory => .error (.zip .unreadable)
  | .error fault => .error (.host fault)

def flaw? (host : Host) (path : String) : Option Zip.Problem :=
  match archiveAt reader host path with
  | .ok _ => none
  | .error (.zip problem) => some problem
  | .error _ => some .unreadable

end

inductive Goal where
  | archive
  | tree
deriving DecidableEq, Repr

inductive Stage where
  | asked
  | awaitingArchive
  | looking
  | discarding
  | preparing
  | opening
  | transferring
  | cleaning (failure : Error)
  | placing
  | confirming
  | choosing
  | awaitingTree
  | lookingAgain
  | loading
  | clearing (entries : Zip.Archive)
  | unpacking (entries : Zip.Archive)
  | settling
  | ended (result : Except Error Unit)

namespace Stage

def awaitsLock : Stage → Bool
  | awaitingArchive => true
  | awaitingTree => true
  | _ => false

def holdsLock : Stage → Bool
  | looking | discarding | preparing | opening | transferring => true
  | cleaning _ | placing | confirming => true
  | lookingAgain | loading | clearing _ | unpacking _ | settling => true
  | _ => false

def result? : Stage → Option (Except Error Unit)
  | ended result => some result
  | _ => none

def fail (error : Error) : Stage := ended (.error error)

def withArchive : Goal → Stage
  | .archive => ended (.ok ())
  | .tree => choosing

def rank : Stage → Nat
  | asked => 17
  | awaitingArchive => 16
  | looking => 15
  | discarding => 14
  | preparing => 13
  | opening => 12
  | transferring => 11
  | cleaning _ => 10
  | placing => 10
  | confirming => 9
  | choosing => 8
  | awaitingTree => 7
  | lookingAgain => 6
  | loading => 5
  | clearing _ => 4
  | unpacking _ => 3
  | settling => 2
  | ended _ => 0

def remaining : Stage → Nat
  | unpacking entries => entries.length
  | _ => 0

theorem rank_withArchive_lt (goal : Goal) : (withArchive goal).rank < 9 := by
  cases goal <;> decide

end Stage

variable (fetcher : Fetcher) (reader : Zip.Reader) (revision : Revision) (goal : Goal)

def change (cache : Cache) (changed : Host.Changed) (next : Stage) : Cache × Stage :=
  match changed with
  | .ok host => ({ cache with host }, next)
  | .error fault => (cache, .fail (.host fault))

def ask (cache : Cache) : Cache × Stage :=
  if revision.isNamed then (cache, .awaitingArchive)
  else (cache, .fail (.invalidArgument (.badRevision revision.name)))

/-- Looks for the archive. One that cannot be read is discarded. -/
def look (cache : Cache) : Cache × Stage :=
  if cache.host.isPresent revision.archivePath then
    match flaw? reader cache.host revision.archivePath with
    | none => (cache, .withArchive goal)
    | some _ => (cache.notice (.unreadableArchive revision.archivePath), .discarding)
  else (cache, .preparing)

def prepare (cache : Cache) : Cache × Stage :=
  match Host.parentPath? revision.archivePath with
  | none => (cache, .opening)
  | some parent =>
    match cache.host.createFolders parent with
    | (host, none) => ({ cache with host }, .opening)
    | (host, some fault) => ({ cache with host }, .fail (.host fault))

def openPartial (cache : Cache) : Cache × Stage :=
  match cache.host.write revision.partialPath ByteArray.empty with
  | .ok host => ({ cache with host }, .transferring)
  | .error fault => (cache, .cleaning (.host fault))

def receive (cache : Cache) (delivery : Delivery) : Cache × Stage :=
  match cache.host.write revision.partialPath delivery.bytes, delivery.failure with
  | .error fault, _ => (cache, .cleaning (.host fault))
  | .ok host, none => ({ cache with host }, .placing)
  | .ok host, some refusal => ({ cache with host }, .cleaning (refusal.toError revision.url))

def transfer (cache : Cache) : Cache × Stage :=
  { cache with transfers := revision.url :: cache.transfers }.receive revision
    (fetcher cache.transfers.length revision.url)

def clean (cache : Cache) (failure : Error) : Cache × Stage :=
  match cache.host.remove revision.partialPath with
  | .ok host => ({ cache with host }, .fail failure)
  | .error .noEntry => (cache, .fail failure)
  | .error fault => (cache.notice (.leftover revision.partialPath fault), .fail failure)

def confirm (cache : Cache) : Cache × Stage :=
  match flaw? reader cache.host revision.archivePath with
  | none => (cache, .withArchive goal)
  | some problem => (cache, .fail (.corruptArchive revision.archivePath problem))

/-- Ends with the tree that is there, or goes on to `otherwise`. -/
def lookForTree (cache : Cache) (otherwise : Stage) : Cache × Stage :=
  if cache.host.isFolder revision.treePath then (cache, .ended (.ok ())) else (cache, otherwise)

def load (cache : Cache) : Cache × Stage :=
  match archiveAt reader cache.host revision.archivePath with
  | .ok entries => (cache, .clearing entries)
  | .error error => (cache, .fail error)

def clear (cache : Cache) (entries : Zip.Archive) : Cache × Stage :=
  if cache.host.isPresent revision.scratchPath then
    cache.change (cache.host.removeTree revision.scratchPath) (.unpacking entries)
  else (cache, .unpacking entries)

def unpackNext (cache : Cache) (entries : Zip.Archive) : Cache × Stage :=
  match entries with
  | [] => (cache, .settling)
  | entry :: entries =>
    match Revision.unpackEntry revision.scratchPath revision.rootName cache.host entry with
    | (host, none) => ({ cache with host }, .unpacking entries)
    | (host, some error) => ({ cache with host }, .fail error)

def act (cache : Cache) : Stage → Cache × Stage
  | .asked => cache.ask revision
  | .awaitingArchive => (cache, .looking)
  | .looking => cache.look reader revision goal
  | .discarding => cache.change (cache.host.remove revision.archivePath) .preparing
  | .preparing => cache.prepare revision
  | .opening => cache.openPartial revision
  | .transferring => cache.transfer fetcher revision
  | .cleaning failure => cache.clean revision failure
  | .placing =>
    cache.change (cache.host.rename revision.partialPath revision.archivePath) .confirming
  | .confirming => cache.confirm reader revision goal
  | .choosing => cache.lookForTree revision .awaitingTree
  | .awaitingTree => (cache, .lookingAgain)
  | .lookingAgain => cache.lookForTree revision .loading
  | .loading => cache.load reader revision
  | .clearing entries => cache.clear revision entries
  | .unpacking entries => cache.unpackNext revision entries
  | .settling =>
    cache.change (cache.host.rename revision.scratchPath revision.treePath) (.ended (.ok ()))
  | .ended result => (cache, .ended result)

theorem rank_change_lt (cache : Cache) (changed : Host.Changed) (next : Stage) {bound : Nat}
    (h : next.rank < bound) : (cache.change changed next).2.rank < bound := by
  unfold change
  split
  · exact h
  · exact Nat.zero_lt_of_lt h

theorem rank_ask_lt (cache : Cache) : (cache.ask revision).2.rank < 17 := by
  unfold ask
  split <;> simp [Stage.rank, Stage.fail]

theorem rank_look_lt (cache : Cache) : (cache.look reader revision goal).2.rank < 15 := by
  unfold look
  split
  · split
    · exact Nat.lt_trans (Stage.rank_withArchive_lt goal) (by decide)
    · simp [Stage.rank]
  · simp [Stage.rank]

theorem rank_prepare_lt (cache : Cache) : (cache.prepare revision).2.rank < 13 := by
  unfold prepare
  split
  · simp [Stage.rank]
  · split <;> simp [Stage.rank, Stage.fail]

theorem rank_openPartial_lt (cache : Cache) : (cache.openPartial revision).2.rank < 12 := by
  unfold openPartial
  split <;> simp [Stage.rank]

theorem rank_receive_lt (cache : Cache) (delivery : Delivery) :
    (cache.receive revision delivery).2.rank < 11 := by
  unfold receive
  split <;> simp [Stage.rank]

theorem rank_transfer_lt (cache : Cache) : (cache.transfer fetcher revision).2.rank < 11 :=
  rank_receive_lt revision _ _

theorem rank_clean_lt (cache : Cache) (failure : Error) :
    (cache.clean revision failure).2.rank < 10 := by
  unfold clean
  split <;> simp [Stage.rank, Stage.fail]

theorem rank_confirm_lt (cache : Cache) : (cache.confirm reader revision goal).2.rank < 9 := by
  unfold confirm
  split
  · exact Stage.rank_withArchive_lt goal
  · simp [Stage.rank, Stage.fail]

theorem rank_lookForTree_lt (cache : Cache) (otherwise : Stage) {bound : Nat}
    (h : otherwise.rank < bound) : (cache.lookForTree revision otherwise).2.rank < bound := by
  unfold lookForTree
  split
  · exact Nat.zero_lt_of_lt h
  · exact h

theorem rank_load_lt (cache : Cache) : (cache.load reader revision).2.rank < 5 := by
  unfold load
  split <;> simp [Stage.rank, Stage.fail]

theorem rank_clear_lt (cache : Cache) (entries : Zip.Archive) :
    (cache.clear revision entries).2.rank < 4 := by
  unfold clear
  split
  · exact rank_change_lt _ _ _ (by simp [Stage.rank])
  · simp [Stage.rank]

theorem lex_of_rank_lt {next stage : Stage} (h : next.rank < stage.rank) :
    Prod.Lex (· < ·) (· < ·) (next.rank, next.remaining) (stage.rank, stage.remaining) :=
  Prod.Lex.left _ _ h

theorem lex_unpackNext (cache : Cache) (entries : Zip.Archive) :
    Prod.Lex (· < ·) (· < ·)
      ((cache.unpackNext revision entries).2.rank, (cache.unpackNext revision entries).2.remaining)
      ((Stage.unpacking entries).rank, (Stage.unpacking entries).remaining) := by
  unfold unpackNext
  split
  · exact lex_of_rank_lt (by simp [Stage.rank])
  · split
    · exact Prod.Lex.right _ (by simp [Stage.remaining])
    · exact lex_of_rank_lt (by simp [Stage.rank, Stage.fail])

theorem lex_act (cache : Cache) {stage : Stage} (h : stage.result? = none) :
    Prod.Lex (· < ·) (· < ·)
      ((act fetcher reader revision goal cache stage).2.rank,
        (act fetcher reader revision goal cache stage).2.remaining)
      (stage.rank, stage.remaining) := by
  cases stage with
  | unpacking entries => exact lex_unpackNext revision cache entries
  | ended => simp [Stage.result?] at h
  | asked => exact lex_of_rank_lt (rank_ask_lt revision cache)
  | awaitingArchive => exact lex_of_rank_lt (by simp [act, Stage.rank])
  | looking => exact lex_of_rank_lt (rank_look_lt reader revision goal cache)
  | discarding => exact lex_of_rank_lt (rank_change_lt _ _ _ (by decide))
  | preparing => exact lex_of_rank_lt (rank_prepare_lt revision cache)
  | opening => exact lex_of_rank_lt (rank_openPartial_lt revision cache)
  | transferring => exact lex_of_rank_lt (rank_transfer_lt fetcher revision cache)
  | cleaning failure => exact lex_of_rank_lt (rank_clean_lt revision cache failure)
  | placing => exact lex_of_rank_lt (rank_change_lt _ _ _ (by decide))
  | confirming => exact lex_of_rank_lt (rank_confirm_lt reader revision goal cache)
  | choosing => exact lex_of_rank_lt (rank_lookForTree_lt revision cache _ (by decide))
  | awaitingTree => exact lex_of_rank_lt (by simp [act, Stage.rank])
  | lookingAgain => exact lex_of_rank_lt (rank_lookForTree_lt revision cache _ (by decide))
  | loading => exact lex_of_rank_lt (rank_load_lt reader revision cache)
  | clearing entries => exact lex_of_rank_lt (rank_clear_lt revision cache entries)
  | settling => exact lex_of_rank_lt (rank_change_lt _ _ _ (by decide))

/-- A call that is alone, from a stage to the end. -/
def complete (cache : Cache) (stage : Stage) : Cache × Except Error Unit :=
  match _h : stage.result? with
  | some result => (cache, result)
  | none =>
    let next := act fetcher reader revision goal cache stage
    complete next.1 next.2
termination_by (stage.rank, stage.remaining)
decreasing_by exact lex_act fetcher reader revision goal cache _h

end Cache

end Conformance
