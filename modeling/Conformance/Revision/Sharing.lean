import Conformance.Revision.Cache

namespace Conformance

structure Call where
  revision : Revision
  goal : Cache.Goal
  stage : Cache.Stage := .asked

structure Sharing where
  cache : Cache
  calls : List Call

namespace Sharing

def isLocked (sharing : Sharing) : Bool :=
  sharing.calls.any (·.stage.holdsLock)

def setStage (sharing : Sharing) (number : Nat) (call : Call) (cache : Cache)
    (stage : Cache.Stage) : Sharing :=
  ⟨cache, sharing.calls.set number { call with stage }⟩

/-- The next stage of a call, unless it ended or has to wait. -/
def move? (fetcher : Fetcher) (reader : Zip.Reader) (sharing : Sharing) (number : Nat) :
    Option Sharing :=
  match sharing.calls[number]? with
  | none => none
  | some call =>
    if call.stage.result?.isSome || (call.stage.awaitsLock && sharing.isLocked) then none
    else
      let next := Cache.act fetcher reader call.revision call.goal sharing.cache call.stage
      some (sharing.setStage number call next.1 next.2)

end Sharing

end Conformance
