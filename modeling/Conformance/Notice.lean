import Conformance.Error

namespace Conformance

inductive Hook where
  | execute
  | shouldThrow
  | isIgnored
  | onTestExecuted
deriving DecidableEq, Repr

def Hook.name : Hook → String
  | execute => "executor"
  | shouldThrow => "should_throw"
  | isIgnored => "is_ignored"
  | onTestExecuted => "on_test_executed"

inductive Notice where
  | fallback (file : String) (found : Metadata.Fallback)
  | skippedTest (error : Error)
  | skippedHelper (name : String) (error : Error)
  | crashed (case : String) (hook : Hook) (text : String)
  | unreadableArchive (path : String)
  | leftover (path : String) (fault : Host.Fault)
  | settingsIgnored (error : Error)
deriving DecidableEq, Repr

namespace Notice

def message : Notice → String
  | fallback _ found => found.message
  | skippedTest error => s!"Skipping test file: {error.message}"
  | skippedHelper name error => s!"Skipping harness file {name}: {error.message}"
  | crashed _ hook text => s!"{hook.name} panicked: {text}"
  | unreadableArchive path =>
    s!"Could not open the archive {Text.quotedPath path}, deleting it and downloading again"
  | leftover path fault => s!"Could not remove {Text.quotedPath path}: {fault.message}"
  | settingsIgnored error => error.message

def fields : Notice → List (String × String)
  | fallback file _ => [("file", file)]
  | crashed case _ _ => [("test", case)]
  | _ => []

end Notice

end Conformance
