import Conformance.Case.Metadata
import Conformance.Glob.Problem
import Conformance.Host.Fault
import Conformance.Text.Quoted
import Conformance.Zip.Problem

namespace Conformance

inductive ArgumentProblem where
  | noSubDirectory
  | emptyBase
  | missingBase (path : String)
  | badPattern (entry glob : String) (problem : Glob.Problem)
  | noWorker
  | noCorpusFolder (lead : String)
  | badRevision (revision : String)
  | noSource
  | noRevision
deriving DecidableEq, Repr

def ArgumentProblem.message : ArgumentProblem → String
  | noSubDirectory => "at least one test sub-directory is required"
  | emptyBase => "base directory must not be empty"
  | missingBase path => s!"base directory {path} does not exist"
  | badPattern entry glob problem =>
    s!"invalid exclusion pattern \x60{entry}\x60: error parsing glob '{glob}': {problem.message}"
  | noWorker => "max_parallelism must be at least 1"
  | noCorpusFolder lead => s!"archive has no \x60{lead}test\x60 or \x60{lead}harness\x60 folder"
  | badRevision revision => s!"invalid test262 revision \x60{revision}\x60"
  | noSource =>
    "no test262 source configured (set test262_path, test262_archive or test262_commit)"
  | noRevision => "fetch needs --commit or test262_commit in the config file"

inductive SettingsProblem where
  | unreadable (path : String) (fault : Host.Fault)
  | malformedFile (path : String)
  | malformed
deriving DecidableEq, Repr

def SettingsProblem.message : SettingsProblem → String
  | unreadable path fault => s!"Failed to read config '{path}': {fault.message}"
  | malformedFile path => s!"Failed to parse config '{path}'"
  | malformed => "Failed to parse config"

inductive Error where
  | format (file : String) (problem : Metadata.Problem)
  | notFound (path : String)
  | invalidArgument (problem : ArgumentProblem)
  | corruptArchive (path : String) (problem : Zip.Problem)
  | download (url reason : String)
  | settings (problem : SettingsProblem)
  | host (fault : Host.Fault)
  | zip (problem : Zip.Problem)
deriving DecidableEq, Repr

namespace Error

def message : Error → String
  | format file problem => s!"Test case {file} is invalid: {problem.message}"
  | notFound path => s!"Could not find \x60{path}\x60"
  | invalidArgument problem => s!"Invalid argument: {problem.message}"
  | corruptArchive path _ => s!"Archive {Text.quotedPath path} is corrupt"
  | download url reason => s!"Failed to download {url}: {reason}"
  | settings problem => s!"Configuration error: {problem.message}"
  | host fault => s!"IO error: {fault.message}"
  | zip _ => "Zip error"

def isPerFile : Error → Bool
  | format _ _ => true
  | notFound _ => true
  | _ => false

end Error

end Conformance
