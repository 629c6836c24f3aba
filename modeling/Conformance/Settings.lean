import Conformance.Exclusion.Engine
import Conformance.Revision.Opened
import Conformance.Run.Runner
import Conformance.Corpus.Stream
import Conformance.Toml.Document

namespace Conformance

structure Settings where
  path : Option String := none
  archive : Option String := none
  archiveRoot : String := ""
  commit : Option String := none
  cacheFolder : Option String := none
  extract : Bool := false
  subDirectories : List String := ["annexB", "built-ins", "intl402", "language"]
  maxParallelism : Option Nat := none
  exclusions : Exclusion.Rules := {}
deriving DecidableEq, Repr

namespace Settings

def text? : Toml.Value → Option String
  | .text value => some value
  | _ => none

def flag? : Toml.Value → Option Bool
  | .scalar (.boolean value) => some value
  | _ => none

def count? : Toml.Value → Option Nat
  | .scalar (.integer (.ofNat value)) => if value < Nat.pow 2 64 then some value else none
  | _ => none

def texts? : Toml.Value → Option (List String)
  | .array items => items.mapM text?
  | _ => none

def orDefault (absent : α) (read : Toml.Value → Option α) : Option Toml.Value → Option α
  | none => some absent
  | some value => read value

def rulesOf? (file features flags directories source : Option Toml.Value) :
    Option Exclusion.Rules := do
  let files ← orDefault [] texts? file
  let features ← orDefault [] texts? features
  let flags ← orDefault [] texts? flags
  let directories ← orDefault [] texts? directories
  let source ← orDefault none (fun value => (text? value).map some) source
  return { files, features, flags, directories, source }

def rulesOfEntries? (entries : Toml.Entries) : Option Exclusion.Rules :=
  rulesOf? (entries.get? "excluded_files") (entries.get? "excluded_features")
    (entries.get? "excluded_flags") (entries.get? "excluded_directories")
    (entries.get? "excluded_files_source")

def rulesOfItems? (items : List Toml.Value) : Option Exclusion.Rules :=
  rulesOf? items[0]? items[1]? items[2]? items[3]? items[4]?

/-- Rules are a table, or a list of its values in their order. A moment stands
for a table of none of the keys. -/
def rules? : Toml.Value → Option Exclusion.Rules
  | .table _ entries => rulesOfEntries? entries
  | .array items => rulesOfItems? items
  | .tables earlier last => rulesOfItems? (earlier ++ [.table .headed last])
  | .scalar .moment => some {}
  | _ => none

def ofEntries? (entries : Toml.Entries) : Option Settings := do
  let optional (key : String) := orDefault none (fun value => (text? value).map some)
    (entries.get? key)
  let path ← optional "test262_path"
  let archive ← optional "test262_archive"
  let archiveRoot ← orDefault "" text? (entries.get? "archive_root")
  let commit ← optional "test262_commit"
  let cacheFolder ← optional "cache_dir"
  let extract ← orDefault false flag? (entries.get? "extract")
  let defaults : Settings := {}
  let subDirectories ← orDefault defaults.subDirectories texts? (entries.get? "sub_directories")
  let maxParallelism ← orDefault none (fun value => (count? value).map some)
    (entries.get? "max_parallelism")
  let exclusions ← orDefault {} rules? (entries.get? "exclusions")
  return { path, archive, archiveRoot, commit, cacheFolder, extract, subDirectories,
           maxParallelism, exclusions }

def ofText? (text : String) : Option Settings :=
  (Toml.Document.read? text).bind ofEntries?

def ofText (text : String) : Except Error Settings :=
  match ofText? text with
  | some settings => .ok settings
  | none => .error (.settings .malformed)

def load (host : Host) (path : String) : Except Error Settings :=
  match host.read path with
  | .error fault => .error (.settings (.unreadable path fault))
  | .ok bytes =>
    match String.fromUTF8? bytes with
    | none => .error (.settings (.unreadable path .notText))
    | some text =>
      match ofText? text with
      | some settings => .ok settings
      | none => .error (.settings (.malformedFile path))

def defaultFile : String := "test262_harness.toml"

def loadOrDefault (host : Host) (path : Option String) : Settings × List Notice :=
  match path with
  | none => if host.isPresent defaultFile then orNotice (load host defaultFile) else ({}, [])
  | some path => orNotice (load host path)
where
  orNotice : Except Error Settings → Settings × List Notice
    | .ok settings => (settings, [])
    | .error error => ({}, [.settingsIgnored error])

def revision (settings : Settings) (defaultCache name : String) : Revision where
  name := name
  cacheFolder := settings.cacheFolder.getD defaultCache
  extract := settings.extract

def streamOptions (settings : Settings) : StreamOptions :=
  { subDirectories := settings.subDirectories }

def engine (settings : Settings) (host : Host) : Except Error Exclusion.Engine :=
  Exclusion.Engine.ofRules settings.exclusions host.read

/-- The corpus: a folder goes before an archive, and an archive before a
revision. -/
def openCorpus (settings : Settings) (fetcher : Fetcher) (defaultCache : String)
    (cache : Cache) : Cache × Except Error Corpus :=
  match settings.path, settings.archive, settings.commit with
  | some path, _, _ => (cache, (Directory.ofPath cache.host path).map Directory.toCorpus)
  | none, some archive, _ =>
    (cache, (Index.ofFile cache.host archive settings.archiveRoot).map Index.toCorpus)
  | none, none, some commit =>
    (settings.revision defaultCache commit).openCorpus fetcher cache
  | none, none, none => (cache, .error (.invalidArgument .noSource))

end Settings

end Conformance
