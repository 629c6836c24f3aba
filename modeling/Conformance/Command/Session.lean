import Conformance.Command.Arguments
import Conformance.Text.Style

namespace Conformance

/-! Doing what the arguments ask for. A session prints lines of output and of
errors, and leaves the files of the host changed where something was fetched. -/

inductive Line where
  | out (text : String)
  | err (text : String)
deriving DecidableEq, Repr

structure Session where
  lines : List Line
  cache : Cache
  succeeded : Bool
  notices : List Notice

/-- What a session works with besides the files. -/
structure Surroundings where
  color : Bool
  fetcher : Fetcher
  defaultCache : String

namespace Session

abbrev Printed := List Line × Option Error

variable (surroundings : Surroundings)

def styled (style : Text.Style) (text : String) : String :=
  Text.styled surroundings.color style text

def colored (color : Text.Color) (text : String) : String :=
  styled surroundings (.colored color) text

def override (settings : Settings) (options : Options) : Settings :=
  let settings := match options.folder with
    | some path => { settings with path := some path }
    | none => settings
  let settings := match options.archive with
    | some archive => { settings with path := none, archive := some archive }
    | none => settings
  let settings := match options.archiveRoot with
    | some archiveRoot => { settings with archiveRoot }
    | none => settings
  let settings := match options.commit with
    | some commit => { settings with path := none, archive := none, commit := some commit }
    | none => settings
  if options.subDirectories.isEmpty then settings
  else { settings with subDirectories := options.subDirectories }

/-- The items up to the first error that is not about a single file, and that
error. -/
def untilFatal : List Stream.Item → List Stream.Item × Option Error
  | [] => ([], none)
  | .ok case :: items =>
    let (before, fatal) := untilFatal items
    (.ok case :: before, fatal)
  | .error error :: items =>
    if error.isPerFile then
      let (before, fatal) := untilFatal items
      (.error error :: before, fatal)
    else ([], some error)

def caseLine? (engine : Exclusion.Engine) (excludedOnly : Bool) (part : Option String)
    (case : Case) : Option String :=
  if !part.all (fun part => Text.contains part case.fileName) then none
  else if excludedOnly then
    (engine.resolve case).map fun reason =>
      case.display ++ " " ++ styled surroundings .dimmed s!"[{reason.message}]"
  else some case.display

def itemLine? (engine : Exclusion.Engine) (excludedOnly : Bool) (part : Option String) :
    Stream.Item → Option Line
  | .ok case => (caseLine? surroundings engine excludedOnly part case).map .out
  | .error error => some (.err (colored surroundings .yellow "SKIP" ++ ": " ++ error.message))

def isOut : Line → Bool
  | .out _ => true
  | .err _ => false

def totals (lines : List Line) : List Line :=
  let skipped := lines.countP fun line => !isOut line
  [.out "", .out s!"Total: {lines.countP isOut} cases"] ++
    if skipped = 0 then []
    else [.out (colored surroundings .yellow "Warning:" ++ s!" {skipped} files could not be read")]

def list (engine : Exclusion.Engine) (excludedOnly : Bool) (part : Option String)
    (items : List Stream.Item) : Printed :=
  let (items, fatal) := untilFatal items
  let lines := items.filterMap (itemLine? surroundings engine excludedOnly part)
  match fatal with
  | some error => (lines, some error)
  | none => (lines ++ totals surroundings lines, none)

def helperLines (helper : Case) : List Line :=
  let includes := helper.metadata.includes
  let shown := if includes.isEmpty then "" else " (includes " ++ ", ".intercalate includes ++ ")"
  let description := helper.metadata.description
  .out (styled surroundings .bold helper.fileName ++ shown) ::
    if description.isEmpty then [] else [.out ("  " ++ Text.trim description)]

def helpers (stream : Stream) : Printed :=
  match stream.helpers with
  | .error error => ([], some error)
  | .ok (found, _) =>
    (found.flatMap (helperLines surroundings) ++
      [.out "", .out s!"Total: {found.length} harness files"], none)

def casesOf (items : List Stream.Item) : List Case :=
  items.filterMap Except.toOption

def unrecognized (engine : Exclusion.Engine) (items : List Stream.Item) : Printed :=
  match engine.unrecognized (casesOf items) with
  | [] => ([.out (colored surroundings .green "All exclusion entries match a test file")], none)
  | missing =>
    let title := styled surroundings (.boldColored .yellow) "=== Unrecognized exclusions ==="
    ([.out "", .out title] ++ missing.map (fun entry => .out ("  " ++ entry)) ++
      [.out "", .out s!"Total: {missing.length} entries"], none)

def heading (corpus : Corpus) : List Line :=
  [.out (styled surroundings (.boldColored .cyan) "Test262 Harness"),
   .out s!"Source: {corpus.describe}"]

def body (host : Host) (settings : Settings) (action : Action) (stream : Stream) : Printed :=
  match action with
  | .list excludedOnly part =>
    match settings.engine host with
    | .error error => ([], some error)
    | .ok engine => list surroundings engine excludedOnly part stream.items
  | .unrecognized =>
    match settings.engine host with
    | .error error => ([], some error)
    | .ok engine => unrecognized surroundings engine stream.items
  | .helpers => helpers surroundings stream
  | .fetch => ([], none)

def onStream (settings : Settings) (action : Action) (cache : Cache) : Cache × Printed :=
  match settings.openCorpus surroundings.fetcher surroundings.defaultCache cache with
  | (cache, .error error) => (cache, [], some error)
  | (cache, .ok corpus) =>
    let heading := heading surroundings corpus
    match Stream.create corpus settings.streamOptions with
    | .error error => (cache, heading, some error)
    | .ok stream =>
      let (lines, error) := body surroundings cache.host settings action stream
      (cache, heading ++ lines, error)

def unpackFetched (revision : Revision) (cache : Cache) (ready : Line) : Cache × Printed :=
  match revision.openCorpus surroundings.fetcher cache with
  | (cache, .error error) => (cache, [ready], some error)
  | (cache, .ok corpus) =>
    (cache, [ready, .out (colored surroundings .green "Extracted:" ++ " " ++ corpus.describe)],
      none)

def fetch (settings : Settings) (cache : Cache) : Cache × Printed :=
  match settings.commit with
  | none => (cache, [], some (.invalidArgument .noRevision))
  | some commit =>
    let revision := settings.revision surroundings.defaultCache commit
    match revision.ensure surroundings.fetcher cache with
    | (cache, .error error) => (cache, [], some error)
    | (cache, .ok path) =>
      let ready := Line.out (colored surroundings .green "Archive ready:" ++ " " ++ path)
      if revision.extract then unpackFetched surroundings revision cache ready
      else (cache, [ready], none)

def settingsOf (host : Host) (options : Options) : Settings × List Notice :=
  let (settings, ignored) := Settings.loadOrDefault host options.config
  (override settings options, ignored)

/-- The paths of all that a session with some settings may look at or change. -/
def places (settings : Settings) : List String :=
  let revision := settings.commit.map (settings.revision surroundings.defaultCache)
  settings.path.toList ++ settings.archive.toList ++ settings.exclusions.source.toList ++
    (revision.map fun revision =>
      [revision.archivePath, revision.partialPath, revision.scratchPath,
        revision.treePath]).getD []

def errorLine (error : Error) : Line :=
  .err (styled surroundings (.boldColored .red) "error" ++ ": " ++ error.message)

def act (settings : Settings) (action : Action) (cache : Cache) : Cache × Printed :=
  match action with
  | .fetch => fetch surroundings settings cache
  | action => onStream surroundings settings action cache

def run (arguments : Arguments) (host : Host) : Session :=
  let (settings, ignored) := settingsOf host arguments.options
  let (cache, lines, error) := act surroundings settings arguments.action { host }
  { lines := lines ++ (error.map (errorLine surroundings)).toList
    cache := cache
    succeeded := error.isNone
    notices := ignored ++ cache.notices.reverse }

def printed (session : Session) (toOut : Bool) : String :=
  String.join (session.lines.filterMap fun
    | .out text => if toOut then some (text ++ "\n") else none
    | .err text => if toOut then none else some (text ++ "\n"))

def code (session : Session) : Nat :=
  if session.succeeded then 0 else 1

def usageCode : Nat := 2

end Session

end Conformance
