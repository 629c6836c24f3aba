import Conformance.Case.Basic
import Conformance.Corpus.Basic
import Conformance.Notice

namespace Conformance

structure StreamOptions where
  subDirectories : List String := ["annexB", "built-ins", "intl402", "language"]
  filter : Case → Bool := fun _ => true
  expandStrict : Bool := true

namespace StreamOptions

def summary (options : StreamOptions) : String :=
  let directories := ", ".intercalate (options.subDirectories.map Text.quoted)
  "StreamOptions \x7b sub_directories: [" ++ directories ++
    s!"], expand_strict: {options.expandStrict}, .. \x7d"

end StreamOptions

structure Stream where
  corpus : Corpus
  options : StreamOptions

namespace Stream

def create (corpus : Corpus) (options : StreamOptions) : Except Error Stream :=
  if options.subDirectories.isEmpty then .error (.invalidArgument .noSubDirectory)
  else .ok ⟨corpus, options⟩

def isTestFile (path : String) : Bool :=
  Text.endsWith ".js" path && !Text.contains "_fixture" (Text.asciiLowercase path)

def load (corpus : Corpus) (expand : Bool) (path : String) : Except Error (List Case) := do
  let bytes ← corpus.read path
  (Case.read bytes path expand).mapError (.format (Path.normalize path))

def casesOf (loader : Metadata.Loader) (text path : String) (expand : Bool) :
    Except Error (List Case) :=
  (Case.load loader text path expand).mapError (.format (Path.normalize path))

theorem load_of_decode {corpus : Corpus} {expand : Bool} {path text : String} {bytes : ByteArray}
    (hread : corpus.read path = .ok bytes) (hdecode : Case.decode bytes = .ok text) :
    load corpus expand path = casesOf Yaml.load? text path expand := by
  simp only [load, Case.read, hread, bind, Except.bind, hdecode]
  rfl

def loadNotices (corpus : Corpus) (path : String) : List Notice :=
  match corpus.read path with
  | .ok bytes => (Case.fallbacksRead bytes).map (.fallback (Path.normalize path))
  | .error _ => []

abbrev Item := Except Error Case

def rootOf (subDirectory : String) : String :=
  "test/" ++ Path.normalize subDirectory

def fileItems (stream : Stream) (path : String) : List Item :=
  match load stream.corpus stream.options.expandStrict path with
  | .error error => [.error error]
  | .ok cases => (cases.filter stream.options.filter).map .ok

def directoryItems (stream : Stream) (subDirectory : String) : List Item :=
  match stream.corpus.list (rootOf subDirectory) true isTestFile with
  | .error error => [.error error]
  | .ok paths => paths.flatMap stream.fileItems

def items (stream : Stream) : List Item :=
  stream.options.subDirectories.flatMap stream.directoryItems

/-- A path is one from the corpus root if it starts with one of its folders,
and else one from the test folder. -/
def singlePath (path : String) : String :=
  let path := Path.normalize path
  if Text.startsWith "test/" path || Text.startsWith "harness/" path then path
  else "test/" ++ path

/-- The first case of a file, which is not expanded. -/
def single (stream : Stream) (path : String) : Except Error Case := do
  let path := singlePath path
  match ← load stream.corpus false path with
  | case :: _ => return case
  | [] => throw (.format path .noCase)

def singleNotices (stream : Stream) (path : String) : List Notice :=
  loadNotices stream.corpus (singlePath path)

def helper (corpus : Corpus) (path : String) : List Case × List Notice :=
  let notices := loadNotices corpus path
  match load corpus false path with
  | .ok cases => (cases, notices)
  | .error error => ([], notices ++ [.skippedHelper (Path.name path) error])

def helpers (stream : Stream) : Except Error (List Case × List Notice) := do
  let paths ← stream.corpus.list "harness" false (Text.endsWith ".js")
  let found := paths.map (helper stream.corpus)
  return (found.flatMap (·.1), found.flatMap (·.2))

end Stream

end Conformance
