import Conformance.Corpus.Basic
import Conformance.Host.Basic
import Conformance.Zip.Archive
import Std.Data.TreeMap
import Std.Data.TreeSet

namespace Conformance

structure Index where
  entries : Array Zip.Entry
  files : Std.TreeMap String Nat
  directories : Std.TreeSet String
  label : String

namespace Index

def tops : List String := ["test", "harness"]

def isCorpusPath (path : String) : Bool :=
  tops.any fun top => Path.isWithin top path

/-- Adds a folder and those around it, up to the first that is there. -/
def addFolder (path : List Char) (directories : Std.TreeSet String) : Std.TreeSet String :=
  let text := String.ofList path
  if path.isEmpty || directories.contains text then directories
  else
    match _h : Path.parent? path with
    | none => directories.insert text
    | some parent => addFolder parent (directories.insert text)
termination_by path.length
decreasing_by exact Path.length_parent?_lt _h

def leadOf (root : String) : String :=
  if root.isEmpty then "" else root ++ "/"

def corpusPath? (lead name : String) : Option String :=
  match (Text.stripStart? lead name).map Path.normalize with
  | some path => if isCorpusPath path then some path else none
  | none => none

structure Tables where
  files : Std.TreeMap String Nat := {}
  directories : Std.TreeSet String := {}

def Tables.add (lead : String) (tables : Tables) (number : Nat) (name : String)
    (isFolder : Bool) : Tables :=
  match corpusPath? lead name with
  | none => tables
  | some path =>
    if isFolder then
      { tables with directories := addFolder path.toList tables.directories }
    else
      { files := tables.files.insert path number
        directories :=
          match Path.parent? path.toList with
          | none => tables.directories
          | some parent => addFolder parent tables.directories }

def tablesOf (lead : String) (listed : List (String × Bool)) : Tables :=
  listed.zipIdx.foldl (fun tables entry => tables.add lead entry.2 entry.1.1 entry.1.2) {}

def hasTop (directories : Std.TreeSet String) : Bool :=
  tops.any directories.contains

/-- An entry whose header is broken makes the archive unreadable. -/
def faultOf? (archive : Zip.Archive) : Option Zip.Problem :=
  archive.findSome? fun entry =>
    match entry.body with
    | .error .badHeader => some .badHeader
    | _ => none

def ofArchive (archive : Zip.Archive) (rootName : String) : Except Error Index :=
  match faultOf? archive with
  | some problem => .error (.zip problem)
  | none =>
    let root := Path.normalize rootName
    let lead := leadOf root
    let tables := tablesOf lead (archive.map fun entry => (entry.name, entry.isFolder))
    if hasTop tables.directories then
      .ok
        { entries := archive.toArray
          files := tables.files
          directories := tables.directories
          label := s!"zip archive (root \x60{root}\x60)" }
    else .error (.invalidArgument (.noCorpusFolder lead))

def ofBytes (bytes : ByteArray) (rootName : String)
    (reader : Zip.Reader := Zip.Archive.ofBytes) : Except Error Index :=
  match reader bytes with
  | .error problem => .error (.zip problem)
  | .ok archive => ofArchive archive rootName

/-- The bytes of an archive file. A folder can be opened, but holds no bytes to
be read. -/
def archiveBytes (host : Host) (path : String) : Except Error ByteArray :=
  match host.read path with
  | .ok bytes => .ok bytes
  | .error .isDirectory => .error (.zip .unreadable)
  | .error .noEntry => .error (.notFound path)
  | .error fault => .error (.host fault)

def ofFile (host : Host) (path rootName : String)
    (reader : Zip.Reader := Zip.Archive.ofBytes) : Except Error Index := do
  let bytes ← archiveBytes host path
  let index ← ofBytes bytes rootName reader
  return { index with label := s!"zip archive {path}" }

def size (index : Index) : Nat := index.files.size

def summary (index : Index) : String :=
  "ZipArchiveFileSystem \x7b label: " ++ Text.quoted index.label ++
    s!", files: {index.files.size}, directories: {index.directories.size}, .. \x7d"

/-- The files whose paths start with `lead`. Paths are in order, so they stand
together, from where `lead` itself would stand. -/
def startingWith (index : Index) (lead : String) : List String :=
  (index.files.keys.dropWhile fun path => decide (path < lead)).takeWhile
    (Text.startsWith lead)

def isDirectlyBelow (lead path : String) : Bool :=
  match Text.stripStart? lead path with
  | some rest => !rest.toList.contains '/'
  | none => false

def list (index : Index) (root : String) (recursive : Bool)
    (test : String → Bool) : Except Error (List String) :=
  let root := Path.normalize root
  if !root.isEmpty && !index.directories.contains root then .error (.notFound root)
  else
    let lead := leadOf root
    .ok ((index.startingWith lead).filter fun path =>
      (recursive || isDirectlyBelow lead path) && test path)

def read (index : Index) (path : String) : Except Error ByteArray :=
  let path := Path.normalize path
  match index.files[path]?.bind (index.entries[·]?) with
  | none => .error (.notFound path)
  | some entry => entry.read

def toCorpus (index : Index) : Corpus where
  list := index.list
  read := index.read
  describe := index.label

end Index

end Conformance
