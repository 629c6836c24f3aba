import Conformance.Corpus.Basic
import Conformance.Host.Basic

namespace Conformance

structure Directory where
  host : Host
  base : String

namespace Directory

def ofPath (host : Host) (base : String) : Except Error Directory :=
  if base.isEmpty then .error (.invalidArgument .emptyBase)
  else if host.isFolder base then .ok ⟨host, base⟩
  else .error (.invalidArgument (.missingBase base))

/-- Segments of a path that go down only; a dot counts for nothing, except in
front. -/
def isPlain (path : List Char) : Bool :=
  let segments := Path.segments path
  segments.head? != some ['.'] && !segments.contains ['.', '.']

def locate (directory : Directory) (path : String) : Except Error String :=
  let path := Path.normalize path
  if isPlain path.toList then .ok (Host.join directory.base path)
  else .error (.notFound path)

/-- The corpus path of what lies below a root; the root stays as it was given. -/
def listedPath (root : String) (rest : Host.Location) : String :=
  let below := "/".intercalate rest
  Path.normalize (if root.isEmpty then below else root ++ "/" ++ below)

def filesBelow (host : Host) (folder : Host.Location) : List Host.Location :=
  (host.contents folder).filterMap fun entry =>
    match entry.2 with
    | .file _ => some entry.1
    | _ => none

def list (directory : Directory) (root : String) (recursive : Bool)
    (test : String → Bool) : Except Error (List String) := do
  let folder ← directory.locate root
  let root := Path.normalize root
  match directory.host.resolve folder with
  | .ok (location, .folder) =>
    let rests := (filesBelow directory.host location).filter fun rest =>
      recursive || rest.length == 1
    return Path.sortPaths ((rests.map (listedPath root)).filter test)
  | _ => throw (.notFound root)

def read (directory : Directory) (path : String) : Except Error ByteArray := do
  let target ← directory.locate path
  if directory.host.isFolder target then throw (.notFound (Path.normalize path))
  match directory.host.read target with
  | .ok bytes => return bytes
  | .error .noEntry => throw (.notFound (Path.normalize path))
  | .error fault => throw (.host fault)

def toCorpus (directory : Directory) : Corpus where
  list := directory.list
  read := directory.read
  describe := s!"directory {directory.base}"

end Directory

end Conformance
