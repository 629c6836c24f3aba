import Conformance.Error
import Conformance.Host.Basic
import Conformance.Text.Blank

namespace Conformance

structure Revision where
  name : String
  cacheFolder : String
  extract : Bool := false
deriving DecidableEq, Repr

namespace Revision

def published : String := "https://github.com/tc39/test262/archive"

def url (revision : Revision) : String :=
  s!"{published}/{revision.name}.zip"

/-- The folder that holds everything in the archive. -/
def rootName (revision : Revision) : String :=
  s!"test262-{revision.name}"

def place (revision : Revision) (name : String) : String :=
  Host.join revision.cacheFolder name

def archivePath (revision : Revision) : String :=
  revision.place s!"{revision.rootName}.zip"

/-- Where an archive is kept until all of it is there. -/
def partialPath (revision : Revision) : String :=
  revision.place s!"{revision.rootName}.zip.part"

def treePath (revision : Revision) : String :=
  revision.place revision.rootName

/-- Where a tree is kept until all of it is unpacked. -/
def scratchPath (revision : Revision) : String :=
  revision.place s!".{revision.rootName}.extracting"

def summary (revision : Revision) : String :=
  "RemoteOptions \x7b revision: " ++ Text.quoted revision.name ++
    ", cache_dir: " ++ Text.quotedPath revision.cacheFolder ++
    s!", extract: {revision.extract}, .. \x7d"

def isNamed (revision : Revision) : Bool :=
  let name := Text.trimmed revision.name.toList
  !name.isEmpty && !name.contains '/' && !name.contains '\\'

end Revision

end Conformance
