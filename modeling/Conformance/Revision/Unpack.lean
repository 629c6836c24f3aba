import Conformance.Host.Basic
import Conformance.Zip.Archive

namespace Conformance.Revision

def target? (rootName : String) (entry : Zip.Entry) : Option (List String) :=
  match entry.enclosed with
  | some (root :: top :: rest) =>
    if root = rootName ∧ (top = "test" ∨ top = "harness") then some (top :: rest) else none
  | _ => none

abbrev Unpacked := Host × Option Error

def placeFile (host : Host) (path : String) (held : Except Host.Fault ByteArray) : Unpacked :=
  match host.write path ByteArray.empty with
  | .error fault => (host, some (.host fault))
  | .ok host =>
    match held with
    | .error fault => (host, some (.host fault))
    | .ok bytes =>
      match host.write path bytes with
      | .error fault => (host, some (.host fault))
      | .ok host => (host, none)

/-- The folder of a file is made only where nothing stands in its place. -/
def placeParents (host : Host) (path : String) : Unpacked :=
  match Host.parentPath? path with
  | none => (host, none)
  | some parent =>
    if host.isPresent parent then (host, none)
    else
      let (host, fault) := host.createFolders parent
      (host, fault.map .host)

def unpackEntry (folder rootName : String) (host : Host) (entry : Zip.Entry) : Unpacked :=
  match entry.opened with
  | .error problem => (host, some (.zip problem))
  | .ok held =>
    match target? rootName entry with
    | none => (host, none)
    | some segments =>
      let path := Host.join folder ("/".intercalate segments)
      if entry.isFolder then
        let (host, fault) := host.createFolders path
        (host, fault.map .host)
      else
        match placeParents host path with
        | (host, some error) => (host, some error)
        | (host, none) => placeFile host path held

end Conformance.Revision
