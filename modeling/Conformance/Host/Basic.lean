import Conformance.Host.Fault
import Conformance.Text.Search
import Std.Data.TreeMap

namespace Conformance

/-! The host's files: what stands under each absolute path, a path being the
list of its names. The root is always a folder. -/

namespace Host

inductive Entry where
  | file (bytes : ByteArray)
  | folder
  | link (target : String)

abbrev Location := List String

end Host

structure Host where
  entries : Std.TreeMap Host.Location Host.Entry
  workingFolder : Host.Location

namespace Host

def empty (workingFolder : Location) : Host := ⟨{}, workingFolder⟩

def get? (host : Host) (location : Location) : Option Entry :=
  if location = [] then some .folder else host.entries[location]?

def put (host : Host) (location : Location) (entry : Entry) : Host :=
  { host with entries := host.entries.insert location entry }

def drop (host : Host) (location : Location) : Host :=
  { host with entries := host.entries.erase location }

def isFolderAt (host : Host) (location : Location) : Bool :=
  match host.get? location with
  | some .folder => true
  | _ => false

theorem get?_put (host : Host) (location other : Location) (entry : Entry)
    (h : location ≠ []) :
    (host.put location entry).get? other =
      if other = location then some entry else host.get? other := by
  unfold get? put
  by_cases hroot : other = []
  · subst hroot
    simp [Ne.symm h]
  · simp only [hroot, if_false, Std.TreeMap.getElem?_insert]
    by_cases hsame : other = location
    · subst hsame; simp
    · simp [hsame, Std.LawfulEqCmp.compare_eq_iff_eq, Ne.symm hsame]

/-- The names of a path; empty ones do not count. -/
def names (path : String) : List String :=
  let parts := ((path.toList.splitOn '/').filter (!·.isEmpty)).map String.ofList
  if Text.endsWith "/" path && !parts.isEmpty then parts ++ ["."] else parts

def isAbsolute (path : String) : Bool := Text.startsWith "/" path

def origin (host : Host) (path : String) : Location :=
  if isAbsolute path then [] else host.workingFolder

def join (folder name : String) : String :=
  if isAbsolute name then name
  else if folder.isEmpty || Text.endsWith "/" folder then folder ++ name
  else folder ++ "/" ++ name

def longestName : Nat := 255

def pathLimit : Nat := 4096

/-- Goes on from the location `at'` along names; `last` says whether a link as
the last of them is followed. -/
def follow (host : Host) (last : Bool) (links : Nat) (reached : Location)
    (ahead : List String) : Except Fault Location :=
  match ahead with
  | [] => .ok reached
  | name :: ahead =>
    if !host.isFolderAt reached then .error .notDirectory
    else if name = "." then host.follow last links reached ahead
    else if name = ".." then host.follow last links reached.dropLast ahead
    else if longestName < name.utf8ByteSize then .error .nameTooLong
    else
      let next := reached ++ [name]
      match host.get? next with
      | none => if ahead.isEmpty then .ok next else .error .noEntry
      | some (.link target) =>
        if ahead.isEmpty && !last then .ok next
        else
          match links with
          | 0 => .error .tooManyLinks
          | links + 1 =>
            host.follow last links (if isAbsolute target then [] else reached)
              (names target ++ ahead)
      | some _ => host.follow last links next ahead
termination_by (links, ahead.length)

/-- The location a path leads to, which may be free if all in front of it is
there. -/
def find (host : Host) (path : String) (last : Bool := true) : Except Fault Location :=
  if path.toList.contains '\x00' then .error .nulInName
  else if path.isEmpty then .error .noEntry
  else if pathLimit ≤ path.utf8ByteSize then .error .nameTooLong
  else host.follow last 40 (host.origin path) (names path)

def resolve (host : Host) (path : String) : Except Fault (Location × Entry) := do
  let location ← host.find path
  match host.get? location with
  | none => .error .noEntry
  | some entry => .ok (location, entry)

def isPresent (host : Host) (path : String) : Bool :=
  match host.resolve path with
  | .ok _ => true
  | .error _ => false

def isFolder (host : Host) (path : String) : Bool :=
  match host.resolve path with
  | .ok (_, .folder) => true
  | _ => false

def read (host : Host) (path : String) : Except Fault ByteArray := do
  match ← host.resolve path with
  | (_, .file bytes) => .ok bytes
  | (_, .folder) => .error .isDirectory
  | (_, .link _) => .error .tooManyLinks

def below? (folder location : Location) : Option Location :=
  match folder, location with
  | [], rest => if rest = [] then none else some rest
  | _ :: _, [] => none
  | name :: folder, other :: location => if name = other then below? folder location else none

def isBelow (folder location : Location) : Bool := (below? folder location).isSome

def within (folder location : Location) : Bool :=
  folder == location || isBelow folder location

def contents (host : Host) (folder : Location) : List (Location × Entry) :=
  host.entries.toList.filterMap fun entry =>
    (below? folder entry.1).map fun rest => (rest, entry.2)

abbrev Changed := Except Fault Host

def createFolder (host : Host) (path : String) : Changed := do
  let location ← host.find path false
  match host.get? location with
  | some _ => .error .fileExists
  | none => .ok (host.put location .folder)

def parentPath? (path : String) : Option String :=
  let trimmed := (path.toList.reverse.dropWhile (· == '/')).reverse
  if trimmed.isEmpty then none
  else
    let front := (trimmed.reverse.dropWhile (· != '/')).reverse
    let folder := (front.reverse.dropWhile (· == '/')).reverse
    some (if folder.isEmpty && !front.isEmpty then "/" else .ofList folder)

/-- The folder and those in front of it, as far as they are missing. `fuel`
bounds how many are. Folders made before a fault stay. -/
def createFoldersFrom (host : Host) : Nat → String → Host × Option Fault
  | fuel, path =>
    if path.isEmpty then (host, none)
    else
      match host.createFolder path with
      | .ok host => (host, none)
      | .error .noEntry =>
        match fuel, parentPath? path with
        | fuel + 1, some parent =>
          match host.createFoldersFrom fuel parent with
          | (host, some fault) => (host, some fault)
          | (host, none) =>
            match host.createFolder path with
            | .ok host => (host, none)
            | .error fault => (host, if host.isFolder path then none else some fault)
        | _, _ => (host, some .noEntry)
      | .error fault => (host, if host.isFolder path then none else some fault)

def createFolders (host : Host) (path : String) : Host × Option Fault :=
  host.createFoldersFrom path.length path

def write (host : Host) (path : String) (bytes : ByteArray) : Changed := do
  let location ← host.find path
  match host.get? location with
  | some .folder => .error .isDirectory
  | some (.link _) => .error .tooManyLinks
  | _ => .ok (host.put location (.file bytes))

def createLink (host : Host) (path target : String) : Changed := do
  let location ← host.find path false
  match host.get? location with
  | some _ => .error .fileExists
  | none => .ok (host.put location (.link target))

def remove (host : Host) (path : String) : Changed := do
  let location ← host.find path false
  match host.get? location with
  | none => .error .noEntry
  | some .folder => .error .isDirectory
  | some _ => .ok (host.drop location)

def dropTree (host : Host) (location : Location) : Host :=
  { host with entries := host.entries.filter fun other _ => !within location other }

/-- Removes a folder with all that lies in it; of a link only the link itself. -/
def removeTree (host : Host) (path : String) : Changed := do
  let location ← host.find path false
  match host.get? location with
  | none => .error .noEntry
  | some (.file _) => .error .notDirectory
  | some (.link _) => .ok (host.drop location)
  | some .folder => .ok (host.dropTree location)

def moveTree (host : Host) (source target : Location) : Host :=
  let moved := (host.contents source).map fun entry => (target ++ entry.1, entry.2)
  let root := (host.get? source).toList.map fun entry => (target, entry)
  let cleared := (host.dropTree source).dropTree target
  { cleared with
    entries := (root ++ moved).foldl (fun entries entry => entries.insert entry.1 entry.2)
      cleared.entries }

/-- Gives a file or folder another path. A file may take a file's place, and a
folder that of an empty folder. -/
def rename (host : Host) (source target : String) : Changed := do
  let old ← host.find source false
  let new ← host.find target false
  match host.get? old, host.get? new with
  | none, _ => .error .noEntry
  | some _, none => .ok (host.moveTree old new)
  | some .folder, some .folder =>
    if old = new then .ok host
    else if (host.contents new).isEmpty then .ok (host.moveTree old new)
    else .error .notEmpty
  | some .folder, some _ => .error .notDirectory
  | some _, some .folder => .error .isDirectory
  | some _, some _ => if old = new then .ok host else .ok (host.moveTree old new)

end Host

end Conformance
