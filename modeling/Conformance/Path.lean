import Conformance.Text.Search

namespace Conformance.Path

def slashed (c : Char) : Char :=
  if c = '\\' then '/' else c

def dropHere : List Char → List Char
  | '.' :: '/' :: rest => dropHere rest
  | path => path

def trimSlashes (path : List Char) : List Char :=
  ((path.dropWhile (· == '/')).reverse.dropWhile (· == '/')).reverse

def normalized (path : List Char) : List Char :=
  trimSlashes (dropHere (path.map slashed))

/-- The corpus form of a path: backslashes read as slashes, then leading `./`
and then the slashes at both ends removed. -/
def normalize (path : String) : String :=
  .ofList (normalized path.toList)

@[simp] theorem toList_normalize (path : String) :
    (normalize path).toList = normalized path.toList := by
  simp [normalize]

def segments (path : List Char) : List (List Char) :=
  path.splitOn '/'

def lastSegment (path : List Char) : List Char :=
  (path.reverse.takeWhile (· != '/')).reverse

def parent? (path : List Char) : Option (List Char) :=
  match path.reverse.dropWhile (· != '/') with
  | [] => none
  | _ :: front => some front.reverse

def name (path : String) : String :=
  .ofList (lastSegment path.toList)

/-- A path is at or below a folder when the folder's path stands in front of it
and ends where the path ends or at a slash. -/
def within (folder path : List Char) : Bool :=
  match Text.after? folder path with
  | some [] => true
  | some (c :: _) => c == '/'
  | none => false

def isWithin (folder path : String) : Bool :=
  within folder.toList path.toList

theorem parent?_eq_some {path front : List Char} (h : parent? path = some front) :
    path = front ++ '/' :: lastSegment path := by
  unfold parent? at h
  split at h
  · simp at h
  · rename_i c rest hrest
    cases h
    have hc : c = '/' := by
      have := List.head?_dropWhile_not (· != '/') path.reverse
      simpa [hrest] using this
    have hwhole := List.takeWhile_append_dropWhile (p := (· != '/')) (l := path.reverse)
    rw [hrest, hc] at hwhole
    have := congrArg List.reverse hwhole
    simpa [lastSegment] using this.symm

theorem length_parent?_lt {path front : List Char} (h : parent? path = some front) :
    front.length < path.length := by
  rw [parent?_eq_some h]
  simp

def sortPaths (paths : List String) : List String :=
  paths.mergeSort fun left right => decide (left ≤ right)

end Conformance.Path
