import Conformance.Toml.Scalar

namespace Conformance.Toml

/-- How a table came about: as the way to a headed one, by a dotted key, under a
header of its own, or between braces. -/
inductive Origin where
  | implied
  | dotted
  | headed
  | closed
deriving DecidableEq, Repr

inductive Value where
  | text (value : String)
  | scalar (value : Scalar)
  | array (items : List Value)
  | table (origin : Origin) (entries : List (String × Value))
  | tables (earlier : List Value) (last : List (String × Value))

abbrev Entries := List (String × Value)

namespace Entries

def get? (entries : Entries) (key : String) : Option Value :=
  match entries with
  | [] => none
  | entry :: rest => if entry.1 = key then some entry.2 else get? rest key

def set (key : String) (value : Value) : Entries → Entries
  | [] => [(key, value)]
  | entry :: entries =>
    if entry.1 = key then (key, value) :: entries else entry :: set key value entries

@[simp] theorem get?_set_self (entries : Entries) (key : String) (value : Value) :
    (set key value entries).get? key = some value := by
  induction entries with
  | nil => simp [set, get?]
  | cons entry entries ih =>
    by_cases h : entry.1 = key
    · simp [set, h, get?]
    · simpa [set, h, get?] using ih

abbrev Change := Origin → Entries → Option (Origin × Entries)

/-- A header's path passes all but a closed table; a dotted key's path passes
only what a path brought about. -/
def passes (dotted : Bool) : Origin → Bool
  | .implied => true
  | .dotted => true
  | .headed => !dotted
  | .closed => false

/-- Changes the table at the end of a path. Tables that are missing on the way
are brought about, and of listed tables the last one is taken. -/
def under (dotted : Bool) (change : Change) : List String → Change
  | [], origin, entries => change origin entries
  | key :: path, origin, entries =>
    match entries.get? key with
    | none => do
      let (kept, inner) ← under dotted change path (if dotted then .dotted else .implied) []
      return (origin, entries.set key (.table kept inner))
    | some (.table found inner) =>
      if passes dotted found then do
        let (kept, inner) ← under dotted change path found inner
        return (origin, entries.set key (.table kept inner))
      else none
    | some (.tables earlier last) => do
      let (_, last) ← under dotted change path .headed last
      return (origin, entries.set key (.tables earlier last))
    | some _ => none

def add (key : String) (value : Value) : Change := fun origin entries =>
  match entries.get? key with
  | none => some (origin, entries.set key value)
  | some _ => none

def addUnder (path : List String) (key : String) (value : Value) : Change :=
  match path with
  | [] => add key value
  | _ => under true (fun origin entries =>
      if origin = .dotted then add key value origin entries else none) path

/-- The table under a header. It may be there already as the way to others. -/
def openTable (key : String) : Change := fun origin entries =>
  match entries.get? key with
  | none => some (origin, entries.set key (.table .headed []))
  | some (.table .implied inner) => some (origin, entries.set key (.table .headed inner))
  | some _ => none

def openListed (key : String) : Change := fun origin entries =>
  match entries.get? key with
  | none => some (origin, entries.set key (.tables [] []))
  | some (.tables earlier last) =>
    some (origin, entries.set key (.tables (earlier ++ [.table .headed last]) []))
  | some _ => none

end Entries

end Conformance.Toml
