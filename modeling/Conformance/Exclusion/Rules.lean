import Conformance.Error
import Conformance.Path
import Conformance.Text.Lines

namespace Conformance.Exclusion

structure Rules where
  files : List String := []
  features : List String := []
  flags : List String := []
  directories : List String := []
  source : Option String := none
deriving DecidableEq, Repr

namespace ListFile

def entryOf? (line : List Char) : Option String :=
  match Text.trimmed line with
  | [] => none
  | '#' :: _ => none
  | entry => some (.ofList ((Text.after? "test/".toList entry).getD entry))

def entries (text : String) : List String :=
  (Text.lines text.toList).filterMap entryOf?

def ofRead (path : String) (read : Except Host.Fault ByteArray) : Except Error (List String) :=
  match read with
  | .error .noEntry => .error (.notFound path)
  | .error fault => .error (.host fault)
  | .ok bytes =>
    match String.fromUTF8? bytes with
    | none => .error (.host .notText)
    | some text => .ok (entries text)

end ListFile

/-- A path from the test folder on. -/
def testRelative (path : List Char) : List Char :=
  let path := Path.normalized (Text.trimmed path)
  (Text.after? "test/".toList path).getD path

def nameOf (path : List Char) : List Char :=
  Text.lowered (testRelative path)

/-- The modes that an entry is about; both, if none is named. -/
abbrev Scope := Option Bool

def Scope.covers (scope : Scope) (strict : Bool) : Bool :=
  scope.all (· == strict)

structure FileEntry where
  written : String
  name : List Char
  scope : Scope
deriving DecidableEq, Repr

def splitScope (entry : List Char) : List Char × Scope :=
  match Text.before? "(strict mode)".toList entry with
  | some name => (name, some true)
  | none =>
    match Text.before? "(default)".toList entry with
    | some name => (name, some false)
    | none => (entry, none)

namespace FileEntry

def ofText (entry : String) : FileEntry :=
  let trimmed := Text.trimmed entry.toList
  let (name, scope) := splitScope trimmed
  ⟨.ofList trimmed, nameOf name, scope⟩

def isPattern (entry : FileEntry) : Bool :=
  entry.name.any fun c => c == '*' || c == '?' || c == '[' || c == '{'

end FileEntry

end Conformance.Exclusion
