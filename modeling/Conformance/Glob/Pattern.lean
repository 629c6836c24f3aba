import Conformance.Glob.Problem

namespace Conformance.Glob

/-! Globs and how they are read. A doubled star spans folders where it fills a
whole segment, and is two stars elsewhere. -/

/-- The characters between brackets, as runs from a first to a last one. -/
structure CharClass where
  negated : Bool
  runs : List (Char × Char)
deriving DecidableEq, Repr

inductive Token where
  | literal (c : Char)
  | one
  | many
  | foldersFirst
  | foldersLast
  | foldersBetween
  | oneOf (chars : CharClass)
  | anyOf (branches : List (List Token))

abbrev Pattern := List Token

/-- Brackets read so far; runs are kept last first. -/
structure Brackets where
  opened : Bool := true
  negated : Bool := false
  runs : List (Char × Char) := []
  first : Bool := true
  dash : Bool := false

namespace Brackets

def join (last : Char) : List (Char × Char) → Except Problem (List (Char × Char))
  | [] => .ok [(last, last)]
  | (first, _) :: runs =>
    if last < first then .error (.invalidRange first last) else .ok ((first, last) :: runs)

def add (brackets : Brackets) (c : Char) : Except Problem (Option Brackets) :=
  if brackets.opened && (c = '!' || c = '^') then
    .ok (some { brackets with opened := false, negated := true })
  else if c = ']' && !brackets.first then .ok none
  else if c = '-' && !brackets.first && !brackets.dash then
    .ok (some { brackets with dash := true })
  else if brackets.dash then do
    let runs ← join c brackets.runs
    return some { brackets with runs, dash := false }
  else
    .ok (some { brackets with runs := (c, c) :: brackets.runs, opened := false, first := false })

def finish (brackets : Brackets) : CharClass where
  negated := brackets.negated
  runs := (if brackets.dash then ('-', '-') :: brackets.runs else brackets.runs).reverse

end Brackets

/-- A group that is still open: what stands in front of it, and its branches
that are complete. -/
structure Group where
  before : List Token
  branches : List (List Token)

def spanning (token : Token) : List Token → List Token
  | [] => [token]
  | .foldersFirst :: before => .foldersFirst :: before
  | .foldersLast :: before => .foldersLast :: before
  | _ :: before => token :: before

/-- The tokens with a doubled star behind them, and whether it takes the slash
that follows; that depends on the characters around it. -/
def doubled (before : List Token) (prev next : Option Char) (grouped : Bool) :
    List Token × Bool :=
  let twice := (.many :: .many :: before, false)
  if before.isEmpty then
    if next = none || next = some '/' then ([.foldersFirst], true) else twice
  else if prev ≠ some '/' then twice
  else
    match next with
    | none => (spanning .foldersLast before, false)
    | some c =>
      if c = '/' then (spanning .foldersBetween before, true)
      else if grouped && (c = ',' || c = '}') then (spanning .foldersLast before, false)
      else twice

/-- What was read of a pattern: the last character, the tokens of the branch,
the groups around it, and the brackets that are open. -/
structure Reading where
  prev : Option Char := none
  before : List Token := []
  groups : List Group := []
  brackets : Option Brackets := none
  starred : Bool := false
  takesSlash : Bool := false

namespace Reading

def token (reading : Reading) (c : Char) (token : Token) : Reading :=
  { reading with prev := some c, before := token :: reading.before }

def bracketed (reading : Reading) (brackets : Brackets) (c : Char) :
    Except Problem Reading :=
  match brackets.add c with
  | .error problem => .error problem
  | .ok (some more) => .ok { reading with prev := some c, brackets := some more }
  | .ok none =>
    .ok { reading with
      prev := some c
      before := .oneOf brackets.finish :: reading.before
      brackets := none }

def openGroup (reading : Reading) : Reading :=
  { reading with
    prev := some '{'
    before := []
    groups := ⟨reading.before, []⟩ :: reading.groups }

def closeGroup (reading : Reading) : Except Problem Reading :=
  match reading.groups with
  | [] => .error .unopenedGroup
  | group :: groups =>
    let branches := (reading.before.reverse :: group.branches).reverse
    .ok { reading with prev := some '}', before := .anyOf branches :: group.before, groups }

def comma (reading : Reading) : Reading :=
  match reading.groups with
  | [] => reading.token ',' (.literal ',')
  | group :: groups =>
    let branches := reading.before.reverse :: group.branches
    { reading with prev := some ',', before := [], groups := { group with branches } :: groups }

def star (reading : Reading) (next : Option Char) : Reading :=
  if reading.starred then
    let (before, takesSlash) :=
      doubled reading.before reading.prev next !reading.groups.isEmpty
    { reading with
      prev := some '*'
      before
      starred := false
      takesSlash := takesSlash && next == some '/' }
  else if next == some '*' then { reading with starred := true }
  else reading.token '*' .many

def add (reading : Reading) (c : Char) (next : Option Char) : Except Problem Reading :=
  match reading.brackets with
  | some brackets => reading.bracketed brackets c
  | none =>
    if reading.takesSlash then .ok { reading with prev := some c, takesSlash := false }
    else if c = '*' then .ok (reading.star next)
    else if c = '?' then .ok (reading.token c .one)
    else if c = '[' then .ok { reading with brackets := some {} }
    else if c = '{' then .ok reading.openGroup
    else if c = '}' then reading.closeGroup
    else if c = ',' then .ok reading.comma
    else .ok (reading.token c (.literal c))

def finish (reading : Reading) : Except Problem Pattern :=
  if reading.brackets.isSome then .error .unclosedClass
  else if reading.groups.isEmpty then .ok reading.before.reverse
  else .error .unclosedGroup

def run (reading : Reading) : List Char → Except Problem Pattern
  | [] => reading.finish
  | c :: rest => do run (← reading.add c rest.head?) rest

end Reading

def Pattern.read (glob : List Char) : Except Problem Pattern :=
  Reading.run {} glob

end Conformance.Glob
