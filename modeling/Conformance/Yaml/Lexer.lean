import Conformance.Yaml.Scalar
import Conformance.Yaml.Tag
import Conformance.Yaml.Token

namespace Conformance.Yaml

/-! From places to tokens. Indentation opens and closes block collections. A
word may turn out to be a mapping key only when its colon is met, so the place
of its token is remembered until then; the colon has to follow on the same line
and within 1024 characters. -/

structure PendingKey where
  required : Bool
  position : Nat
  line : Nat
  column : Nat
  index : Nat

def PendingKey.isStale (key : PendingKey) (place : Place) : Bool :=
  key.line < place.line || key.index + 1024 < place.index

/-- Indentations are counted from one, and zero is outside of every block. -/
structure Lexer where
  rest : Source
  tokens : Array Token := #[]
  indent : Nat := 0
  outer : List Nat := []
  keyAllowed : Bool := true
  pending : Option PendingKey := none
  enclosing : List (Option PendingKey) := []

namespace Lexer

def inFlow (lexer : Lexer) : Bool :=
  !lexer.enclosing.isEmpty

def push (lexer : Lexer) (token : Token) : Lexer :=
  { lexer with tokens := lexer.tokens.push token }

/-- Blanks, comments and line breaks between tokens. A tab may not stand where
a key could follow. -/
def skipped (inFlow keyAllowed : Bool) : Source → Bool → Bool × Source
  | [], _ => (keyAllowed, [])
  | place :: rest, inComment =>
    let c := place.char
    if isBreak c then skipped inFlow (keyAllowed || !inFlow) rest false
    else if inComment then skipped inFlow keyAllowed rest true
    else if c == ' ' || (c == '\t' && (inFlow || !keyAllowed)) then
      skipped inFlow keyAllowed rest false
    else if c == '#' then skipped inFlow keyAllowed rest true
    else (keyAllowed, place :: rest)

def skip (lexer : Lexer) : Lexer :=
  let (keyAllowed, rest) := skipped lexer.inFlow lexer.keyAllowed lexer.rest false
  { lexer with keyAllowed, rest }

def expireKey? (lexer : Lexer) (place : Place) : Option Lexer :=
  match lexer.pending with
  | none => some lexer
  | some key =>
    if !key.isStale place then some lexer
    else if key.required then none
    else some { lexer with pending := none }

def dropKey? (lexer : Lexer) : Option Lexer :=
  if lexer.pending.any (·.required) then none
  else some { lexer with pending := none }

def saveKey? (lexer : Lexer) (place : Place) : Option Lexer :=
  if lexer.keyAllowed then do
    let lexer ← lexer.dropKey?
    let key : PendingKey :=
      { required := !lexer.inFlow && lexer.indent == place.column + 1
        position := lexer.tokens.size
        line := place.line
        column := place.column
        index := place.index }
    return { lexer with pending := some key }
  else some lexer

def indentTo (lexer : Lexer) (column position : Nat) (opening : Token) : Lexer :=
  if !lexer.inFlow && lexer.indent < column + 1 then
    { lexer with
      indent := column + 1
      outer := lexer.indent :: lexer.outer
      tokens := lexer.tokens.insertIdxIfInBounds position opening }
  else lexer

def closeBlocks (indent : Nat) (current : Nat) (outer : List Nat) (tokens : Array Token) :
    Nat × List Nat × Array Token :=
  if indent < current then
    match outer with
    | [] => (0, [], tokens.push .blockEnd)
    | next :: outer => closeBlocks indent next outer (tokens.push .blockEnd)
  else (current, outer, tokens)

def dedentTo (lexer : Lexer) (indent : Nat) : Lexer :=
  if lexer.inFlow then lexer
  else
    let (current, outer, tokens) := closeBlocks indent lexer.indent lexer.outer lexer.tokens
    { lexer with indent := current, outer, tokens }

def openFlow? (lexer : Lexer) (place : Place) (rest : Source) (opening : Token) :
    Option Lexer := do
  let lexer ← lexer.saveKey? place
  let outside := { lexer with pending := none, enclosing := lexer.pending :: lexer.enclosing }
  return { outside.push opening with keyAllowed := true, rest }

def closeFlow? (lexer : Lexer) (rest : Source) (closing : Token) : Option Lexer := do
  let lexer ← lexer.dropKey?
  let lexer := match lexer.enclosing with
    | [] => lexer
    | pending :: enclosing => { lexer with pending, enclosing }
  return { lexer.push closing with keyAllowed := false, rest }

def flowItem? (lexer : Lexer) (rest : Source) : Option Lexer := do
  let lexer ← lexer.dropKey?
  return { lexer.push .flowEntry with keyAllowed := true, rest }

def blockItem? (lexer : Lexer) (place : Place) (rest : Source) : Option Lexer := do
  guard (lexer.inFlow || lexer.keyAllowed)
  let lexer := lexer.indentTo place.column lexer.tokens.size .blockSequence
  let lexer ← lexer.dropKey?
  return { lexer.push .blockEntry with keyAllowed := true, rest }

def explicitKey? (lexer : Lexer) (place : Place) (rest : Source) : Option Lexer := do
  guard (lexer.inFlow || lexer.keyAllowed)
  let lexer := lexer.indentTo place.column lexer.tokens.size .blockMapping
  let lexer ← lexer.dropKey?
  return { lexer.push .key with keyAllowed := !lexer.inFlow, rest }

/-- A colon turns the pending key's word into a key; without one it stands for
an empty key. -/
def value? (lexer : Lexer) (place : Place) (rest : Source) : Option Lexer :=
  match lexer.pending with
  | some key =>
    let tokens := lexer.tokens.insertIdxIfInBounds key.position .key
    let lexer := { lexer with tokens }
    let lexer := lexer.indentTo key.column key.position .blockMapping
    some { lexer.push .value with pending := none, keyAllowed := false, rest }
  | none => do
    guard (lexer.inFlow || lexer.keyAllowed)
    let lexer := lexer.indentTo place.column lexer.tokens.size .blockMapping
    return { lexer.push .value with keyAllowed := !lexer.inFlow, rest }

def name? (source : Source) : Option (String × Source) := do
  let (name, rest) := Source.spanChars isWordChar source
  guard (!name.isEmpty)
  guard (Source.endsWord rest ||
    rest.head?.any fun place => "?:,]\x7d%@\x60".toList.contains place.char)
  return (.ofList name, rest)

def anchor? (lexer : Lexer) (place : Place) (rest : Source) (token : String → Token) :
    Option Lexer := do
  let lexer ← lexer.saveKey? place
  let (name, rest) ← name? rest
  return { lexer.push (token name) with keyAllowed := false, rest }

def tag? (lexer : Lexer) (place : Place) (rest : Source) : Option Lexer := do
  let lexer ← lexer.saveKey? place
  let (handle, suffix, rest) ← Tag.parts? (place :: rest)
  guard (Source.endsWord rest || (lexer.inFlow && Source.startsWith ',' rest))
  some
    { lexer.push (.tag (.ofList handle) (.ofList suffix)) with keyAllowed := false, rest }

def blockScalar? (lexer : Lexer) (folded : Bool) (rest : Source) : Option Lexer := do
  let lexer ← lexer.dropKey?
  let (text, rest) ← block? folded lexer.indent rest
  return { lexer.push (.scalar (.ofList text) .block) with keyAllowed := true, rest }

def quotedScalar? (lexer : Lexer) (place : Place) (single : Bool) (rest : Source) :
    Option Lexer := do
  let lexer ← lexer.saveKey? place
  let scanned ← quoted? single rest
  some
    { lexer.push (.scalar (.ofList scanned.text) .quoted) with
      keyAllowed := false
      rest := scanned.rest }

def plainScalar? (lexer : Lexer) (place : Place) (rest : Source) : Option Lexer := do
  let lexer ← lexer.saveKey? place
  let scanned ← plain? lexer.inFlow lexer.indent (place :: rest)
  some
    { lexer.push (.scalar (.ofList scanned.text) .plain) with
      keyAllowed := scanned.brokeLine
      rest := scanned.rest }

def versionNumber? (source : Source) : Option (Nat × Source) :=
  let (digits, rest) := Source.spanChars isDigit source
  if digits.isEmpty || 9 < digits.length then none
  else some (digits.foldl (fun n c => 10 * n + (c.toNat - 48)) 0, rest)

def version? (source : Source) : Option (Token × Source) := do
  let (major, rest) ← versionNumber? (Source.skipSpaces source)
  guard (Source.startsWith '.' rest)
  let (minor, rest) ← versionNumber? rest.tail
  return (.version major minor, rest)

def directiveToken? (source : Source) : Option (Token × Source) := do
  let (name, rest) := Source.spanChars isWordChar source
  guard (Source.endsWord rest)
  match String.ofList name with
  | "YAML" => version? rest
  | "TAG" => do
    let (handle, lead, rest) ← Tag.directive? rest
    return (.tagDirective handle lead, rest)
  | _ => none

def directive? (lexer : Lexer) (rest : Source) : Option Lexer := do
  let lexer ← (lexer.dedentTo 0).dropKey?
  let (token, rest) ← directiveToken? rest
  let rest ← Source.skipLineEnd? rest
  return { lexer.push token with keyAllowed := false, rest }

def marker? (lexer : Lexer) (token : Token) (source : Source) : Option Lexer := do
  let lexer ← (lexer.dedentTo 0).dropKey?
  return { lexer.push token with keyAllowed := false, rest := source.drop 3 }

def startsPlain (inFlow : Bool) (c : Char) (rest : Source) : Bool :=
  !(isBlankOrBreak c || "-?:,[]\x7b\x7d#&*!|>\x27\x22%@\x60".toList.contains c) ||
    (c == '-' && !rest.head?.any fun next => isSpace next.char) ||
    (!inFlow && (c == '?' || c == ':') && !Source.endsWord rest)

def token? (lexer : Lexer) (place : Place) (rest : Source) : Option Lexer :=
  let source := place :: rest
  let c := place.char
  if place.column == 0 && c == '%' then lexer.directive? rest
  else if Source.isMarker '-' source then lexer.marker? .documentStart source
  else if Source.isMarker '.' source then lexer.marker? .documentEnd source
  else if c == '[' then lexer.openFlow? place rest .flowSequence
  else if c == '{' then lexer.openFlow? place rest .flowMapping
  else if c == ']' then lexer.closeFlow? rest .flowSequenceEnd
  else if c == '}' then lexer.closeFlow? rest .flowMappingEnd
  else if c == ',' then lexer.flowItem? rest
  else if c == '-' && Source.endsWord rest then lexer.blockItem? place rest
  else if c == '?' && (lexer.inFlow || Source.endsWord rest) then lexer.explicitKey? place rest
  else if c == ':' && (lexer.inFlow || Source.endsWord rest) then lexer.value? place rest
  else if c == '*' then lexer.anchor? place rest .alias
  else if c == '&' then lexer.anchor? place rest .anchor
  else if c == '!' then lexer.tag? place rest
  else if c == '|' && !lexer.inFlow then lexer.blockScalar? false rest
  else if c == '>' && !lexer.inFlow then lexer.blockScalar? true rest
  else if c == '\x27' then lexer.quotedScalar? place true rest
  else if c == '\x22' then lexer.quotedScalar? place false rest
  else if startsPlain lexer.inFlow c rest then lexer.plainScalar? place rest
  else none

def finish? (lexer : Lexer) : Option (Array Token) := do
  let lexer ← (lexer.dedentTo 0).dropKey?
  return lexer.tokens

/-- Every step uses up a character, so the length of the text is fuel enough. -/
def run : Nat → Lexer → Option (Array Token)
  | 0, _ => none
  | fuel + 1, lexer => do
    let lexer := lexer.skip
    match lexer.rest with
    | [] => lexer.finish?
    | place :: rest =>
      let lexer ← lexer.expireKey? place
      run fuel (← (lexer.dedentTo (place.column + 1)).token? place rest)

end Lexer

namespace Token

def ofSource? (source : Source) : Option (List Token) :=
  (Lexer.run (source.length + 1) { rest := source }).map Array.toList

def scan? (text : List Char) : Option (List Token) :=
  (Source.ofText? text).bind ofSource?

end Token

end Conformance.Yaml
