import Conformance.Yaml.Source

namespace Conformance.Yaml

/-! Scalar texts. Texts under construction are kept last character first.

Blanks between two words of a flow scalar are kept, unless a line ends among
them: then the lines are folded, a single break into a space and each further
one into a line feed. -/

inductive Gap where
  | none
  | spaces (seen : List Char)
  | breaks (first : Option Char) (more : List Char)

namespace Gap

def isBreaks : Gap → Bool
  | breaks _ _ => true
  | _ => false

def isNone : Gap → Bool
  | none => true
  | _ => false

def addSpace (c : Char) : Gap → Gap
  | none => spaces [c]
  | spaces seen => spaces (c :: seen)
  | breaks first more => breaks first more

def addBreak (c : Char) : Gap → Gap
  | breaks first more => breaks first (c :: more)
  | _ => breaks (some c) []

def fold (text : List Char) : Gap → List Char
  | none => text
  | spaces seen => seen ++ text
  | breaks (some '\n') [] => ' ' :: text
  | breaks (some '\n') more => more ++ text
  | breaks (some c) more => more ++ c :: text
  | breaks Option.none more => more ++ text

end Gap

structure Scanned where
  text : List Char
  rest : Source
  brokeLine : Bool

def isFlowIndicator (c : Char) : Bool :=
  c == ',' || c == '[' || c == ']' || c == '{' || c == '}'

def plainFrom (flow : Bool) (indent : Nat) (text : List Char) (gap : Gap) :
    Source → Option Scanned
  | [] => some ⟨text.reverse, [], gap.isBreaks⟩
  | place :: rest =>
    let c := place.char
    if isSpace c then
      if gap.isBreaks && c == '\t' && place.column < indent then none
      else plainFrom flow indent text (gap.addSpace c) rest
    else if isBreak c then
      plainFrom flow indent text (gap.addBreak c) rest
    else if !gap.isNone && (c == '#' || (!flow && place.column < indent) ||
        Source.atDocumentMarker (place :: rest)) then
      some ⟨text.reverse, place :: rest, gap.isBreaks⟩
    else if flow && c == ':' &&
        rest.head?.any (fun next => next.char == '?' || isFlowIndicator next.char) then
      none
    else if (c == ':' && Source.endsWord rest) || (flow && isFlowIndicator c) then
      some ⟨text.reverse, place :: rest, gap.isBreaks⟩
    else plainFrom flow indent (c :: gap.fold text) .none rest

def plain? (flow : Bool) (indent : Nat) (source : Source) : Option Scanned :=
  plainFrom flow indent [] .none source

def singleQuotedFrom (text : List Char) (gap : Gap) : Source → Option Scanned
  | [] => none
  | place :: rest =>
    let c := place.char
    if isSpace c then singleQuotedFrom text (gap.addSpace c) rest
    else if isBreak c then singleQuotedFrom text (gap.addBreak c) rest
    else if Source.atDocumentMarker (place :: rest) then none
    else if c == '\x27' then
      match rest with
      | next :: more =>
        if next.char == '\x27' then
          singleQuotedFrom ('\x27' :: gap.fold text) .none more
        else some ⟨(gap.fold text).reverse, next :: more, false⟩
      | [] => some ⟨(gap.fold text).reverse, [], false⟩
    else singleQuotedFrom (c :: gap.fold text) .none rest

def escape? (c : Char) : Option Char :=
  match c with
  | '0' => some '\x00'
  | 'a' => some '\x07'
  | 'b' => some '\x08'
  | 't' => some '\t'
  | '\t' => some '\t'
  | 'n' => some '\n'
  | 'v' => some '\x0b'
  | 'f' => some '\x0c'
  | 'r' => some '\r'
  | 'e' => some '\x1b'
  | ' ' => some ' '
  | '\x22' => some '\x22'
  | '/' => some '/'
  | '\\' => some '\\'
  | 'N' => some '\u0085'
  | '_' => some '\u00a0'
  | 'L' => some '\u2028'
  | 'P' => some '\u2029'
  | _ => none

def escapeWidth? (c : Char) : Option Nat :=
  match c with
  | 'x' => some 2
  | 'u' => some 4
  | 'U' => some 8
  | _ => none

def scalarValue? (n : Nat) : Option Char :=
  if n.isValidChar then some (Char.ofNat n) else none

def doubleQuotedFrom (text : List Char) (gap : Gap) (wanted number : Nat) :
    Source → Option Scanned
  | [] => none
  | place :: rest =>
    let c := place.char
    if wanted ≠ 0 then
      match hexValue? c with
      | none => none
      | some digit =>
        let number := 16 * number + digit
        if wanted = 1 then
          match scalarValue? number with
          | none => none
          | some escaped => doubleQuotedFrom (escaped :: text) .none 0 0 rest
        else doubleQuotedFrom text .none (wanted - 1) number rest
    else if isSpace c then doubleQuotedFrom text (gap.addSpace c) 0 0 rest
    else if isBreak c then doubleQuotedFrom text (gap.addBreak c) 0 0 rest
    else if Source.atDocumentMarker (place :: rest) then none
    else if c == '\x22' then some ⟨(gap.fold text).reverse, rest, false⟩
    else if c == '\\' then
      match rest with
      | [] => none
      | next :: more =>
        if isBreak next.char then
          doubleQuotedFrom (gap.fold text) (.breaks none []) 0 0 more
        else
          match escapeWidth? next.char with
          | some width => doubleQuotedFrom (gap.fold text) .none width 0 more
          | none =>
            match escape? next.char with
            | some escaped => doubleQuotedFrom (escaped :: gap.fold text) .none 0 0 more
            | none => none
    else doubleQuotedFrom (c :: gap.fold text) .none 0 0 rest

def quoted? (single : Bool) (source : Source) : Option Scanned :=
  if single then singleQuotedFrom [] .none source
  else doubleQuotedFrom [] .none 0 0 source

inductive Chomping where
  | strip
  | clip
  | keep
deriving DecidableEq, Repr

structure BlockHeader where
  chomping : Chomping
  increment : Nat
  rest : Source

def chompingOf? (c : Char) : Option Chomping :=
  if c == '+' then some .keep else if c == '-' then some .strip else none

def BlockHeader.ofSource? (source : Source) : Option BlockHeader :=
  let finish (chomping : Chomping) (increment : Nat) (rest : Source) :=
    (Source.skipLineEnd? rest).map fun rest => ⟨chomping, increment, rest⟩
  let digit? (place : Place) : Option (Option Nat) :=
    if place.char == '0' then none
    else if isDigit place.char then some (some (place.char.toNat - 48))
    else some none
  match source with
  | [] => some ⟨.clip, 0, []⟩
  | first :: rest =>
    match chompingOf? first.char with
    | some chomping =>
      match rest with
      | [] => some ⟨chomping, 0, []⟩
      | second :: more =>
        match digit? second with
        | none => none
        | some none => finish chomping 0 rest
        | some (some n) => finish chomping n more
    | none =>
      match digit? first with
      | none => none
      | some none => finish .clip 0 source
      | some (some n) =>
        match rest with
        | [] => some ⟨.clip, n, []⟩
        | second :: more =>
          match chompingOf? second.char with
          | some chomping => finish chomping n more
          | none => finish .clip n rest

/-- Leading empty lines of a block scalar whose indentation is not given, with
the longest run of spaces among them and in front of the first other line. -/
def leadingLines (most : Nat) (breaks : List Char) :
    Source → Option (Nat × List Char × Source)
  | [] => some (most, breaks, [])
  | place :: rest =>
    if place.char == ' ' then leadingLines most breaks rest
    else if place.char == '\t' then none
    else
      let most := max most place.column
      if isBreak place.char then leadingLines most (place.char :: breaks) rest
      else some (most, breaks, place :: rest)

/-- A block scalar's text so far. `ended` is the break of its last line and
`empty` the breaks of the empty lines behind it; `spaced` says that this line
started with a blank. -/
structure BlockText where
  text : List Char
  ended : List Char
  empty : List Char
  spaced : Bool

namespace BlockText

/-- Opens a line with character `c`. A folded text turns the break between two
lines into a space, unless an empty line or a blank stands there. -/
def openLine (folded : Bool) (c : Char) (block : BlockText) : BlockText :=
  let joined :=
    if folded && block.ended == ['\n'] && !block.spaced && !isSpace c then
      if block.empty.isEmpty then ' ' :: block.text else block.text
    else block.ended ++ block.text
  ⟨c :: (block.empty ++ joined), [], [], isSpace c⟩

def finish (chomping : Chomping) (block : BlockText) : List Char :=
  let ended := match chomping with
    | .strip => block.text
    | .clip => block.ended ++ block.text
    | .keep => block.empty ++ (block.ended ++ block.text)
  ended.reverse

end BlockText

def blockFrom (folded : Bool) (indent : Nat) (inLine : Bool) (block : BlockText) :
    Source → Option (BlockText × Source)
  | [] => some (block, [])
  | place :: rest =>
    let c := place.char
    if inLine then
      if isBreak c then blockFrom folded indent false { block with ended := [c] } rest
      else blockFrom folded indent true { block with text := c :: block.text } rest
    else if isBreak c then
      blockFrom folded indent false { block with empty := c :: block.empty } rest
    else if place.column < indent then
      if c == ' ' then blockFrom folded indent false block rest
      else if c == '\t' then none
      else some (block, place :: rest)
    else blockFrom folded indent true (block.openLine folded c) rest

def block? (folded : Bool) (outer : Nat) (source : Source) :
    Option (List Char × Source) := do
  let header ← BlockHeader.ofSource? source
  let (indent, breaks, rest) ←
    if header.increment = 0 then do
      let (most, breaks, rest) ← leadingLines 0 [] header.rest
      pure (max most (max outer 1), breaks, rest)
    else pure ((outer - 1) + header.increment, [], header.rest)
  let (block, rest) ← blockFrom folded indent false ⟨[], [], breaks, false⟩ rest
  return (block.finish header.chomping, rest)

end Conformance.Yaml
