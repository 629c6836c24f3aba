import Conformance.Yaml.Token

namespace Conformance.Yaml

/-! The nodes of a document in the order of the text: scalars and aliases, and
the starts and ends of collections. -/

structure Properties where
  anchor : Option String := none
  tag : Option String := none
deriving DecidableEq, Repr

inductive Event where
  | alias (name : String)
  | scalar (properties : Properties) (text : String) (style : Style)
  | sequence (properties : Properties)
  | mapping (properties : Properties)
  | close
deriving DecidableEq, Repr

abbrev Handles := List (String × String)

def Handles.standard : Handles :=
  [("!", "!"), ("!!", "tag:yaml.org,2002:")]

def Handles.resolve? (handles : Handles) (handle suffix : String) : Option String :=
  if handle.isEmpty then some suffix
  else (handles.lookup handle).map (· ++ suffix)

namespace Event

/-- What the tokens have to hold next. -/
inductive Goal where
  | node (block keyed : Bool)
  | blockItem
  | keyedItem
  | blockKey
  | blockValue
  | flowItem (first : Bool)
  | pairKey
  | pairValue
  | pairEnd
  | flowKey (first : Bool)
  | flowValue (absent : Bool)

def empty : Event := .scalar {} "" .plain

def properties? (handles : Handles) (tokens : List Token) :
    Option (Properties × List Token) :=
  match tokens with
  | .anchor name :: .tag handle suffix :: rest
  | .tag handle suffix :: .anchor name :: rest => do
    return (⟨some name, some (← handles.resolve? handle suffix)⟩, rest)
  | .anchor name :: rest => some (⟨some name, none⟩, rest)
  | .tag handle suffix :: rest => do
    return (⟨none, some (← handles.resolve? handle suffix)⟩, rest)
  | _ => some ({}, tokens)

/-- One step: the events that the first goal gives, the goals that take its
place, and the tokens left. -/
structure Step where
  events : List Event
  goals : List Goal
  rest : List Token

def nodeStep? (handles : Handles) (block keyed : Bool) (tokens : List Token) :
    Option Step :=
  match tokens with
  | .alias name :: rest => some ⟨[.alias name], [], rest⟩
  | _ => do
    let (properties, rest) ← properties? handles tokens
    match rest with
    | .scalar text style :: rest => some ⟨[.scalar properties text style], [], rest⟩
    | .flowSequence :: rest => some ⟨[.sequence properties], [.flowItem true], rest⟩
    | .flowMapping :: rest => some ⟨[.mapping properties], [.flowKey true], rest⟩
    | _ =>
      match block, keyed, rest with
      | _, true, .blockEntry :: _ => some ⟨[.sequence properties], [.keyedItem], rest⟩
      | true, _, .blockSequence :: rest => some ⟨[.sequence properties], [.blockItem], rest⟩
      | true, _, .blockMapping :: rest => some ⟨[.mapping properties], [.blockKey], rest⟩
      | _, _, _ =>
        if properties.anchor.isSome || properties.tag.isSome then
          some ⟨[.scalar properties "" .plain], [], rest⟩
        else none

def nodeUnless (stop : Token → Bool) (block keyed : Bool) (goal : Goal)
    (tokens : List Token) : Step :=
  if tokens.head?.any stop then ⟨[empty], [goal], tokens⟩
  else ⟨[], [.node block keyed, goal], tokens⟩

def endsBlockNode : Token → Bool
  | .key | .value | .blockEnd => true
  | _ => false

def endsItem : Token → Bool
  | .blockEntry | .blockEnd => true
  | _ => false

def endsKeyedItem (token : Token) : Bool :=
  endsItem token || endsBlockNode token

def endsPair : Token → Bool
  | .flowEntry | .flowSequenceEnd => true
  | _ => false

def endsFlowKey : Token → Bool
  | .value | .flowEntry | .flowMappingEnd => true
  | _ => false

def endsFlowValue : Token → Bool
  | .flowEntry | .flowMappingEnd => true
  | _ => false

def afterComma? (first : Bool) : List Token → Option (List Token)
  | .flowEntry :: rest => if first then some (.flowEntry :: rest) else some rest
  | tokens => if first then some tokens else none

def flowItemStep? (first : Bool) (tokens : List Token) : Option Step :=
  match tokens with
  | .flowSequenceEnd :: rest => some ⟨[.close], [], rest⟩
  | _ => do
    match ← afterComma? first tokens with
    | .key :: rest => some ⟨[.mapping {}], [.pairKey, .flowItem false], rest⟩
    | .flowSequenceEnd :: rest => some ⟨[.close], [], rest⟩
    | rest => some ⟨[], [.node false false, .flowItem false], rest⟩

/-- An explicit key without a node uses up the token that stands in its place. -/
def pairKeyStep (tokens : List Token) : Step :=
  match tokens with
  | .value :: rest | .flowEntry :: rest | .flowSequenceEnd :: rest =>
    ⟨[empty], [.pairValue], rest⟩
  | _ => ⟨[], [.node false false, .pairValue], tokens⟩

def flowKeyStep? (first : Bool) (tokens : List Token) : Option Step :=
  match tokens with
  | .flowMappingEnd :: rest => some ⟨[.close], [], rest⟩
  | _ => do
    match ← afterComma? first tokens with
    | .key :: rest => some (nodeUnless endsFlowKey false false (.flowValue false) rest)
    | .flowMappingEnd :: rest => some ⟨[.close], [], rest⟩
    | rest => some ⟨[], [.node false false, .flowValue true], rest⟩

def step? (handles : Handles) (goal : Goal) (tokens : List Token) : Option Step :=
  match goal with
  | .node block keyed => nodeStep? handles block keyed tokens
  | .blockItem =>
    match tokens with
    | .blockEntry :: rest => some (nodeUnless endsItem true false .blockItem rest)
    | .blockEnd :: rest => some ⟨[.close], [], rest⟩
    | _ => none
  | .keyedItem =>
    match tokens with
    | .blockEntry :: rest => some (nodeUnless endsKeyedItem true false .keyedItem rest)
    | _ => some ⟨[.close], [], tokens⟩
  | .blockKey =>
    match tokens with
    | .key :: rest => some (nodeUnless endsBlockNode true true .blockValue rest)
    | .blockEnd :: rest => some ⟨[.close], [], rest⟩
    | _ => none
  | .blockValue =>
    match tokens with
    | .value :: rest => some (nodeUnless endsBlockNode true true .blockKey rest)
    | _ => some ⟨[empty], [.blockKey], tokens⟩
  | .flowItem first => flowItemStep? first tokens
  | .pairKey => some (pairKeyStep tokens)
  | .pairValue =>
    match tokens with
    | .value :: rest => some (nodeUnless endsPair false false .pairEnd rest)
    | _ => some ⟨[empty], [.pairEnd], tokens⟩
  | .pairEnd => some ⟨[.close], [], tokens⟩
  | .flowKey first => flowKeyStep? first tokens
  | .flowValue absent =>
    match absent, tokens with
    | false, .value :: rest => some (nodeUnless endsFlowValue false false (.flowKey false) rest)
    | _, _ => some ⟨[empty], [.flowKey false], tokens⟩

def run (handles : Handles) : Nat → List Goal → List Event → List Token →
    Option (List Event × List Token)
  | _, [], events, tokens => some (events.reverse, tokens)
  | 0, _ :: _, _, _ => none
  | fuel + 1, goal :: goals, events, tokens => do
    let step ← step? handles goal tokens
    run handles fuel (step.goals ++ goals) (step.events.reverse ++ events) step.rest

def isSupported (major minor : Nat) : Bool :=
  major == 1 && (minor == 1 || minor == 2)

def directives? (versioned : Bool) (given : Handles) : List Token →
    Option (Bool × Handles × List Token)
  | .version major minor :: rest =>
    if versioned || !isSupported major minor then none else directives? true given rest
  | .tagDirective handle lead :: rest =>
    if (given.lookup handle).isSome then none
    else directives? versioned ((handle, lead) :: given) rest
  | tokens => some (versioned, given, tokens)

/-- No more than three goals in a row leave the tokens as they are. -/
def root? (handles : Handles) (tokens : List Token) : Option (List Event × List Token) :=
  run handles (4 * tokens.length + 8) [.node true false] [] tokens

def finish? (found : List Event × List Token) : Option (List Event) :=
  match found.2 with
  | [] => some found.1
  | tokens => if tokens.all (· == .documentEnd) then some found.1 else none

def ofTokens? (tokens : List Token) : Option (List Event) := do
  let (versioned, given, rest) ← directives? false [] tokens
  let handles := given ++ Handles.standard
  match rest with
  | .documentStart :: rest =>
    match rest with
    | [] | .documentEnd :: _ => finish? ([empty], rest)
    | .version _ _ :: _ | .tagDirective _ _ :: _ | .documentStart :: _ => none
    | _ => finish? (← root? handles rest)
  | [] => if versioned || !given.isEmpty then none else some []
  | _ =>
    if versioned || !given.isEmpty then none
    else finish? (← root? handles rest)

end Event

end Conformance.Yaml
