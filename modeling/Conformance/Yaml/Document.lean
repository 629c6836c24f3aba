import Conformance.Yaml.Event
import Conformance.Yaml.Lexer
import Conformance.Yaml.Resolve

namespace Conformance.Yaml

/-- An event with its alias looked up. -/
inductive Item where
  | alias (anchor : Nat)
  | scalar (tag : Option String) (text : String) (style : Style)
  | sequence (tag : Option String)
  | mapping (tag : Option String)
  | close
deriving Inhabited

structure Document where
  items : Array Item
  anchors : List (Nat × Nat)

namespace Document

abbrev Names := List (String × Nat)

/-- An anchor's number is how many names there were before it, so a name given
a second time may share its number with the next new one. -/
def declare (name : String) (names : Names) : Names :=
  (name, names.length) :: names.filter fun entry => entry.1 != name

structure Linking where
  items : Array Item := #[]
  names : Names := []
  anchors : List (Nat × Nat) := []

def Linking.node (linking : Linking) (anchor : Option String) (item : Item) : Linking :=
  match anchor with
  | none => { linking with items := linking.items.push item }
  | some name =>
    { items := linking.items.push item
      names := declare name linking.names
      anchors := (linking.names.length, linking.items.size) :: linking.anchors }

def Linking.add? (linking : Linking) : Event → Option Linking
  | .alias name =>
    (linking.names.lookup name).map fun anchor =>
      { linking with items := linking.items.push (.alias anchor) }
  | .scalar properties text style =>
    some (linking.node properties.anchor (.scalar properties.tag text style))
  | .sequence properties => some (linking.node properties.anchor (.sequence properties.tag))
  | .mapping properties => some (linking.node properties.anchor (.mapping properties.tag))
  | .close => some { linking with items := linking.items.push .close }

def ofEvents? (events : List Event) : Option Document :=
  (events.foldlM Linking.add? {}).map fun linking => ⟨linking.items, linking.anchors⟩

def withTag (tag : Option String) (value : Value) : Value :=
  match tag with
  | some tag => if Text.startsWith "!" tag then .tagged tag value else value
  | none => value

/-- Where reading has come to, and how many repetitions there were. -/
structure Reader where
  position : Nat
  repeated : Nat

mutual

def node? (document : Document) (fuel depth : Nat) (reader : Reader) :
    Option (Value × Reader) :=
  match fuel with
  | 0 => none
  | fuel + 1 =>
    let next : Reader := { reader with position := reader.position + 1 }
    match document.items[reader.position]? with
    | none => none
    | some .close => none
    | some (.alias anchor) => do
      let target ← document.anchors.lookup anchor
      let repeated := reader.repeated + 1
      guard (repeated ≤ 100 * document.items.size)
      let (value, after) ← document.node? fuel depth ⟨target, repeated⟩
      return (value, ⟨next.position, after.repeated⟩)
    | some (.scalar tag text style) => do
      return (← Resolve.scalar? tag text style, next)
    | some (.sequence tag) =>
      match depth with
      | 0 => none
      | depth + 1 => do
        let (items, after) ← document.items? fuel depth [] next
        return (withTag tag (.sequence items), after)
    | some (.mapping tag) =>
      match depth with
      | 0 => none
      | depth + 1 => do
        let (entries, after) ← document.entries? fuel depth [] next
        return (withTag tag (.mapping entries), after)

def items? (document : Document) (fuel depth : Nat) (read : List Value) (reader : Reader) :
    Option (List Value × Reader) :=
  match fuel with
  | 0 => none
  | fuel + 1 =>
    match document.items[reader.position]? with
    | some .close =>
      some (read.reverse, { reader with position := reader.position + 1 })
    | _ => do
      let (value, after) ← document.node? fuel depth reader
      document.items? fuel depth (value :: read) after

def entries? (document : Document) (fuel depth : Nat) (read : Mapping) (reader : Reader) :
    Option (Mapping × Reader) :=
  match fuel with
  | 0 => none
  | fuel + 1 =>
    match document.items[reader.position]? with
    | some .close =>
      some (read.reverse, { reader with position := reader.position + 1 })
    | _ => do
      let (key, after) ← document.node? fuel depth reader
      guard !(read.any fun entry => entry.1.same key)
      let (value, after) ← document.node? fuel depth after
      document.entries? fuel depth ((key, value) :: read) after

end

/-- A way down the document passes through 128 collections at most, and through
the items of each. -/
def value? (document : Document) : Option Value :=
  (document.node? (130 * (2 * document.items.size + 4)) 128 ⟨0, 0⟩).map (·.1)

end Document

/-- The value of a text that holds one document; a text without one is null. -/
def load? (text : List Char) : Option Value := do
  let tokens ← Token.scan? text
  match ← Event.ofTokens? tokens with
  | [] => return .null
  | events => (← Document.ofEvents? events).value?

end Conformance.Yaml
