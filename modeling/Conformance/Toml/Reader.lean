import Conformance.Toml.Value

namespace Conformance.Toml

def isKeyChar (c : Char) : Bool :=
  c.isAlphanum || c == '_' || c == '-'

def key? (text : List Char) : Option (String × List Char) :=
  match quotedKey? text with
  | some found => some found
  | none =>
    match text.takeWhile isKeyChar with
    | [] => none
    | bare => some (.ofList bare, text.dropWhile isKeyChar)

def keys? : Nat → List Char → Option ((List String × String) × List Char)
  | 0, _ => none
  | fuel + 1, text => do
    let (key, rest) ← key? (skipSpaces text)
    match skipSpaces rest with
    | '.' :: rest =>
      let ((path, last), rest) ← keys? fuel rest
      return ((key :: path, last), rest)
    | rest => return (([], key), rest)

def depthLimit : Nat := 80

mutual

/-- A value; `fuel` bounds the depth of calls, of which two suffice for a
character. -/
def value? : Nat → Nat → List Char → Option (Value × List Char)
  | 0, _, _ => none
  | fuel + 1, depth, text =>
    match text with
    | '[' :: rest =>
      if depth < depthLimit then
        (items? fuel (depth + 1) [] rest).map fun found => (.array found.1, found.2)
      else none
    | '{' :: rest =>
      if depth < depthLimit then
        (entries? fuel (depth + 1) [] rest).map fun found => (.table .closed found.1, found.2)
      else none
    | _ =>
      match quoted? text with
      | some (value, rest) => some (.text value, rest)
      | none => (Scalar.read? text).map fun found => (.scalar found.1, found.2)

def items? : Nat → Nat → List Value → List Char → Option (List Value × List Char)
  | 0, _, _, _ => none
  | fuel + 1, depth, items, text =>
    match skipLayout false text with
    | none => none
    | some (']' :: rest) => some (items.reverse, rest)
    | some text =>
      match value? fuel depth text with
      | none => none
      | some (value, rest) =>
        match skipLayout false rest with
        | some (',' :: rest) => items? fuel depth (value :: items) rest
        | some (']' :: rest) => some ((value :: items).reverse, rest)
        | _ => none

def entries? : Nat → Nat → Entries → List Char → Option (Entries × List Char)
  | 0, _, _, _ => none
  | fuel + 1, depth, entries, text =>
    match skipLayout false text with
    | none => none
    | some ('}' :: rest) => some (entries, rest)
    | some text =>
      match keys? text.length text with
      | some ((path, key), '=' :: rest) =>
        match value? fuel depth (skipSpaces rest) with
        | none => none
        | some (value, rest) =>
          match Entries.addUnder path key value .closed entries with
          | none => none
          | some (_, entries) =>
            match skipLayout false rest with
            | some (',' :: rest) => entries? fuel depth entries rest
            | some ('}' :: rest) => some (entries, rest)
            | _ => none
      | _ => none

end

end Conformance.Toml
