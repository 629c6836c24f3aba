namespace Conformance

inductive Json where
  | null
  | bool (value : Bool)
  | number (digits : Int) (scale : Nat)
  | string (text : String)
  | array (items : List Json)
  | object (members : List (String × Json))
deriving Inhabited

namespace Json

def natural (n : Nat) : Json := .number n 0

def member? (key : String) (members : List (String × Json)) : Option Json :=
  members.lookup key

def hexDigit (n : Nat) : Char :=
  Nat.digitChar (n % 16)

def escaped (c : Char) : List Char :=
  if c = '\x22' || c = '\\' then ['\\', c]
  else if c = '\n' then ['\\', 'n']
  else if c = '\r' then ['\\', 'r']
  else if c = '\t' then ['\\', 't']
  else if c = '\x08' then ['\\', 'b']
  else if c = '\x0c' then ['\\', 'f']
  else if c.toNat < 0x20 then
    ['\\', 'u', '0', '0', hexDigit (c.toNat / 16), hexDigit c.toNat]
  else [c]

def quoted (text : String) : String :=
  .ofList ('\x22' :: text.toList.flatMap escaped ++ ['\x22'])

def indent (depth : Nat) : String :=
  .ofList (List.replicate (2 * depth) ' ')

def decimal (digits : Int) (scale : Nat) : String :=
  if scale = 0 then toString digits
  else
    let body := (toString digits.natAbs).toList
    let padded := List.replicate (scale + 1 - body.length) '0' ++ body
    let cut := padded.length - scale
    let sign := if digits < 0 then "-" else ""
    sign ++ .ofList (padded.take cut) ++ "." ++ .ofList (padded.drop cut)

def bracketed (opening closing : String) (depth : Nat) (rows : List String) : String :=
  match rows with
  | [] => opening ++ closing
  | _ =>
    opening ++ "\n" ++
      ",\n".intercalate (rows.map (indent (depth + 1) ++ ·)) ++
      "\n" ++ indent depth ++ closing

mutual

def pretty (depth : Nat) : Json → String
  | .null => "null"
  | .bool true => "true"
  | .bool false => "false"
  | .number digits scale => decimal digits scale
  | .string text => quoted text
  | .array items => bracketed "[" "]" depth (prettyItems (depth + 1) items)
  | .object members => bracketed "\x7b" "\x7d" depth (prettyMembers (depth + 1) members)

def prettyItems (depth : Nat) : List Json → List String
  | [] => []
  | item :: items => pretty depth item :: prettyItems depth items

def prettyMembers (depth : Nat) : List (String × Json) → List String
  | [] => []
  | (key, value) :: members =>
    (quoted key ++ ": " ++ pretty depth value) :: prettyMembers depth members

end

end Json

end Conformance
