import Conformance.Text.Printable

namespace Conformance.Text

namespace Quoted

def hexDigits (n : Nat) : List Char :=
  Nat.toDigits 16 n

def numbered (c : Char) : List Char :=
  '\\' :: 'u' :: '\x7b' :: hexDigits c.toNat ++ ['\x7d']

def shown (single : Bool) (c : Char) : List Char :=
  if c = '\x00' then ['\\', '0']
  else if c = '\t' then ['\\', 't']
  else if c = '\r' then ['\\', 'r']
  else if c = '\n' then ['\\', 'n']
  else if c = '\x22' || c = '\\' || (single && c = '\x27') then ['\\', c]
  else if isShownPlain c then [c]
  else numbered c

def encode (single : Bool) (text : List Char) : List Char :=
  '\x22' :: text.flatMap (shown single) ++ ['\x22']

end Quoted

def quoted (text : String) : String :=
  .ofList (Quoted.encode false text.toList)

def quotedPath (path : String) : String :=
  .ofList (Quoted.encode true path.toList)

end Conformance.Text
