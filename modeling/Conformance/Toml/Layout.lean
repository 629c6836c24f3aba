namespace Conformance.Toml

def isSpace (c : Char) : Bool :=
  c == ' ' || c == '\t'

def isVisible (c : Char) : Bool :=
  c == '\t' || (' ' ≤ c && c != '\x7f')

def skipSpaces (text : List Char) : List Char :=
  text.dropWhile isSpace

def afterBreak? : List Char → Option (List Char)
  | '\n' :: rest => some rest
  | '\r' :: '\n' :: rest => some rest
  | _ => none

def skipLayout (inComment : Bool) : List Char → Option (List Char)
  | [] => some []
  | '\r' :: '\n' :: rest => skipLayout false rest
  | c :: rest =>
    if c == '\n' then skipLayout false rest
    else if inComment then
      if isVisible c then skipLayout true rest else none
    else if isSpace c then skipLayout false rest
    else if c == '#' then skipLayout true rest
    else some (c :: rest)

def endLine (inComment : Bool) : List Char → Option (List Char)
  | [] => some []
  | '\r' :: '\n' :: rest => some rest
  | c :: rest =>
    if c == '\n' then some rest
    else if inComment then
      if isVisible c then endLine true rest else none
    else if isSpace c then endLine false rest
    else if c == '#' then endLine true rest
    else none

theorem length_skipSpaces_le (text : List Char) :
    (skipSpaces text).length ≤ text.length :=
  (List.dropWhile_sublist _).length_le

end Conformance.Toml
