import Conformance.Yaml.Source

namespace Conformance.Yaml.Tag

def isSuffixChar (c : Char) : Bool :=
  isWordChar c || ";/?:@&=+$.%!~*\x27()".toList.contains c

def isVerbatimChar (c : Char) : Bool :=
  isSuffixChar c || c == ',' || c == '[' || c == ']'

def byte? (high low : Char) : Option Nat := do
  return 16 * (← hexValue? high) + (← hexValue? low)

def announced? (byte : Nat) : Option (Nat × Nat) :=
  if byte < 0x80 then some (0, byte)
  else if 0xC0 ≤ byte && byte < 0xE0 then some (1, byte - 0xC0)
  else if 0xE0 ≤ byte && byte < 0xF0 then some (2, byte - 0xE0)
  else if 0xF0 ≤ byte && byte < 0xF8 then some (3, byte - 0xF0)
  else none

def unescape (wanted bits : Nat) : List Char → Option (List Char)
  | [] => if wanted = 0 then some [] else none
  | '%' :: high :: low :: rest => do
    let byte ← byte? high low
    if wanted = 0 then
      let (more, bits) ← announced? byte
      if more = 0 then return Char.ofNat bits :: (← unescape 0 0 rest)
      else unescape more bits rest
    else if 0x80 ≤ byte && byte < 0xC0 then
      let bits := 64 * bits + (byte - 0x80)
      if wanted = 1 then return Char.ofNat bits :: (← unescape 0 0 rest)
      else unescape (wanted - 1) bits rest
    else none
  | c :: rest =>
    if wanted = 0 && c != '%' then (unescape 0 0 rest).map (c :: ·) else none

def handle? (directive : Bool) : Source → Option (List Char × Source)
  | [] => none
  | first :: rest =>
    if first.char != '!' then none
    else
      let (word, rest) := Source.spanChars isWordChar rest
      if Source.startsWith '!' rest then some ('!' :: word ++ ['!'], rest.tail)
      else if directive && !word.isEmpty then none
      else some ('!' :: word, rest)

def suffix? (verbatim : Bool) (source : Source) : Option (List Char × Source) := do
  let (raw, rest) := Source.spanChars (if verbatim then isVerbatimChar else isSuffixChar) source
  return (← unescape 0 0 raw, rest)

def directive? (source : Source) : Option (String × String × Source) := do
  let (handle, rest) ← handle? true (Source.skipSpaces source)
  guard (rest.head?.any fun place => isSpace place.char)
  let (lead, rest) ← suffix? true (Source.skipSpaces rest)
  guard (!lead.isEmpty && Source.endsWord rest)
  return (.ofList handle, .ofList lead, rest)

/-- A tag's handle and suffix. A word between angle brackets is a suffix as it
stands; a lone exclamation mark is a suffix without a handle. -/
def parts? (source : Source) : Option (List Char × List Char × Source) :=
  match source with
  | bang :: angle :: rest =>
    if bang.char == '!' && angle.char == '<' then do
      let (suffix, rest) ← suffix? true rest
      guard (!suffix.isEmpty && Source.startsWith '>' rest)
      return ([], suffix, rest.tail)
    else short source
  | _ => short source
where
  short (source : Source) : Option (List Char × List Char × Source) := do
    let (handle, rest) ← handle? false source
    let (suffix, rest) ← suffix? false rest
    if 2 ≤ handle.length && handle.getLast? == some '!' then
      guard (!suffix.isEmpty)
      return (handle, suffix, rest)
    else
      let suffix := handle.drop 1 ++ suffix
      return if suffix.isEmpty then ([], ['!'], rest) else (['!'], suffix, rest)

end Conformance.Yaml.Tag
