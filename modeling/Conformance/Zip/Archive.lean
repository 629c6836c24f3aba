import Conformance.Error
import Conformance.Zip.Checksum
import Conformance.Zip.Enclosed
import Conformance.Zip.Inflate
import Std.Data.HashSet

namespace Conformance.Zip

/-! Archives: named entries, each with what comes of opening it. -/

structure Entry where
  name : String
  /-- The segments of the place that the name leads to, if it leads to one. -/
  enclosed : Option (List String)
  encrypted : Bool
  /-- What comes of opening the entry, and of reading it then. -/
  body : Except Problem (Except Host.Fault ByteArray)

namespace Entry

def isFolder (entry : Entry) : Bool :=
  match entry.name.toList.getLast? with
  | some '/' => true
  | some '\\' => true
  | _ => false

def plain (name : String) (bytes : ByteArray) : Entry where
  name := name
  enclosed := enclosed? name
  encrypted := false
  body := .ok (.ok bytes)

def opened (entry : Entry) : Except Problem (Except Host.Fault ByteArray) :=
  if entry.encrypted then .error .encrypted else entry.body

def read (entry : Entry) : Except Error ByteArray :=
  match entry.opened with
  | .error problem => .error (.zip problem)
  | .ok held => held.mapError .host

theorem read_plain (name : String) (bytes : ByteArray) : (plain name bytes).read = .ok bytes :=
  rfl

end Entry

abbrev Archive := List Entry

namespace Archive

def put (entry : Entry) : Archive → Archive
  | [] => [entry]
  | first :: rest =>
    if first.name = entry.name then entry :: rest else first :: put entry rest

def ofEntries (entries : List Entry) : Archive :=
  if (Std.HashSet.ofList (entries.map (·.name))).size = entries.length then entries
  else entries.foldl (fun archive entry => archive.put entry) []

end Archive

abbrev Reader := ByteArray → Except Problem Archive

namespace Layout

def byteAt (bytes : ByteArray) (position : Nat) : Nat :=
  (bytes[position]?.getD 0).toNat

def number (bytes : ByteArray) (position : Nat) : Nat → Nat
  | 0 => 0
  | count + 1 => byteAt bytes position + 256 * number bytes (position + 1) count

def endMark : Nat := 0x06054b50
def wideEndMark : Nat := 0x06064b50
def wideLocatorMark : Nat := 0x07064b50
def directoryMark : Nat := 0x02014b50
def headerMark : Nat := 0x04034b50

structure DirectoryEnd where
  position : Nat
  count : Nat
  size : Nat
  offset : Nat

/-- Large archives have a wider form of the directory's end in front of it. -/
def wideEnd? (bytes : ByteArray) (position : Nat) : Option DirectoryEnd :=
  if 20 ≤ position && number bytes (position - 20) 4 = wideLocatorMark then
    let wide := number bytes (position - 20 + 8) 8
    if number bytes wide 4 = wideEndMark then
      some ⟨wide, number bytes (wide + 32) 8, number bytes (wide + 40) 8,
        number bytes (wide + 48) 8⟩
    else none
  else none

def endAt? (bytes : ByteArray) (position : Nat) : Option DirectoryEnd :=
  if bytes.size < position + 22 || number bytes position 4 ≠ endMark then none
  else if bytes.size < position + 22 + number bytes (position + 20) 2 then none
  else
    let narrow : DirectoryEnd :=
      ⟨position, number bytes (position + 10) 2, number bytes (position + 12) 4,
        number bytes (position + 16) 4⟩
    some ((wideEnd? bytes position).getD narrow)

def latin : List Char :=
  "ÇüéâäàåçêëèïîìÄÅÉæÆôöòûùÿÖÜ¢£¥₧ƒáíóúñÑªº¿⌐¬½¼¡«»░▒▓│┤╡╢╖╕╣║╗╝╜╛┐└┴┬├─┼╞╟╚╔╩╦╠═╬╧╨╤╥╙╘╒╓╫╪┘┌█▄▌▐▀αßΓπΣσµτΦΘΩδ∞φε∩≡±≥≤⌠⌡÷≈°∙·√ⁿ²■".toList ++
    [Char.ofNat 0xA0]

def nameText (wide : Bool) (bytes : ByteArray) : String :=
  match if wide then String.fromUTF8? bytes else none with
  | some text => text
  | none =>
    .ofList (bytes.toList.map fun byte =>
      if byte < 128 then Char.ofNat byte.toNat else latin.getD (byte.toNat - 128) ' ')

def dataAt (bytes : ByteArray) (header size : Nat) : Except Problem ByteArray :=
  if bytes.size < header + 30 || number bytes header 4 ≠ headerMark then .error .badHeader
  else
    let start := header + 30 + number bytes (header + 26) 2 + number bytes (header + 28) 2
    .ok (bytes.extract start (start + size))

def unpack (method : Nat) (checksum : UInt32) (stored : ByteArray) :
    Except Host.Fault ByteArray :=
  match if method = 8 then inflate? stored else some stored with
  | none => .error .corruptStream
  | some bytes => if Zip.checksum bytes = checksum then .ok bytes else .error .invalidChecksum

def bodyOf (method : Nat) (checksum : UInt32) (data : Except Problem ByteArray) :
    Except Problem (Except Host.Fault ByteArray) := do
  let stored ← data
  if method ≠ 0 ∧ method ≠ 8 then throw .unsupported
  return unpack method checksum stored

/-- The wide number that takes the place of a field of all ones; extra fields
have an identifier and a size each. -/
def wideField (bytes : ByteArray) : Nat → Nat → Nat → Option Nat
  | 0, _, _ => none
  | fuel + 1, position, stop =>
    if stop < position + 4 then none
    else if number bytes position 2 = 1 then some (position + 4)
    else wideField bytes fuel (position + 4 + number bytes (position + 2) 2) stop

def entryAt (bytes : ByteArray) (shift position : Nat) : Except Problem (Entry × Nat) :=
  if bytes.size < position + 46 || number bytes position 4 ≠ directoryMark then
    .error .badDirectory
  else
    let flags := number bytes (position + 8) 2
    let nameSize := number bytes (position + 28) 2
    let extraSize := number bytes (position + 30) 2
    let commentSize := number bytes (position + 32) 2
    let next := position + 46 + nameSize + extraSize + commentSize
    if bytes.size < next then .error .badDirectory
    else
      let name :=
        nameText (flags / 2048 % 2 = 1) (bytes.extract (position + 46) (position + 46 + nameSize))
      let extra := position + 46 + nameSize
      let packed := number bytes (position + 20) 4
      let size := number bytes (position + 24) 4
      let offset := number bytes (position + 42) 4
      let wide := (wideField bytes extraSize extra (extra + extraSize)).getD 0
      let isWide (field : Nat) := field = 0xFFFFFFFF && wide ≠ 0
      let packedAt := wide + (if isWide size then 8 else 0)
      let offsetAt := packedAt + (if isWide packed then 8 else 0)
      let packedSize := if isWide packed then number bytes packedAt 8 else packed
      let headerAt := if isWide offset then number bytes offsetAt 8 else offset
      .ok
        ({ name
           enclosed := enclosed? name
           encrypted := flags % 2 = 1
           body :=
            bodyOf (number bytes (position + 10) 2) (UInt32.ofNat (number bytes (position + 16) 4))
              (dataAt bytes (headerAt + shift) packedSize) }, next)

def entriesFrom (bytes : ByteArray) (shift : Nat) :
    Nat → Nat → List Entry → Except Problem (List Entry)
  | 0, _, entries => .ok entries
  | count + 1, position, entries => do
    let (entry, next) ← entryAt bytes shift position
    entriesFrom bytes shift count next (entry :: entries)

/-- A directory that does not stand where its offset says is shifted by what
stands in front of the archive. -/
def archiveAt (bytes : ByteArray) (found : DirectoryEnd) : Except Problem Archive := do
  if found.position < found.offset + found.size then throw .badDirectory
  let shift := found.position - (found.offset + found.size)
  if bytes.size / 46 < found.count then throw .badDirectory
  let entries ← entriesFrom bytes shift found.count (found.offset + shift) []
  return Archive.ofEntries entries.reverse

/-- The last directory end from which an archive can be read. -/
def search (bytes : ByteArray) (problem : Problem) : Nat → Except Problem Archive
  | 0 => .error problem
  | position + 1 =>
    match endAt? bytes position with
    | none => search bytes problem position
    | some found =>
      match archiveAt bytes found with
      | .ok archive => .ok archive
      | .error problem => search bytes problem position

end Layout

def Archive.ofBytes : Reader := fun bytes =>
  Layout.search bytes .noEnd bytes.size

end Conformance.Zip
