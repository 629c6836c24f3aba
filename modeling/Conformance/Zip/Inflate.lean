namespace Conformance.Zip

/-! The deflate format: blocks that are stored, or written in Huffman codes of
literals and of copies from what was already written. Bits are taken from the
low end of each byte. -/

namespace Inflate

structure Bits where
  bytes : ByteArray
  position : Nat

namespace Bits

def bit? (bits : Bits) : Option (Nat × Bits) :=
  match bits.bytes[bits.position / 8]? with
  | none => none
  | some byte =>
    some ((byte.toNat >>> (bits.position % 8)) % 2, { bits with position := bits.position + 1 })

def number? : Nat → Bits → Option (Nat × Bits)
  | 0, bits => some (0, bits)
  | count + 1, bits => do
    let (low, bits) ← bits.bit?
    let (high, bits) ← number? count bits
    return (low + 2 * high, bits)

def aligned (bits : Bits) : Bits :=
  { bits with position := (bits.position + 7) / 8 * 8 }

end Bits

structure Code where
  counts : Array Nat
  symbols : Array Nat

def Code.ofLengths (lengths : List Nat) : Code where
  counts := (Array.range 16).map fun length => if length = 0 then 0 else lengths.count length
  symbols :=
    ((List.range 15).flatMap fun length =>
      (lengths.zipIdx.filter fun entry => entry.1 == length + 1).map (·.2)).toArray

/-- Reads a code bit by bit. `first` is the first code of the length reached,
and `index` counts the symbols with shorter codes. -/
def symbolFrom (code : Code) : Nat → Nat → Nat → Nat → Nat → Bits → Option (Nat × Bits)
  | 0, _, _, _, _, _ => none
  | fuel + 1, length, read, first, index, bits => do
    let (bit, bits) ← bits.bit?
    let read := 2 * read + bit
    let count := code.counts.getD length 0
    if read < first + count then
      return (← code.symbols[index + (read - first)]?, bits)
    else
      symbolFrom code fuel (length + 1) read (2 * (first + count)) (index + count) bits

def Code.symbol? (code : Code) (bits : Bits) : Option (Nat × Bits) :=
  symbolFrom code 15 1 0 0 0 bits

def lengthBases : List (Nat × Nat) :=
  [(3, 0), (4, 0), (5, 0), (6, 0), (7, 0), (8, 0), (9, 0), (10, 0), (11, 1), (13, 1),
   (15, 1), (17, 1), (19, 2), (23, 2), (27, 2), (31, 2), (35, 3), (43, 3), (51, 3),
   (59, 3), (67, 4), (83, 4), (99, 4), (115, 4), (131, 5), (163, 5), (195, 5), (227, 5),
   (258, 0)]

def distanceBases : List (Nat × Nat) :=
  [(1, 0), (2, 0), (3, 0), (4, 0), (5, 1), (7, 1), (9, 2), (13, 2), (17, 3), (25, 3),
   (33, 4), (49, 4), (65, 5), (97, 5), (129, 6), (193, 6), (257, 7), (385, 7), (513, 8),
   (769, 8), (1025, 9), (1537, 9), (2049, 10), (3073, 10), (4097, 11), (6145, 11),
   (8193, 12), (12289, 12), (16385, 13), (24577, 13)]

def based? (bases : List (Nat × Nat)) (symbol : Nat) (bits : Bits) : Option (Nat × Bits) := do
  let (base, extra) ← bases[symbol]?
  let (more, bits) ← bits.number? extra
  return (base + more, bits)

def copy (distance : Nat) : Nat → ByteArray → ByteArray
  | 0, written => written
  | length + 1, written =>
    copy distance length (written.push (written[written.size - distance]?.getD 0))

/-- The symbols of a block up to its end. Each takes a bit at least. -/
def symbols? (literals distances : Code) : Nat → ByteArray → Bits → Option (ByteArray × Bits)
  | 0, _, _ => none
  | fuel + 1, written, bits => do
    let (symbol, bits) ← literals.symbol? bits
    if symbol < 256 then
      symbols? literals distances fuel (written.push (UInt8.ofNat symbol)) bits
    else if symbol = 256 then return (written, bits)
    else do
      let (length, bits) ← based? lengthBases (symbol - 257) bits
      let (symbol, bits) ← distances.symbol? bits
      let (distance, bits) ← based? distanceBases symbol bits
      if written.size < distance then none
      else symbols? literals distances fuel (copy distance length written) bits

def stored? (written : ByteArray) (bits : Bits) : Option (ByteArray × Bits) := do
  let (length, bits) ← bits.aligned.number? 16
  let (complement, bits) ← bits.number? 16
  let start := bits.position / 8
  if length + complement ≠ 65535 || bits.bytes.size < start + length then none
  else
    return (written ++ bits.bytes.extract start (start + length),
      { bits with position := bits.position + 8 * length })

def fixedLiterals : Code :=
  .ofLengths (List.replicate 144 8 ++ List.replicate 112 9 ++ List.replicate 24 7 ++
    List.replicate 8 8)

def fixedDistances : Code := .ofLengths (List.replicate 30 5)

def lengthOrder : List Nat :=
  [16, 17, 18, 0, 8, 7, 9, 6, 10, 5, 11, 4, 12, 3, 13, 2, 14, 1, 15]

def plainLengths? : Nat → Bits → Option (List Nat × Bits)
  | 0, bits => some ([], bits)
  | count + 1, bits => do
    let (length, bits) ← bits.number? 3
    let (lengths, bits) ← plainLengths? count bits
    return (length :: lengths, bits)

def codedLengths? (code : Code) (wanted : Nat) :
    Nat → List Nat → Bits → Option (List Nat × Bits)
  | 0, _, _ => none
  | fuel + 1, lengths, bits =>
    if wanted ≤ lengths.length then
      if lengths.length = wanted then some (lengths, bits) else none
    else do
      let (symbol, bits) ← code.symbol? bits
      if symbol < 16 then codedLengths? code wanted fuel (symbol :: lengths) bits
      else if symbol = 16 then do
        let last ← lengths.head?
        let (more, bits) ← bits.number? 2
        codedLengths? code wanted fuel (List.replicate (3 + more) last ++ lengths) bits
      else if symbol = 17 then do
        let (more, bits) ← bits.number? 3
        codedLengths? code wanted fuel (List.replicate (3 + more) 0 ++ lengths) bits
      else do
        let (more, bits) ← bits.number? 7
        codedLengths? code wanted fuel (List.replicate (11 + more) 0 ++ lengths) bits

def codes? (bits : Bits) : Option (Code × Code × Bits) := do
  let (literals, bits) ← bits.number? 5
  let (distances, bits) ← bits.number? 5
  let (given, bits) ← bits.number? 4
  let (plain, bits) ← plainLengths? (given + 4) bits
  let lengthOf (symbol : Nat) := ((lengthOrder.zip plain).lookup symbol).getD 0
  let code := Code.ofLengths ((List.range 19).map lengthOf)
  let wanted := literals + 257 + (distances + 1)
  let (lengths, bits) ← codedLengths? code wanted (wanted + 1) [] bits
  let lengths := lengths.reverse
  return (.ofLengths (lengths.take (literals + 257)), .ofLengths (lengths.drop (literals + 257)),
    bits)

def block? (written : ByteArray) (bits : Bits) : Option (ByteArray × Bits) := do
  let (kind, bits) ← bits.number? 2
  let fuel := 8 * bits.bytes.size + 1
  match kind with
  | 0 => stored? written bits
  | 1 => symbols? fixedLiterals fixedDistances fuel written bits
  | 2 => do
    let (literals, distances, bits) ← codes? bits
    symbols? literals distances fuel written bits
  | _ => none

def blocks? : Nat → ByteArray → Bits → Option ByteArray
  | 0, _, _ => none
  | fuel + 1, written, bits => do
    let (last, bits) ← bits.bit?
    let (written, bits) ← block? written bits
    if last = 1 then return written else blocks? fuel written bits

end Inflate

/-- The bytes that a deflated stream stands for. Each block takes three bits at
least. -/
def inflate? (bytes : ByteArray) : Option ByteArray :=
  Inflate.blocks? (8 * bytes.size + 1) ByteArray.empty ⟨bytes, 0⟩

end Conformance.Zip
