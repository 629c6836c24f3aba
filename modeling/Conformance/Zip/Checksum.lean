namespace Conformance.Zip

def reflectedPolynomial : UInt32 := 0xEDB88320

def shiftBit (remainder : UInt32) : UInt32 :=
  if remainder &&& 1 == 1 then (remainder >>> 1) ^^^ reflectedPolynomial
  else remainder >>> 1

def shiftBits : Nat → UInt32 → UInt32
  | 0, remainder => remainder
  | n + 1, remainder => shiftBits n (shiftBit remainder)

def checksumTable : Array UInt32 :=
  (Array.range 256).map fun n => shiftBits 8 (UInt32.ofNat n)

def addByte (remainder : UInt32) (byte : UInt8) : UInt32 :=
  checksumTable.getD ((remainder ^^^ byte.toUInt32) &&& 0xFF).toNat 0 ^^^ (remainder >>> 8)

def checksum (bytes : ByteArray) : UInt32 :=
  bytes.foldl addByte 0xFFFFFFFF ^^^ 0xFFFFFFFF

end Conformance.Zip
