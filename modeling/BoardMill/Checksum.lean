/-! # Checksums

Archives and pictures carry checksums of their bytes: the cyclic redundancy check of
32 bits, and the pair of sums of the same width.
-/

namespace BoardMill.Checksum

/-- Divides by the generator polynomial, bit by bit from the low end. -/
def reduceBits : Nat → UInt32 → UInt32
  | 0, r => r
  | n + 1, r => reduceBits n (if r &&& 1 = 1 then (r >>> 1) ^^^ 0xEDB88320 else r >>> 1)

/-- The remainder behind one more byte. -/
def crcStep (r : UInt32) (byte : UInt8) : UInt32 := reduceBits 8 (r ^^^ byte.toUInt32)

/-- The cyclic redundancy check of a byte sequence. -/
def crc32 (bytes : ByteArray) : UInt32 := ~~~ (bytes.foldl crcStep 0xFFFFFFFF)

/-- Both sums behind one more byte, in the arithmetic of the greatest prime of 16 bits. -/
def adlerStep (sums : UInt32 × UInt32) (byte : UInt8) : UInt32 × UInt32 :=
  let first := (sums.1 + byte.toUInt32) % 65521
  (first, (sums.2 + first) % 65521)

/-- The pair of sums of a byte sequence, the second one in front. -/
def adler32 (bytes : ByteArray) : UInt32 :=
  let (first, second) := bytes.foldl adlerStep (1, 0)
  (second <<< 16) ||| first

end BoardMill.Checksum
