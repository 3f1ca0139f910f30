import BoardMill.Checksum
import BoardMill.Picture.PixelRow

/-! # Picture files

A picture file is a signature and chunks with checksums. The pixels are in one chunk,
row by row, one bit each, which tells the two colors of the palette apart: empty and
copper. They are packed as they are.
-/

namespace BoardMill.Png

/-- The four bytes of a word, high byte first. -/
def word (w : UInt32) : ByteArray :=
  ⟨#[(w >>> 24).toUInt8, (w >>> 16).toUInt8, (w >>> 8).toUInt8, w.toUInt8]⟩

/-- What every picture file begins with. -/
def signature : ByteArray := ⟨#[0x89, 0x50, 0x4E, 0x47, 0x0D, 0x0A, 0x1A, 0x0A]⟩

/-- A chunk: the length of its content, its name, the content, and their checksum. -/
def chunk (name : String) (content : ByteArray) : ByteArray :=
  let body := name.toUTF8 ++ content
  word (UInt32.ofNat content.size) ++ body ++ word (Checksum.crc32 body)

/-- The chunk of the size, for pixels of one bit that stands for a color of the palette. -/
def header (width height : Nat) : ByteArray :=
  chunk "IHDR" (word (UInt32.ofNat width) ++ word (UInt32.ofNat height) ++ ⟨#[1, 3, 0, 0, 0]⟩)

/-- The chunks of the palette: red, green and blue of empty and of copper, then how opaque
they are. -/
def palette : ByteArray :=
  chunk "PLTE" ⟨#[0, 0, 0, 184, 115, 51]⟩ ++ chunk "tRNS" ⟨#[0, 255]⟩

/-- Sixteen bits, low byte first. -/
def shortBytes (n : Nat) : ByteArray := ⟨#[UInt8.ofNat n, UInt8.ofNat (n / 256)]⟩

/-- The greatest size of a block of bytes that are not compressed. -/
def blockLimit : Nat := 65535

/-- Blocks from a place on, the last one marked as such. -/
def blocksFrom (bytes out : ByteArray) (start : Nat) : Nat → ByteArray
  | 0 => out
  | n + 1 =>
    let content := bytes.extract start (start + blockLimit)
    let out := out.push (if n = 0 then 1 else 0)
    let out := out ++ shortBytes content.size ++ shortBytes (blockLimit - content.size) ++ content
    blocksFrom bytes out (start + blockLimit) n

/-- Bytes in the frame of a compressed stream. -/
def packed (bytes : ByteArray) : ByteArray :=
  let out := blocksFrom bytes ⟨#[0x78, 0x01]⟩ 0 (bytes.size / blockLimit + 1)
  out ++ word (Checksum.adler32 bytes)

/-- The byte with its bits in the opposite order: halves, pairs and neighbors change places. -/
def mirror (byte : UInt8) : UInt8 :=
  let halves := (byte / 16) ||| (byte * 16)
  let pairs := ((halves / 4) &&& 0x33) ||| ((halves &&& 0x33) * 4)
  ((pairs / 2) &&& 0x55) ||| ((pairs &&& 0x55) * 2)

/-- Adds as many of the bytes of a word, low byte first, with their bits mirrored. -/
def pushBytes (out : ByteArray) (word : UInt64) : Nat → ByteArray
  | 0 => out
  | n + 1 => pushBytes (out.push (mirror word.toUInt8)) (word >>> 8) n

/-- Adds a row of so many bytes behind the mark that they are given as they are. The
leftmost pixel is the high bit of the first byte. -/
def pushRow (size : Nat) (out : ByteArray) (row : PixelRow) : ByteArray :=
  (List.range ((size + 7) / 8)).foldl
    (fun out k => pushBytes out (row >>> (64 * k)).toUInt64 (Nat.min 8 (size - 8 * k))) (out.push 0)

/-- The file of a picture with rows of pixels that are copper. -/
def encode (width height : Nat) (rows : List PixelRow) : ByteArray :=
  let size := (width + 7) / 8
  let pixels := rows.foldl (pushRow size) ByteArray.empty
  signature ++ header width height ++ palette ++ chunk "IDAT" (packed pixels) ++
    chunk "IEND" ByteArray.empty

end BoardMill.Png
