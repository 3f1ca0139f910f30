import BoardMill.Archive
import BoardMill.Archive.Inflate
import BoardMill.Checksum
import BoardMill.Fault

/-! # Reading archive files

An archive file ends with a record that leads to a directory. The directory has an
entry for each member, with its name and the place of its packed bytes. Numbers are
written low byte first. Content that is stored or deflated is unpacked here, and for
the other methods there may be more to unpack with.
-/

namespace BoardMill.Archive

/-- The number of so many bytes at a place. -/
def numberAt? (bytes : ByteArray) (start : Nat) : Nat → Option Nat
  | 0 => some 0
  | n + 1 => do return (← bytes[start]?).toNat + 256 * (← numberAt? bytes (start + 1) n)

/-- The number of two bytes at a place. -/
def short? (bytes : ByteArray) (start : Nat) : Option Nat := numberAt? bytes start 2

/-- The number of four bytes at a place. -/
def word? (bytes : ByteArray) (start : Nat) : Option Nat := numberAt? bytes start 4

/-- Bytes from a place on, if there are so many. -/
def slice? (bytes : ByteArray) (start length : Nat) : Option ByteArray :=
  if start + length ≤ bytes.size then some (bytes.extract start (start + length)) else none

/-! ## Names -/

/-- The characters of the bytes from 128 on, in names that are not marked as UTF-8. -/
def highCharacters : List Char :=
  ("ÇüéâäàåçêëèïîìÄÅÉæÆôöòûùÿÖÜ¢£¥₧ƒáíóúñÑªº¿⌐¬½¼¡«»░▒▓│┤╡╢╖╕╣║╗╝╜╛┐└┴┬├─┼╞╟╚╔╩╦╠═╬╧╨╤╥╙╘╒╓╫╪┘┌█▄▌▐▀" ++
    "αßΓπΣσµτΦΘΩδ∞φε∩≡±≥≤⌠⌡÷≈°∙·√ⁿ²■\u00a0").toList

/-- The character of a byte in such a name. -/
def nameCharacter (b : UInt8) : Char :=
  if b < 0x80 then Char.ofNat b.toNat else highCharacters.getD (b.toNat - 0x80) '\ufffd'

/-- Text with a replacement for every byte at which no character begins. -/
def replacedFrom (bytes : List UInt8) : Nat → List Char
  | 0 => []
  | n + 1 =>
    match bytes with
    | [] => []
    | _ :: rest => match Utf8.first? bytes with
      | some (c, rest) => c :: replacedFrom rest n
      | none => '\ufffd' :: replacedFrom rest n

/-- The name of a member. -/
def nameOf (marked : Bool) (bytes : List UInt8) : String :=
  String.ofList (if marked then replacedFrom bytes bytes.length else bytes.map nameCharacter)

/-! ## Members -/

/-- How content is unpacked that is neither stored as it is nor deflated. -/
class Unpacking where
  /-- What unpacks content of a method, if the method is known. -/
  unpack? : Nat → Option (ByteArray → Option ByteArray)

/-- No other method is known. -/
@[reducible]
def Unpacking.none : Unpacking := ⟨fun _ => .none⟩

/-- An entry of the directory. -/
structure Entry where
  name : String
  isLocked : Bool
  method : Nat
  checksum : Nat
  packedSize : Nat
  /-- Where the header of the member begins. -/
  start : Nat
  deriving Repr

/-- The packed bytes of an entry, as far as they are there. -/
def Entry.packed? (e : Entry) (bytes : ByteArray) : Option ByteArray := do
  if (← word? bytes e.start) ≠ 0x04034B50 then none
  let start := e.start + 30 + (← short? bytes (e.start + 26)) + (← short? bytes (e.start + 28))
  return bytes.extract start (start + e.packedSize)

/-- The content of unpacked bytes, whole if their checksum is that of an entry. -/
def Entry.checked (e : Entry) : Option ByteArray → MemberContent
  | none => .damaged
  | some content =>
    if (Checksum.crc32 content).toNat = e.checksum then .bytes content.data.toList
    else .damaged

/-- The content of an entry. -/
def Entry.content [Unpacking] (e : Entry) (bytes : ByteArray) : MemberContent :=
  if e.isLocked then .sealed "a password is needed"
  else match e.packed? bytes with
    | none => .sealed "a member is not where the directory says"
    | some packed =>
      match e.method with
      | 0 => e.checked (some packed)
      | 8 => e.checked (Inflate.unpack? packed)
      | method =>
        match Unpacking.unpack? method with
        | some unpack => e.checked (unpack packed)
        | none => .sealed "a member is packed in an unknown way"

/-! ## The directory -/

/-- The entry at a place of the directory, and the place behind it. Places within the
archive are shifted by what stands before it in the file. -/
def entry? (bytes : ByteArray) (shift start : Nat) : Option (Entry × Nat) := do
  if (← word? bytes start) ≠ 0x02014B50 then none
  let flags ← short? bytes (start + 8)
  let nameLength ← short? bytes (start + 28)
  let name ← slice? bytes (start + 46) nameLength
  let entry : Entry :=
    { name := nameOf (flags / 2048 % 2 == 1) name.data.toList
      isLocked := flags % 2 == 1
      method := ← short? bytes (start + 10)
      checksum := ← word? bytes (start + 16)
      packedSize := ← word? bytes (start + 20)
      start := shift + (← word? bytes (start + 42)) }
  return (entry,
    start + 46 + nameLength + (← short? bytes (start + 30)) + (← short? bytes (start + 32)))

/-- So many entries from a place on. -/
def entries? (bytes : ByteArray) (shift start : Nat) : Nat → Option (List Entry)
  | 0 => some []
  | n + 1 => do
    let (entry, next) ← entry? bytes shift start
    return entry :: (← entries? bytes shift next n)

/-- The entries of the directory that an end record at a place leads to, if there is such
a record and its comment fits. -/
def directory? (bytes : ByteArray) (place : Nat) : Option (List Entry) := do
  if (← word? bytes place) ≠ 0x06054B50 then none
  let comment ← short? bytes (place + 20)
  if bytes.size < place + 22 + comment then none
  let count ← short? bytes (place + 10)
  if count = 0 then return []
  let size ← word? bytes (place + 12)
  let offset ← word? bytes (place + 16)
  if place < size + offset then none
  entries? bytes (place - size - offset) (place - size) count

/-- The directory of the last end record that leads to one. -/
def lastDirectory? (bytes : ByteArray) : Nat → Option (List Entry)
  | 0 => none
  | place + 1 => (directory? bytes place).or (lastDirectory? bytes place)

/-- The archive that a file holds. -/
def ofBytes? [Unpacking] (bytes : ByteArray) : Except Fault Archive :=
  match lastDirectory? bytes bytes.size with
  | some entries => pure (ofMembers (entries.map fun e => ⟨e.name, e.content bytes⟩))
  | none => throw (.badArchive "no directory of an archive")

end BoardMill.Archive
