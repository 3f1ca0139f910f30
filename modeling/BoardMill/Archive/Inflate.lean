/-! # Unpacking compressed bytes

Compressed bytes are a sequence of bits, the low bits of each byte first. They form
blocks, each with a header. A block holds bytes as they are, or symbols of a prefix
code: a symbol is a byte, the end of the block, or a length that goes with a
distance and repeats what came before.
-/

namespace BoardMill.Inflate

/-- Reads bits from a position on. There may be too few of them. -/
abbrev BitReader := ReaderT ByteArray (StateT Nat Option)

/-- The next bit. -/
def bit : BitReader Nat := do
  let position ← get
  match (← read)[position / 8]? with
  | some byte =>
    set (position + 1)
    return (byte.toNat >>> (position % 8)) % 2
  | none => failure

/-- A number of so many bits, the low ones first. -/
def bits : Nat → BitReader Nat
  | 0 => return 0
  | n + 1 => do
    let low ← bit
    return low + 2 * (← bits n)

/-- Goes on to the next whole byte. -/
def align : BitReader Unit := modify fun position => (position + 7) / 8 * 8

/-! ## Prefix codes -/

/-- A prefix code: for each length from one on, the symbols of that length in the order of
their codes. Shorter codes come before longer ones. -/
abbrev PrefixCode := List (List Nat)

/-- The code in which each symbol has a code of a given length, and none if that is zero. -/
def codeOfLengths (lengths : List Nat) : PrefixCode :=
  (List.range 15).map fun k =>
    (lengths.zipIdx.filter fun entry => entry.1 == k + 1).map Prod.snd

/-- Reads a symbol, given how many codes come before those of the lengths left, and the
bits read. -/
def symbolFrom (before code : Nat) : PrefixCode → BitReader Nat
  | [] => failure
  | symbols :: rest => do
    let code := 2 * code + (← bit)
    let before := 2 * before
    match symbols[code - before]? with
    | some symbol => return symbol
    | none => symbolFrom (before + symbols.length) code rest

/-- Reads a symbol of a code. -/
def symbol (code : PrefixCode) : BitReader Nat := symbolFrom 0 0 code

/-! ## Repetitions -/

/-- The least length, and the number of bits that may raise it, for a length symbol. -/
def lengthClass? (index : Nat) : Option (Nat × Nat) :=
  if index < 8 then some (3 + index, 0)
  else if index < 28 then
    let extra := index / 4 - 1
    some (3 + (4 + index % 4) <<< extra, extra)
  else if index = 28 then some (258, 0)
  else none

/-- The least distance, and the number of bits that may raise it, for a distance symbol. -/
def distanceClass? (index : Nat) : Option (Nat × Nat) :=
  if index < 4 then some (1 + index, 0)
  else if index < 30 then
    let extra := index / 2 - 1
    some (1 + (2 + index % 2) <<< extra, extra)
  else none

/-- Reads the number that a symbol of a class stands for. -/
def classValue : Option (Nat × Nat) → BitReader Nat
  | some (least, extra) => return least + (← bits extra)
  | none => failure

/-- Repeats bytes from a distance back. -/
def repeatBytes (out : ByteArray) (distance : Nat) : Nat → ByteArray
  | 0 => out
  | n + 1 => repeatBytes (out.push (out[out.size - distance]?.getD 0)) distance n

/-! ## Blocks -/

/-- Unpacks the symbols of a block until its end, at most so many. -/
def symbols (literals distances : PrefixCode) (out : ByteArray) : Nat → BitReader ByteArray
  | 0 => failure
  | limit + 1 => do
    let s ← symbol literals
    if s < 256 then
      symbols literals distances (out.push (UInt8.ofNat s)) limit
    else if s = 256 then
      return out
    else
      let length ← classValue (lengthClass? (s - 257))
      let distance ← classValue (distanceClass? (← symbol distances))
      if out.size < distance then failure
      symbols literals distances (repeatBytes out distance length) limit

/-- The code of literals that every block may use. -/
def fixedLiterals : PrefixCode :=
  codeOfLengths <| List.replicate 144 8 ++ List.replicate 112 9 ++ List.replicate 24 7 ++
    List.replicate 8 8

/-- The code of distances that every block may use. -/
def fixedDistances : PrefixCode := codeOfLengths (List.replicate 30 5)

/-- The order in which the lengths of the codes for lengths are given. -/
def lengthOrder : List Nat := [16, 17, 18, 0, 8, 7, 9, 6, 10, 5, 11, 4, 12, 3, 13, 2, 14, 1, 15]

/-- Reads so many code lengths, behind those read, last first. A length may stand for
several. -/
def codeLengths (code : PrefixCode) (count : Nat) (found : List Nat) :
    Nat → BitReader (List Nat)
  | 0 => failure
  | limit + 1 => do
    if count ≤ found.length then
      if count < found.length then failure
      return found.reverse
    let s ← symbol code
    let run ← if s < 16 then pure [s]
      else if s = 16 then
        match found with
        | last :: _ => pure (List.replicate (3 + (← bits 2)) last)
        | [] => failure
      else if s = 17 then pure (List.replicate (3 + (← bits 3)) 0)
      else pure (List.replicate (11 + (← bits 7)) 0)
    codeLengths code count (run ++ found) limit

/-- Reads the codes that a block brings along. -/
def ownCodes : BitReader (PrefixCode × PrefixCode) := do
  let literalCount := 257 + (← bits 5)
  let distanceCount := 1 + (← bits 5)
  let given := lengthOrder.take (4 + (← bits 4))
  let lengths ← given.mapM fun index => return (index, ← bits 3)
  let code := codeOfLengths ((List.range 19).map fun k => (lengths.lookup k).getD 0)
  let count := literalCount + distanceCount
  let lengths ← codeLengths code count [] (count + 1)
  return (codeOfLengths (lengths.take literalCount), codeOfLengths (lengths.drop literalCount))

/-- Unpacks a block that holds bytes as they are. -/
def storedBlock (out : ByteArray) : BitReader ByteArray := do
  align
  let length ← bits 16
  let complement ← bits 16
  if length + complement ≠ 65535 then failure
  let start := (← get) / 8
  let bytes ← read
  if bytes.size < start + length then failure
  set (8 * (start + length))
  return out ++ bytes.extract start (start + length)

/-- Unpacks a block behind its header. -/
def block (kind : Nat) (out : ByteArray) : BitReader ByteArray := do
  let limit := 8 * (← read).size + 1
  match kind with
  | 0 => storedBlock out
  | 1 => symbols fixedLiterals fixedDistances out limit
  | 2 =>
    let (literals, distances) ← ownCodes
    symbols literals distances out limit
  | _ => failure

/-- Unpacks blocks up to the last one, at most so many. -/
def blocks (out : ByteArray) : Nat → BitReader ByteArray
  | 0 => failure
  | limit + 1 => do
    let last ← bit
    let kind ← bits 2
    let out ← block kind out
    if last = 1 then return out else blocks out limit

/-- The bytes that were compressed. -/
def unpack? (bytes : ByteArray) : Option ByteArray :=
  ((blocks ByteArray.empty (8 * bytes.size + 1)).run bytes).run' 0

end BoardMill.Inflate
