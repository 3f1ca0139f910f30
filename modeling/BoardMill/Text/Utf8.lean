/-! # Text from bytes

A byte sequence is text if it is a sequence of well-formed UTF-8 characters:
shortest forms of code points that are not surrogates. `Utf8.decode` reads as many
characters as there are and returns the bytes it stopped at.
-/

namespace BoardMill.Utf8

/-- The six low bits of a byte that continues a character. -/
def tail? (b : UInt8) : Option Nat :=
  if 0x80 ≤ b ∧ b ≤ 0xBF then some (b.toNat - 0x80) else none

/-- The character of a code point, if it is in a range and none of the surrogates. -/
def char? (low high n : Nat) : Option Char :=
  if low ≤ n ∧ n ≤ high ∧ ¬ (0xD800 ≤ n ∧ n ≤ 0xDFFF) then some (Char.ofNat n) else none

/-- The two-byte character that a byte begins. -/
def two? (a b : UInt8) : Option Char := do
  if 0xC0 ≤ a ∧ a ≤ 0xDF then
    char? 0x80 0x7FF ((a.toNat - 0xC0) * 0x40 + (← tail? b))
  else none

/-- The three-byte character that a byte begins. -/
def three? (a b c : UInt8) : Option Char := do
  if 0xE0 ≤ a ∧ a ≤ 0xEF then
    char? 0x800 0xFFFF ((a.toNat - 0xE0) * 0x1000 + (← tail? b) * 0x40 + (← tail? c))
  else none

/-- The four-byte character that a byte begins. -/
def four? (a b c d : UInt8) : Option Char := do
  if 0xF0 ≤ a ∧ a ≤ 0xF7 then
    char? 0x10000 0x10FFFF
      ((a.toNat - 0xF0) * 0x40000 + (← tail? b) * 0x1000 + (← tail? c) * 0x40 + (← tail? d))
  else none

/-- The first character of a byte sequence and the bytes behind it. -/
def first? : List UInt8 → Option (Char × List UInt8)
  | [] => none
  | a :: rest =>
    if a < 0x80 then some (Char.ofNat a.toNat, rest)
    else match rest with
      | [] => none
      | b :: rest => match two? a b, rest with
        | some char, rest => some (char, rest)
        | none, [] => none
        | none, c :: rest => match three? a b c, rest with
          | some char, rest => some (char, rest)
          | none, [] => none
          | none, d :: rest => match four? a b c d with
            | some char => some (char, rest)
            | none => none

theorem length_of_first? {bytes rest : List UInt8} {char : Char}
    (h : first? bytes = some (char, rest)) : rest.length < bytes.length := by
  unfold first? at h
  repeat' split at h
  all_goals
    try contradiction
  all_goals
    simp only [Option.some.injEq, Prod.mk.injEq] at h
    obtain ⟨-, rfl⟩ := h
    simp_all
  all_goals omega

/-- Reads characters until none follows, behind those already read, last first. -/
def decodeOnto (text : List Char) (bytes : List UInt8) : List Char × List UInt8 :=
  match h : first? bytes with
  | none => (text.reverse, bytes)
  | some (char, rest) =>
    have : rest.length < bytes.length := length_of_first? h
    decodeOnto (char :: text) rest
termination_by bytes.length

/-- The characters a byte sequence begins with, and the bytes left where none
follows: none at all exactly if the bytes are text. -/
def decode (bytes : List UInt8) : List Char × List UInt8 := decodeOnto [] bytes

/-- The text of a byte sequence, if it is text. -/
def decode? (bytes : List UInt8) : Option (List Char) :=
  match decode bytes with
  | (text, []) => some text
  | _ => none

/-- The bytes of a character. -/
def encodeChar (c : Char) : List UInt8 :=
  let n := c.toNat
  let tail (k : Nat) : UInt8 := UInt8.ofNat (0x80 + n / k % 0x40)
  if n < 0x80 then [UInt8.ofNat n]
  else if n < 0x800 then [UInt8.ofNat (0xC0 + n / 0x40), tail 1]
  else if n < 0x10000 then [UInt8.ofNat (0xE0 + n / 0x1000), tail 0x40, tail 1]
  else [UInt8.ofNat (0xF0 + n / 0x40000), tail 0x1000, tail 0x40, tail 1]

/-- The bytes of a text. -/
def encode (text : List Char) : List UInt8 := text.flatMap encodeChar

end BoardMill.Utf8
