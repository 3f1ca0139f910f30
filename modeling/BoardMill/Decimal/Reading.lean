import BoardMill.Decimal.Binary
import BoardMill.Decimal.Digits

/-! # Reading decimals

A plain decimal is an optional sign, then digits with at most one point and at
least one digit; its value is the nearest number of the type, if that is finite.
A general decimal may carry an exponent, or be one of the words for infinity and
for what is not a number.
-/

namespace BoardMill.Decimal

variable {α : Type} [Scalar α]

/-- Splits one sign off: whether it was a minus, and the rest. -/
def splitSign : List Char → Bool × List Char
  | '-' :: rest => (true, rest)
  | '+' :: rest => (false, rest)
  | text => (false, text)

/-- The part before the first occurrence of a character and the part behind it. -/
def splitAtFirst? (mark : Char) : List Char → Option (List Char × List Char)
  | [] => none
  | c :: rest =>
    if c = mark then some ([], rest)
    else (splitAtFirst? mark rest).map fun (before, after) => (c :: before, after)

/-- The integer part and the fraction of an unsigned plain decimal. -/
def plainParts? (text : List Char) : Option (List Char × List Char) :=
  let parts := (splitAtFirst? '.' text).getD (text, [])
  if (parts.1.isEmpty && parts.2.isEmpty) || !parts.1.all isDigit || !parts.2.all isDigit then none
  else some parts

/-- The number nearest to the decimal of an integer part and a fraction. -/
def ofParts (whole fraction : List Char) : α :=
  OfScientific.ofScientific (ofDigits (whole ++ fraction)) true fraction.length

/-- The value with its sign. -/
def withSign (negative : Bool) (value : α) : α := if negative then -value else value

/-- Reads a plain decimal. -/
def readPlain? (text : List Char) : Option α := do
  let (negative, unsigned) := splitSign text
  let (whole, fraction) ← plainParts? unsigned
  let value := withSign negative (ofParts whole fraction)
  if Scalar.isFinite value then some value else none

/-- Reads digits after an optional plus, no greater than a limit. -/
def readUpTo? (limit : Nat) (text : List Char) : Option Nat :=
  let digits := match text with
    | '+' :: rest => rest
    | _ => text
  if digits.isEmpty || !digits.all isDigit then none
  else
    let n := ofDigits digits
    if n ≤ limit then some n else none

/-- The greatest 32-bit word. -/
def maxWord32 : Nat := 4294967295

/-- The greatest signed 64-bit integer. -/
def maxInt64 : Nat := 9223372036854775807

/-- Reads a 32-bit word: digits after an optional plus. -/
def readWord32? (text : List Char) : Option Nat := readUpTo? maxWord32 text

/-- The number `mantissa · 10 ^ exponent`. Outside the range of doubles the
power is not computed. -/
def ofScaled (mantissa : Nat) (exponent : Int) : Float :=
  let top := Int.ofNat (toDigits mantissa).length + exponent
  if mantissa = 0 || top < -400 then 0.0
  else if 400 < top then 1.0 / 0.0
  else if exponent < 0 then Float.ofScientific mantissa true exponent.natAbs
  else Float.ofScientific mantissa false exponent.natAbs

/-- The exponent behind the letter `e`, with an optional sign. -/
def readExponent? (text : List Char) : Option Int :=
  let (negative, digits) := splitSign text
  if digits.isEmpty || !digits.all isDigit then none
  else
    let n := Int.ofNat (ofDigits digits)
    some (if negative then -n else n)

/-- A letter of the Latin alphabet as a small letter. -/
def lower (c : Char) : Char :=
  if 'A' ≤ c ∧ c ≤ 'Z' then Char.ofNat (c.toNat + 32) else c

/-- Reads an unsigned general decimal. -/
def readUnsigned? (text : List Char) : Option Float :=
  let word := String.ofList (text.map lower)
  if word = "inf" || word = "infinity" then some (1.0 / 0.0)
  else if word = "nan" then some (0.0 / 0.0)
  else
    let (number, exponent) := match splitAtFirst? 'e' (text.map lower) with
      | some (number, exponent) => (number, readExponent? exponent)
      | none => (text, some 0)
    match plainParts? number, exponent with
    | some (whole, fraction), some e =>
      some (ofScaled (ofDigits (whole ++ fraction)) (e - Int.ofNat fraction.length))
    | _, _ => none

/-- Reads a general decimal: a sign, then a number with an optional exponent, or one
of the words `inf`, `infinity` and `nan` in any letter case. -/
def readGeneral? (text : List Char) : Option Float :=
  let (negative, unsigned) := splitSign text
  (readUnsigned? unsigned).map (withSign negative)

end BoardMill.Decimal
