import BoardMill.Decimal.Reading

/-! # Reading JSON

Readers for the parts of a JSON text that settings are made of: strings, numbers,
and values that are only passed over. A number is collected in a 64-bit word;
digits that do not fit are dropped, and the word is then scaled by a power of ten.
-/

namespace BoardMill.Json

/-- Reads a part of a text off its front. -/
abbrev Reader := StateT (List Char) Option

/-- The characters that may stand between the parts of a text. -/
def isSpace (c : Char) : Bool := c == ' ' || c == '\n' || c == '\t' || c == '\r'

/-- Passes over the space in front. -/
def space : Reader Unit := modify (·.dropWhile isSpace)

/-- The next character, which is left in place. -/
def peek : Reader (Option Char) := return (← get).head?

/-- Takes the next character. -/
def take : Reader Char := do
  match ← get with
  | c :: rest =>
    set rest
    return c
  | [] => failure

/-- Takes a certain character. -/
def expect (c : Char) : Reader Unit := do
  if (← take) != c then failure

/-- Takes certain characters one after the other. -/
def expectAll (text : String) : Reader Unit := text.toList.forM expect

/-- Takes all digits in front. -/
def digits : Reader (List Char) := do
  let text ← get
  set (text.dropWhile Decimal.isDigit)
  return text.takeWhile Decimal.isDigit

/-! ## Numbers -/

/-- A number: a 64-bit word, the negative of one, or a double. -/
inductive Number where
  | whole (n : Nat)
  | minus (n : Nat)
  | real (x : Float)
  deriving Repr

/-- The value as a double. -/
def Number.toFloat : Number → Float
  | whole n => Float.ofNat n
  | minus n => -Float.ofNat n
  | real x => x

/-- The greatest 64-bit word. -/
def maxWord64 : Nat := 18446744073709551615

/-- The greatest signed 32-bit integer. -/
def maxInt32 : Nat := 2147483647

/-- Appends digits to a word as long as it stays within a limit: the word and the
digits left over. -/
def collect (limit : Nat) (word : Nat) : List Char → Nat × List Char
  | [] => (word, [])
  | d :: rest =>
    let next := 10 * word + Decimal.digitValue d
    if next ≤ limit then collect limit next rest else (word, d :: rest)

/-- Divides by powers of ten up to the 308th, the greatest that a double holds. -/
def divideByPower (fuel : Nat) (x : Float) (power : Nat) : Float :=
  match fuel with
  | 0 => x
  | fuel + 1 =>
    if power ≤ 308 then x / Float.ofScientific 1 false power
    else if x == 0.0 then x
    else divideByPower fuel (x / Float.ofScientific 1 false 308) (power - 308)

/-- The double nearest to a word, scaled by a power of ten. There is none above the
range of doubles. -/
def scale? (negative : Bool) (word : Nat) (exponent : Int) : Option Float :=
  let x := Float.ofNat word
  let signed (x : Float) : Float := if negative then -x else x
  if exponent < 0 then some (signed (divideByPower 4 x exponent.natAbs))
  else if 308 < exponent then if x == 0.0 then some (signed x) else none
  else
    let y := x * Float.ofScientific 1 false exponent.natAbs
    if y.isInf then none else some (signed y)

/-- Reads the exponent behind its letter and scales the word. -/
def exponent (negative : Bool) (word : Nat) (start : Int) : Reader Float := do
  let down ← match ← peek with
    | some '+' => do
      let _ ← take
      pure false
    | some '-' => do
      let _ ← take
      pure true
    | _ => pure false
  let ds ← digits
  if ds.isEmpty then failure
  match collect maxInt32 0 ds with
  | (n, []) => scale? negative word (if down then start - Int.ofNat n else start + Int.ofNat n)
  | _ =>
    if word != 0 && !down then failure
    return if negative then -0.0 else 0.0

/-- Whether the next character starts an exponent, which is then taken. -/
def exponentMark : Reader Bool := do
  match ← peek with
  | some 'e' | some 'E' =>
    let _ ← take
    return true
  | _ => return false

/-- Reads the digits behind the point and what follows them. -/
def fraction (negative : Bool) (word : Nat) (start : Int) : Reader Float := do
  let ds ← digits
  if ds.isEmpty then failure
  let (word, dropped) := collect maxWord64 word ds
  let start := start - Int.ofNat (ds.length - dropped.length)
  if ← exponentMark then exponent negative word start
  else scale? negative word start

/-- Reads an unsigned number, given its sign. -/
def unsigned (negative : Bool) : Reader Number := do
  let ds ← digits
  match ds with
  | [] => failure
  | '0' :: _ :: _ => failure
  | _ => pure ()
  let (word, dropped) := collect maxWord64 0 ds
  match ← peek with
  | some '.' => do
    let _ ← take
    return .real (← fraction negative word (Int.ofNat dropped.length))
  | _ =>
    if ← exponentMark then
      return .real (← exponent negative word (Int.ofNat dropped.length))
    else if !dropped.isEmpty then
      return .real (← scale? negative word (Int.ofNat dropped.length))
    else if !negative then return .whole word
    else if word == 0 || Decimal.maxInt64 + 1 < word then return .real (-Float.ofNat word)
    else return .minus word

/-- Reads a number. -/
def number : Reader Number := do
  match ← peek with
  | some '-' =>
    let _ ← take
    unsigned true
  | _ => unsigned false

/-- Reads a number as a double. -/
def float : Reader Float := return (← number).toFloat

/-- Reads a 32-bit word. -/
def word32 : Reader Nat := do
  match ← number with
  | .whole n => if n ≤ Decimal.maxWord32 then return n else failure
  | _ => failure

/-! ## Strings -/

/-- The value of a hexadecimal digit. -/
def hexValue? (c : Char) : Option Nat :=
  if Decimal.isDigit c then some (Decimal.digitValue c)
  else if 'a' ≤ c ∧ c ≤ 'f' then some (c.toNat - 'a'.toNat + 10)
  else if 'A' ≤ c ∧ c ≤ 'F' then some (c.toNat - 'A'.toNat + 10)
  else none

/-- Reads four hexadecimal digits. -/
def hex4 : Reader Nat := do
  let mut n := 0
  for _ in [0, 1, 2, 3] do
    n := n * 16 + (← hexValue? (← take))
  return n

/-- The character that a letter stands for behind a backslash. -/
def escaped? (c : Char) : Option Char :=
  match c with
  | '"' => some '"'
  | '\\' => some '\\'
  | '/' => some '/'
  | 'b' => some '\x08'
  | 'f' => some '\x0c'
  | 'n' => some '\n'
  | 'r' => some '\r'
  | 't' => some '\t'
  | _ => none

/-- Reads the code of a character behind `\u`. A character outside the basic plane is
written as a pair of surrogates. -/
def codePoint : Reader Char := do
  let n ← hex4
  if 0xDC00 ≤ n ∧ n ≤ 0xDFFF then failure
  else if 0xD800 ≤ n ∧ n ≤ 0xDBFF then
    expectAll "\\u"
    let low ← hex4
    if 0xDC00 ≤ low ∧ low ≤ 0xDFFF then
      return Char.ofNat (0x10000 + (n - 0xD800) * 0x400 + (low - 0xDC00))
    else failure
  else return Char.ofNat n

/-- Reads a string behind its opening quote, in at most so many steps. `code` reads
what follows `\u`. -/
def stringRest (code : Reader Char) : Nat → Reader (List Char)
  | 0 => failure
  | steps + 1 => do
    let c ← take
    if c == '"' then return []
    else if c.toNat < 0x20 then failure
    else if c == '\\' then
      let e ← take
      let char ← if e == 'u' then code else escaped? e
      return char :: (← stringRest code steps)
    else return c :: (← stringRest code steps)

/-! ## Values that are passed over -/

/-- Passes over an unsigned number of any size. -/
def skipUnsigned : Reader Unit := do
  match ← digits with
  | [] => failure
  | '0' :: _ :: _ => failure
  | _ => pure ()
  if (← peek) == some '.' then
    let _ ← take
    if (← digits).isEmpty then failure
  if ← exponentMark then
    if (← peek) == some '+' || (← peek) == some '-' then
      let _ ← take
    if (← digits).isEmpty then failure

/-- Reads what follows `\u` without regard to what it stands for. -/
def anyCode : Reader Char := do
  let _ ← hex4
  return ' '

/-- Reads `item`s between commas until a closing bracket, in at most so many steps.
`first` tells that no comma is due yet. -/
def sequenceRest (close : Char) (item : Reader Unit) : Bool → Nat → Reader Unit
  | _, 0 => failure
  | first, steps + 1 => do
    space
    if (← peek) == some close then
      let _ ← take
    else
      if !first then
        expect ','
        space
      item
      sequenceRest close item false steps

/-- Reads a key, in at most so many steps, and the colon behind it. -/
def key (code : Reader Char) (steps : Nat) : Reader (List Char) := do
  expect '"'
  let name ← stringRest code steps
  space
  expect ':'
  return name

/-- Passes over a value that has no more characters than a limit. -/
def skip : Nat → Reader Unit
  | 0 => failure
  | limit + 1 => do
    space
    match ← peek with
    | some 'n' => expectAll "null"
    | some 't' => expectAll "true"
    | some 'f' => expectAll "false"
    | some '"' =>
      let _ ← take
      let _ ← stringRest anyCode (limit + 1)
    | some '[' =>
      let _ ← take
      sequenceRest ']' (skip limit) true (limit + 1)
    | some '\x7b' =>
      let _ ← take
      let member : Reader Unit := do
        let _ ← key anyCode (limit + 1)
        skip limit
      sequenceRest '\x7d' member true (limit + 1)
    | some '-' =>
      let _ ← take
      skipUnsigned
    | _ => skipUnsigned

end BoardMill.Json
