import BoardMill.Decimal.Binary
import BoardMill.Decimal.Digits

/-! # The shortest decimal that reads back

Among the decimals that round to a given double, `Shortest.ofRatio` takes one with
the fewest digits, and of those the one nearest to the double. Two writings share
the digits: the plain one never uses an exponent, the compact one does so for
very small and very large numbers.
-/

namespace BoardMill.Decimal

/-- The positive number `digits · 10 ^ exponent`. -/
structure Scaled where
  digits : List Char
  exponent : Int
  deriving BEq, Repr

/-- Where a number exactly halfway between two decimals goes. -/
inductive Tie where
  | up
  | toEven
  deriving DecidableEq, Repr

/-- The interval of numbers that round to a double, and the double itself, over one
denominator. The ends belong to it if `closed` holds. -/
structure Interval where
  low : Nat
  value : Nat
  high : Nat
  den : Nat
  closed : Bool
  deriving Repr

namespace Interval

/-- The interval of `mantissa · 2 ^ exponent`. Below an edge the doubles lie twice
as close. -/
def ofBinary (mantissa : Nat) (exponent : Int) (edge : Bool) : Interval :=
  let (num, den) := Binary.ratio 1 exponent
  { low := num * (4 * mantissa - if edge then 1 else 2)
    value := num * (4 * mantissa)
    high := num * (4 * mantissa + 2)
    den := 4 * den
    closed := mantissa % 2 == 0 }

/-- Whether `n / scale` lies in the interval, for a denominator scaled alike. -/
def contains (i : Interval) (n : Nat) : Bool :=
  if i.closed then i.low ≤ n && n ≤ i.high else i.low < n && n < i.high

/-- The `k` with `10 ^ (k - 1) ≤ num / den < 10 ^ k`. -/
def decimalExponent (num den : Nat) : Int :=
  if den ≤ num then Int.ofNat (toDigits (num / den)).length
  else
    let places := (toDigits (den / num)).length
    if den == num * Nat.pow 10 (places - 1) then 2 - Int.ofNat places else 1 - Int.ofNat places

/-- The decimal of the interval with `count` digits that is nearest to the value. -/
def atDigits? (i : Interval) (tie : Tie) (top : Int) (count : Nat) : Option Scaled :=
  let exponent := top - Int.ofNat count
  let unit := Nat.pow 10 exponent.natAbs
  -- Scale so that the decimal grid becomes the integers times `step`.
  let scale := if exponent < 0 then unit else 1
  let step := if exponent < 0 then i.den else i.den * unit
  let grown : Interval :=
    { i with low := i.low * scale, value := i.value * scale, high := i.high * scale }
  let below := grown.value / step
  let rest := grown.value % step
  let fitsBelow := below != 0 && grown.contains (below * step)
  let fitsAbove := grown.contains ((below + 1) * step)
  let upper := match compare (2 * rest) step with
    | .lt => false
    | .gt => true
    | .eq => match tie with
      | .up => true
      | .toEven => below % 2 == 1
  match fitsBelow, fitsAbove with
  | true, true => some ⟨toDigits (if upper then below + 1 else below), exponent⟩
  | true, false => some ⟨toDigits below, exponent⟩
  | false, true => some ⟨toDigits (below + 1), exponent⟩
  | false, false => none

/-- The first of the digit counts that has a decimal in the interval. Seventeen
digits always do. -/
def shortest (i : Interval) (tie : Tie) : Scaled :=
  let top := decimalExponent i.value i.den
  ((List.range 17).findSome? fun k => i.atDigits? tie top (k + 1)).getD ⟨['0'], 0⟩

end Interval

namespace Scaled

/-- Zeros at the end of the digits go into the exponent. -/
def trimmed (s : Scaled) : Scaled :=
  let kept := s.digits.reverse.dropWhile (· == '0')
  ⟨kept.reverse, s.exponent + Int.ofNat (s.digits.length - kept.length)⟩

/-- How many digits stand before the point; negative for zeros right behind it. -/
def pointAt (s : Scaled) : Int := Int.ofNat s.digits.length + s.exponent

/-- The number without an exponent: its integer part and its fraction. -/
def positional (s : Scaled) : List Char × List Char :=
  if 0 ≤ s.exponent then (s.digits ++ zeros s.exponent.natAbs, [])
  else if 0 < s.pointAt then (s.digits.take s.pointAt.natAbs, s.digits.drop s.pointAt.natAbs)
  else (['0'], zeros s.pointAt.natAbs ++ s.digits)

/-- The number without an exponent, with a point only before a fraction. -/
def plain (s : Scaled) : List Char :=
  match s.positional with
  | (whole, []) => whole
  | (whole, fraction) => whole ++ '.' :: fraction

/-- One digit before the point and a power of ten. -/
def scientific (s : Scaled) : List Char :=
  let power := s.pointAt - 1
  let head := match s.digits with
    | [] => []
    | [d] => [d]
    | d :: rest => d :: '.' :: rest
  let sign := if power < 0 then '-' else '+'
  head ++ 'e' :: sign :: toDigits power.natAbs

end Scaled

/-- A sign is written for negative numbers only. -/
def signed (negative : Bool) (text : List Char) : List Char :=
  if negative then '-' :: text else text

/-- The shortest decimal that reads back, never with an exponent. -/
def plainText (x : Float) : String :=
  String.ofList <| match Binary.ofFloat x with
    | .notANumber => ['N', 'a', 'N']
    | .infinite negative => signed negative ['i', 'n', 'f']
    | .finite negative 0 _ _ => signed negative ['0']
    | .finite negative m e edge =>
      signed negative ((Interval.ofBinary m e edge).shortest .up).trimmed.plain

/-- The shortest decimal that reads back, always with a fraction or an exponent; the
exponent is written below `10 ^ -5` and from `10 ^ 16` on. Only finite numbers
have one. -/
def compactText? (x : Float) : Option String :=
  match Binary.ofFloat x with
  | .notANumber | .infinite _ => none
  | .finite negative 0 _ _ => some (String.ofList (signed negative ['0', '.', '0']))
  | .finite negative m e edge =>
    let s := ((Interval.ofBinary m e edge).shortest .toEven).trimmed
    let text :=
      if -5 < s.pointAt && s.pointAt ≤ 16 then
        match s.positional with
        | (whole, []) => whole ++ ['.', '0']
        | (whole, fraction) => whole ++ '.' :: fraction
      else s.scientific
    some (String.ofList (signed negative text))

end BoardMill.Decimal
