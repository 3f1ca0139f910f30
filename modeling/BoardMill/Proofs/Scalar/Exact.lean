import BoardMill.Numeral
import BoardMill.Proofs.Scalar.Order
import Mathlib.Algebra.Order.Floor.Ring
import Mathlib.Data.Sign.Basic
import Mathlib.Tactic.Linarith
import Mathlib.Tactic.NormNum

/-! # Exact numbers

The drawing plane in exact arithmetic: the numbers of an ordered field, and the three
results that arithmetic needs besides, two infinities and what is not a number. Nothing is
ever rounded. The functions that lead out of the rational numbers, and the written forms of
numbers, are left open.
-/

namespace BoardMill

structure Point.Finite {α : Type} [Scalar α] (p : Point α) : Prop where
  x : Scalar.isFinite p.x = true
  y : Scalar.isFinite p.y = true

/-- A number of a field, one of the infinities, or no number. -/
inductive Exact (K : Type) where
  | number (x : K)
  | above
  | below
  | undefined
  deriving DecidableEq, Repr

/-- What exact arithmetic leaves open: the functions that lead out of the rational numbers,
and how numbers are written. -/
class Analytic (K : Type) where
  sqrt : K → K
  sin : K → K
  cos : K → K
  angle : K → K → K
  pi : K
  fixed : Nat → K → String
  plain : K → String

namespace Exact

variable {K : Type} [Field K] [LinearOrder K] [FloorRing K] [Analytic K]

/-- The sign of a number, zero for what is none. -/
def sign : Exact K → SignType
  | number x => SignType.sign x
  | above => 1
  | below => -1
  | undefined => 0

def ofSign : SignType → Exact K
  | 1 => above
  | -1 => below
  | 0 => undefined

protected def neg : Exact K → Exact K
  | number x => number (-x)
  | above => below
  | below => above
  | undefined => undefined

protected def add : Exact K → Exact K → Exact K
  | number x, number y => number (x + y)
  | undefined, _ | _, undefined | above, below | below, above => undefined
  | above, _ | _, above => above
  | below, _ | _, below => below

protected def mul : Exact K → Exact K → Exact K
  | number x, number y => number (x * y)
  | undefined, _ | _, undefined => undefined
  | a, b => ofSign (a.sign * b.sign)

/-- Zero counts as positive in a divisor. -/
protected def div : Exact K → Exact K → Exact K
  | number x, number y => if y = 0 then ofSign (SignType.sign x) else number (x / y)
  | above, number y => if 0 ≤ y then above else below
  | below, number y => if 0 ≤ y then below else above
  | number _, above | number _, below => number 0
  | _, _ => undefined

/-- Whether the order holds. What is not a number is not in order with anything. -/
protected def ble : Exact K → Exact K → Bool
  | undefined, _ | _, undefined => false
  | below, _ | _, above => true
  | number x, number y => decide (x ≤ y)
  | above, _ | _, below => false

/-- The integer part, rounded toward zero. -/
def truncate (x : K) : Int := if 0 ≤ x then ⌊x⌋ else ⌈x⌉

/-- A function on numbers that leaves infinities as they are. -/
def onNumber (f : K → K) : Exact K → Exact K
  | number x => number (f x)
  | a => a

/-- A function on numbers that does not go beyond them. -/
def onlyNumber (f : K → K) : Exact K → Exact K
  | number x => number (f x)
  | _ => undefined

protected def abs : Exact K → Exact K
  | number x => number |x|
  | below => above
  | a => a

protected def sqrt : Exact K → Exact K
  | number x => if x < 0 then undefined else number (Analytic.sqrt x)
  | above => above
  | _ => undefined

protected def angle : Exact K → Exact K → Exact K
  | number y, number x => number (Analytic.angle y x)
  | _, _ => undefined

protected def remainder : Exact K → Exact K → Exact K
  | number x, number y => if y = 0 then undefined else number (x - y * truncate (x / y))
  | number x, above | number x, below => number x
  | _, _ => undefined

/-- Half a unit away from zero, and then toward zero. -/
def roundNumber (x : K) : K := if 0 ≤ x then ⌊x + 1 / 2⌋ else ⌈x - 1 / 2⌉

protected def toNat : Exact K → Nat
  | number x => Nat.min ⌊x⌋.toNat (2 ^ 64 - 1)
  | above => 2 ^ 64 - 1
  | _ => 0

protected def toInt : Exact K → Int
  | number x => max (-2 ^ 31) (min (truncate x) (2 ^ 31 - 1))
  | above => 2 ^ 31 - 1
  | below => -2 ^ 31
  | undefined => 0

instance : Scalar (Exact K) where
  add := Exact.add
  sub a b := a.add b.neg
  mul := Exact.mul
  div := Exact.div
  neg := Exact.neg
  lt a b := (a.ble b && !b.ble a) = true
  le a b := a.ble b = true
  beq a b := a.ble b && b.ble a
  ofScientific mantissa negative exponent :=
    number (OfScientific.ofScientific mantissa negative exponent)
  decLt a b := inferInstanceAs (Decidable ((a.ble b && !b.ble a) = true))
  decLe a b := inferInstanceAs (Decidable (a.ble b = true))
  abs := Exact.abs
  sqrt := Exact.sqrt
  sin := onlyNumber Analytic.sin
  cos := onlyNumber Analytic.cos
  angle := Exact.angle
  remainder := Exact.remainder
  ceil := onNumber fun x => ⌈x⌉
  round := onNumber roundNumber
  single := id
  pi := number Analytic.pi
  infinity := above
  isFinite
    | number _ => true
    | _ => false
  toNat := Exact.toNat
  toInt := Exact.toInt

instance : Numeral (Exact K) where
  fixed places
    | number x => Analytic.fixed places x
    | above => "inf"
    | below => "-inf"
    | undefined => "NaN"
  plain
    | number x => Analytic.plain x
    | above => "inf"
    | below => "-inf"
    | undefined => "NaN"

/-! ## Order -/

theorem le_iff {a b : Exact K} : a ≤ b ↔ a.ble b = true := Iff.rfl

theorem isNaN_eq (a : Exact K) : Scalar.isNaN a = !a.ble a :=
  congrArg not (Bool.and_self _)

theorem ne_undefined_of_le {a b : Exact K} (h : a ≤ b) : a ≠ undefined ∧ b ≠ undefined := by
  rw [le_iff] at h
  constructor
  · rintro rfl
    cases h
  · rintro rfl
    cases a <;> cases h

theorem isNaN_eq_false_iff {a : Exact K} : Scalar.isNaN a = false ↔ a ≠ undefined := by
  rw [isNaN_eq]
  cases a <;> simp [Exact.ble]

@[simp] theorem number_le_number {x y : K} : (number x : Exact K) ≤ number y ↔ x ≤ y :=
  decide_eq_true_iff

instance : OrderedScalar (Exact K) where
  le_total a b ha hb := by
    rw [isNaN_eq_false_iff] at ha hb
    cases a <;> cases b <;> simp_all [le_iff, Exact.ble, le_total]
  le_trans a b c hab hbc := by
    cases a <;> cases b <;> cases c <;> simp_all [le_iff, Exact.ble]
    exact hab.trans hbc
  lt_iff a b := by
    change (a.ble b && !b.ble a) = true ↔ _
    simp [le_iff]
  isNaN_left a b h := isNaN_eq_false_iff.mpr (ne_undefined_of_le h).1
  isNaN_right a b h := isNaN_eq_false_iff.mpr (ne_undefined_of_le h).2
  isNaN_infinity := rfl
  isNaN_neg_infinity := rfl
  le_infinity a h := by
    rw [isNaN_eq_false_iff] at h
    cases a <;> first | exact absurd rfl h | rfl
  neg_infinity_le a h := by
    rw [isNaN_eq_false_iff] at h
    cases a <;> first | exact absurd rfl h | rfl

/-! ## Arithmetic -/

@[simp] theorem number_add (x y : K) : (number x + number y : Exact K) = number (x + y) := rfl

@[simp] theorem number_mul (x y : K) : (number x * number y : Exact K) = number (x * y) := rfl

@[simp] theorem neg_number (x : K) : (-number x : Exact K) = number (-x) := rfl

@[simp] theorem number_sub (x y : K) : (number x - number y : Exact K) = number (x - y) := by
  change number (x + -y) = _
  rw [sub_eq_add_neg]

theorem number_div {x y : K} (hy : y ≠ 0) : (number x / number y : Exact K) = number (x / y) :=
  if_neg hy

@[simp] theorem zero_eq : (0.0 : Exact K) = number 0 := by
  change number (0.0 : K) = _
  norm_num

@[simp] theorem one_eq : (1.0 : Exact K) = number 1 := by
  change number (1.0 : K) = _
  norm_num

@[simp] theorem two_eq : (2.0 : Exact K) = number 2 := by
  change number (2.0 : K) = _
  norm_num

@[simp] theorem ten_eq : (10.0 : Exact K) = number 10 := by
  change number (10.0 : K) = _
  norm_num

/-! ## Finite numbers -/

theorem exists_number {a : Exact K} (h : Scalar.isFinite a = true) : ∃ x, a = number x := by
  cases a with
  | number x => exact ⟨x, rfl⟩
  | above => cases h
  | below => cases h
  | undefined => cases h

def Nonneg (a : Exact K) : Prop := ∃ x, 0 ≤ x ∧ a = number x

theorem nonneg_zero : Nonneg (0.0 : Exact K) := ⟨0, le_rfl, zero_eq⟩

theorem nonneg_of_le {a : Exact K} (hfinite : Scalar.isFinite a = true) (h : 0.0 ≤ a) :
    Nonneg a := by
  obtain ⟨x, rfl⟩ := exists_number hfinite
  rw [zero_eq, number_le_number] at h
  exact ⟨x, h, rfl⟩

variable [IsStrictOrderedRing K]

/-- The distance from a lower bound is not negative, also from an infinite one. -/
theorem zero_le_sub {a : Exact K} {x : K} (h : a ≤ number x) : 0.0 ≤ number x - a := by
  rw [zero_eq]
  cases a with
  | number y =>
      rw [number_le_number] at h
      rw [number_sub, number_le_number]
      exact sub_nonneg.mpr h
  | below => rfl
  | above => cases h
  | undefined => cases h

/-- The distance from a lower bound is at most that of an upper bound from it. -/
theorem sub_le_sub {a b : Exact K} {x : K} (ha : a ≤ number x) (hb : number x ≤ b) :
    number x - a ≤ b - a := by
  -- With an infinite bound on either side both distances are infinite or the second one is.
  cases a with
  | number y =>
      cases b with
      | number z =>
          rw [number_le_number] at hb
          rw [number_sub, number_sub, number_le_number]
          exact sub_le_sub_right hb y
      | above => rfl
      | below => cases hb
      | undefined => cases hb
  | below =>
      cases b with
      | number z => rfl
      | above => rfl
      | below => cases hb
      | undefined => cases hb
  | above => cases ha
  | undefined => cases ha

end Exact

end BoardMill
