import BoardMill.Proofs.Scalar.Angle

/-! # Exact numbers with signed zeros

A double tells two zeros apart. They are equal in the order of numbers, and differ where a sign
is read: a quotient by zero, and the direction of a vector along the first axis. Here exact
arithmetic has both of them, with the signs that floating-point arithmetic gives. The sign is
that of a zero alone: other numbers carry it in their value.
-/

namespace BoardMill

/-- An exact number, or the zero with a minus sign. -/
inductive Signed (K : Type) where
  | plain (value : Exact K)
  | minusZero
  deriving Repr

namespace Signed

section

variable {K : Type} [Field K] [LinearOrder K] [FloorRing K] [Analytic K]

/-- The number apart from the sign of zero. -/
def value : Signed K → Exact K
  | plain v => v
  | minusZero => .number 0

/-- Whether the sign is minus. What is not a number has a plus sign. -/
def isMinus : Signed K → Bool
  | plain v => v.sign == -1
  | minusZero => true

/-- The zero of a sign. -/
def zero : Bool → Signed K
  | true => minusZero
  | false => plain (.number 0)

/-- A number that takes a sign if it is zero. -/
def withZero (minus : Bool) (v : Exact K) : Signed K :=
  if v = .number 0 then zero minus else plain v

protected def neg (a : Signed K) : Signed K := withZero (!a.isMinus) (-a.value)

/-- A sum that is zero is negative only if both terms are. -/
protected def add (a b : Signed K) : Signed K :=
  withZero (a.isMinus && b.isMinus) (a.value + b.value)

protected def mul (a b : Signed K) : Signed K :=
  withZero (a.isMinus ^^ b.isMinus) (a.value * b.value)

protected def div (a b : Signed K) : Signed K :=
  match b with
  | plain b => withZero (a.isMinus ^^ isMinus (plain b)) (a.value / b)
  | minusZero => plain (-(a.value / .number 0))

/-- The direction of a vector along the first axis is told by the signs: that of the first
coordinate where it points, that of the second one from which side angles get there. -/
protected def angle (y x : Signed K) : Signed K :=
  if y.value = .number 0 ∧ x.value ≠ .undefined then
    if x.isMinus then plain (.number (if y.isMinus then -Analytic.pi else Analytic.pi)) else y
  else plain (Scalar.angle y.value x.value)

instance : Scalar (Signed K) where
  add := Signed.add
  sub a b := a.add b.neg
  mul := Signed.mul
  div := Signed.div
  neg := Signed.neg
  lt a b := a.value < b.value
  le a b := a.value ≤ b.value
  beq a b := a.value == b.value
  ofScientific mantissa negative exponent :=
    plain (OfScientific.ofScientific mantissa negative exponent)
  decLt a b := inferInstanceAs (Decidable (a.value < b.value))
  decLe a b := inferInstanceAs (Decidable (a.value ≤ b.value))
  abs a := plain (Scalar.abs a.value)
  sqrt a := withZero a.isMinus (Scalar.sqrt a.value)
  sin a := withZero a.isMinus (Scalar.sin a.value)
  cos a := plain (Scalar.cos a.value)
  angle := Signed.angle
  remainder a b := withZero a.isMinus (Scalar.remainder a.value b.value)
  ceil a := withZero a.isMinus (Scalar.ceil a.value)
  round a := withZero a.isMinus (Scalar.round a.value)
  single := id
  pi := plain Scalar.pi
  infinity := plain Scalar.infinity
  isFinite a := Scalar.isFinite a.value
  toNat a := Scalar.toNat a.value
  toInt a := Scalar.toInt a.value

/-! ## Values -/

variable (a b : Signed K)

omit [LinearOrder K] [FloorRing K] [Analytic K] in
@[simp] theorem value_zero (minus : Bool) : (zero minus : Signed K).value = .number 0 := by
  cases minus <;> rfl

omit [FloorRing K] [Analytic K] in
@[simp] theorem value_withZero (minus : Bool) (v : Exact K) : (withZero minus v).value = v := by
  unfold withZero
  split
  next h => rw [value_zero, h]
  next => rfl

@[simp] theorem value_neg : (-a).value = -a.value := value_withZero _ _

@[simp] theorem value_add : (a + b).value = a.value + b.value := value_withZero _ _

@[simp] theorem value_sub : (a - b).value = a.value - b.value := by
  change (a + -b).value = _
  rw [value_add, value_neg]
  rfl

@[simp] theorem value_mul : (a * b).value = a.value * b.value := value_withZero _ _

@[simp] theorem value_sqrt : (Scalar.sqrt a).value = Scalar.sqrt a.value := value_withZero _ _

variable {a b}

theorem le_iff : a ≤ b ↔ a.value ≤ b.value := Iff.rfl

theorem lt_iff : a < b ↔ a.value < b.value := Iff.rfl

omit [FloorRing K] [Analytic K] in
theorem isMinus_zero (minus : Bool) : (zero minus : Signed K).isMinus = minus := by
  cases minus with
  | true => rfl
  | false =>
      change (SignType.sign (0 : K) == -1) = false
      rw [sign_zero]
      rfl

omit [FloorRing K] [Analytic K] in
theorem zero_injective : Function.Injective (zero : Bool → Signed K) := fun m n h => by
  rw [← isMinus_zero (K := K) m, h, isMinus_zero]

omit [FloorRing K] [Analytic K] in
theorem eq_zero_of_value (h : a.value = .number 0) : a = zero a.isMinus := by
  cases a with
  | minusZero => rfl
  | plain v =>
      obtain rfl : v = .number 0 := h
      exact congrArg zero (isMinus_zero false).symm

theorem neg_zero (minus : Bool) : (-zero minus : Signed K) = zero (!minus) := by
  change withZero (!(zero minus).isMinus) (-(zero minus).value) = _
  rw [isMinus_zero, value_zero, Exact.neg_number, neg_eq_zero.mpr rfl]
  exact if_pos rfl

/-- A difference of zeros is the negative one only if it is that of different zeros, the negative
one first. -/
theorem zero_sub_zero (m n : Bool) : (zero m - zero n : Signed K) = zero (m && !n) := by
  change Signed.add (zero m) (-zero n) = _
  rw [neg_zero, Signed.add, isMinus_zero, isMinus_zero, value_zero, value_zero, Exact.number_add,
    add_zero]
  exact if_pos rfl

omit [FloorRing K] [Analytic K] in
/-- A number other than zero has its own sign. -/
theorem isMinus_iff {u : K} (h : a.value = .number u) (hu : u ≠ 0) : a.isMinus = true ↔ u < 0 := by
  cases a with
  | minusZero =>
      cases h
      exact absurd rfl hu
  | plain v =>
      obtain rfl : v = .number u := h
      change (SignType.sign u == -1) = true ↔ _
      rw [beq_iff_eq, sign_eq_neg_one_iff]

end

/-! ## Directions -/

/-- An angle is a direction of a vector, with the plain coordinates of a point of the plane: up
to turns it is that of the point, and the signs of zeros tell on which side of the negative half
axis it lies. -/
structure IsDirection (y x : Signed ℝ) (z : ℂ) (angle : ℝ) : Prop where
  mem : angle ∈ Set.Icc (-Real.pi) Real.pi
  eq_pi_iff : angle = Real.pi ↔ y = zero false ∧ x.isMinus = true
  eq_neg_pi_iff : angle = -Real.pi ↔ y = zero true ∧ x.isMinus = true
  arg : z ≠ 0 → ∃ n : ℤ, angle = Complex.arg z + n * (2 * Real.pi)

variable {x : Signed ℝ}

/-- Along the positive half axis both zeros tell the same direction. -/
theorem isDirection_right (minus : Bool) {u : ℝ} (hx : x.value = .number u)
    (hsign : x.isMinus = false) : IsDirection (zero minus) x u 0 where
  mem := ⟨neg_nonpos.mpr Real.pi_pos.le, Real.pi_pos.le⟩
  eq_pi_iff := by simp [hsign, Real.pi_pos.ne]
  eq_neg_pi_iff := by simp [hsign, Real.pi_pos.ne']
  arg hz := by
    have hright : 0 ≤ u := by
      rw [← not_lt, ← isMinus_iff hx (Complex.ofReal_ne_zero.mp hz), hsign]
      exact Bool.false_ne_true
    exact ⟨0, by rw [Complex.arg_ofReal_of_nonneg hright]; simp⟩

/-- Along the negative half axis the two zeros tell directions that are a turn apart. -/
theorem isDirection_left (minus : Bool) {u : ℝ} (hx : x.value = .number u)
    (hsign : x.isMinus = true) :
    IsDirection (zero minus) x u (if minus then -Real.pi else Real.pi) where
  mem := by
    have hpi := Real.pi_pos
    split <;> constructor <;> linarith
  eq_pi_iff := by
    cases minus <;> simp [hsign, zero_injective.eq_iff, Real.pi_pos.ne', neg_eq_self]
  eq_neg_pi_iff := by
    cases minus <;> simp [hsign, zero_injective.eq_iff, Real.pi_pos.ne', self_eq_neg]
  arg hz := by
    have hleft : u < 0 := (isMinus_iff hx (Complex.ofReal_ne_zero.mp hz)).mp hsign
    rw [Complex.arg_ofReal_of_neg hleft]
    cases minus with
    | true => exact ⟨-1, by push_cast; rw [if_pos rfl]; ring⟩
    | false => exact ⟨0, by simp⟩

/-- Off the first axis directions are those of plain numbers. -/
theorem isDirection_arg {y : Signed ℝ} {z : ℂ} (hy : y.value = .number z.im) (hz : z.im ≠ 0) :
    IsDirection y x z (Complex.arg z) where
  mem := ⟨(Complex.neg_pi_lt_arg z).le, Complex.arg_le_pi z⟩
  eq_pi_iff := by
    constructor
    · intro h
      exact absurd (Complex.arg_eq_pi_iff.mp h).2 hz
    · rintro ⟨rfl, -⟩
      exact absurd (Exact.number.inj hy).symm hz
  eq_neg_pi_iff := by
    constructor
    · intro h
      exact absurd h (Complex.neg_pi_lt_arg z).ne'
    · rintro ⟨rfl, -⟩
      exact absurd (Exact.number.inj hy).symm hz
  arg _ := ⟨0, by simp⟩

theorem exists_isDirection [Analytic ℝ] {tolerance : ℝ}
    (haccurate : Analytic.Accurate tolerance) {y : Signed ℝ} {z : ℂ}
    (hx : x.value = .number z.re) (hy : y.value = .number z.im) :
    ∃ angle, (Scalar.angle y x).value = .number angle ∧ IsDirection y x z angle := by
  rcases eq_or_ne z.im 0 with hz | hz
  · rw [hz] at hy
    have hzero : y = zero y.isMinus := eq_zero_of_value hy
    have hreal : z = (z.re : ℂ) := Complex.ext rfl hz
    have hangle : Scalar.angle y x =
        if x.isMinus then plain (.number (if y.isMinus then -Analytic.pi else Analytic.pi))
        else y :=
      if_pos ⟨hy, hx ▸ nofun⟩
    rw [haccurate.pi] at hangle
    cases hsign : x.isMinus with
    | true =>
        refine ⟨if y.isMinus then -Real.pi else Real.pi, by rw [hangle, hsign]; rfl, ?_⟩
        have hleft := isDirection_left y.isMinus hx hsign
        rwa [← hzero, ← hreal] at hleft
    | false =>
        refine ⟨0, by rw [hangle, hsign]; exact hy, ?_⟩
        have hright := isDirection_right y.isMinus hx hsign
        rwa [← hzero, ← hreal] at hright
  · have hoff : ¬ (y.value = .number 0 ∧ x.value ≠ .undefined) := fun h =>
      hz (Exact.number.inj (hy.symm.trans h.1))
    have hangle : (Scalar.angle y x).value = .number (Analytic.angle z.im z.re) := by
      change (Signed.angle y x).value = _
      rw [Signed.angle, if_neg hoff]
      change Exact.angle y.value x.value = _
      rw [hx, hy]
      rfl
    exact ⟨Complex.arg z, by rw [hangle, haccurate.angle], isDirection_arg hy hz⟩

end Signed

end BoardMill
