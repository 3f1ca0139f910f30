import BoardMill.Scalar

/-! # Binary floating-point numbers as integers

A finite double is an integer times a power of two. `Binary.ofFloat` reads that
integer and that power off the bits, and everything that must be exact about a
double (its decimal digits, a remainder) is computed on them.
-/

namespace BoardMill

/-- What the bits of a double stand for. -/
inductive Binary where
  | notANumber
  | infinite (negative : Bool)
  /-- The number `mantissa · 2 ^ exponent`, with a sign even at zero. `edge` holds
  where the next number below is only half as far as the next one above. -/
  | finite (negative : Bool) (mantissa : Nat) (exponent : Int) (edge : Bool)
  deriving BEq, Repr

namespace Binary

/-- The sign, the exponent and the mantissa of a double. -/
def ofFloat (x : Float) : Binary :=
  let bits := x.toBits.toNat
  let negative := bits >>> 63 == 1
  let field := bits >>> 52 % Nat.pow 2 11
  let fraction := bits % Nat.pow 2 52
  if field == 2047 then
    if fraction == 0 then infinite negative else notANumber
  else if field == 0 then
    finite negative fraction (-1074) false
  else
    finite negative (Nat.pow 2 52 + fraction) (Int.ofNat field - 1075) (fraction == 0 && 1 < field)

/-- A quotient of natural numbers equal to `mantissa · 2 ^ exponent`. -/
def ratio (mantissa : Nat) (exponent : Int) : Nat × Nat :=
  if exponent < 0 then (mantissa, Nat.pow 2 exponent.natAbs) else (mantissa <<< exponent.natAbs, 1)

/-- Remainder of a division rounded toward zero, which a double holds exactly. The
sign is that of the dividend. -/
def remainder (x y : Float) : Float :=
  match ofFloat x, ofFloat y with
  | finite negative m e _, finite _ n f _ =>
    if n == 0 then 0.0 / 0.0
    else
      let base := if e ≤ f then e else f
      let rest := m <<< (e - base).natAbs % (n <<< (f - base).natAbs)
      let value := Float.scaleB (Float.ofNat rest) base
      if negative then -value else value
  | finite .., infinite _ => x
  | _, _ => 0.0 / 0.0

end Binary

instance : Scalar Float where
  decLt := fun a b => inferInstanceAs (Decidable (a < b))
  decLe := fun a b => inferInstanceAs (Decidable (a ≤ b))
  abs := Float.abs
  sqrt := Float.sqrt
  sin := Float.sin
  cos := Float.cos
  angle := Float.atan2
  remainder := Binary.remainder
  ceil := Float.ceil
  round := Float.round
  single := fun x => x.toFloat32.toFloat
  pi := 3.141592653589793
  infinity := 1.0 / 0.0
  isFinite := Float.isFinite
  toNat := fun x => x.toUInt64.toNat
  toInt := fun x => x.toInt32.toInt

end BoardMill
