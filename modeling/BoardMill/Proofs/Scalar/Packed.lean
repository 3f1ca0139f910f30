import BoardMill.Proofs.Scalar.IntegerPart
import Mathlib

/-! # Packed doubles

A double is known by its sign, its mantissa and its exponent. A mantissa that is canonical comes
back from its bits unchanged if the exponent fits, and is infinite otherwise. The greatest exponent
is 971.
-/

namespace BoardMill.Double

open Float.Model (UnpackedFloat)
open Float.Model.UnpackedFloat (Sign packComponents unpackMantissa unpackExponent
  unpackMantissa_packComponents unpackExponent_packComponents unpackSign_packComponents)

/-- The double of a number that is packed. -/
def ofUnpacked (u : UnpackedFloat) : Float := ⟨.pack u⟩

theorem value_injective : Function.Injective value := by
  intro a b h
  have hbits := (UnpackedFloat.unpack_inj_of_valid a.toModel.valid b.toModel.valid).mp h
  exact Float.toBits_inj.mp (UInt64.toBitVec_inj.mp hbits)

theorem exponent_le_of_value {a : Float} {s : Sign} {m : Nat} {e : Int} {hm : 0 < m}
    (h : value a = .finite s m e hm) : e ≤ 971 := by
  let mantissa := @unpackMantissa .binary64 a.toModel.toBits.toBitVec
  let exponent := @unpackExponent .binary64 a.toModel.toBits.toBitVec
  unfold value Float.Model.unpack UnpackedFloat.unpack at h
  dsimp only at h
  by_cases hspecial : exponent = -1#11
  · rw [if_pos hspecial] at h
    split at h
    all_goals cases h
  · have hbelow : exponent.toNat < 2047 := by
      have hne : exponent.toNat ≠ 2047 := fun heq => hspecial (BitVec.eq_of_toNat_eq heq)
      have hlt : exponent.toNat < 2 ^ 11 := exponent.isLt
      omega
    rw [if_neg hspecial] at h
    by_cases hleast : exponent = 0#11
    · rw [if_pos hleast] at h
      split at h
      · cases h
      · cases h
        have hexponent : (exponent.toNat : Int) - (1023 + 52) + 1 = -1074 := by
          rw [hleast]
          rfl
        exact hexponent.le.trans (by decide)
    · rw [if_neg hleast] at h
      cases h
      change (exponent.toNat : Int) - (1023 + 52) ≤ 971
      omega

/-! ## What is packed -/

theorem unpack_packComponents (s : Sign) (e : BitVec 11) (m : BitVec 52) :
    UnpackedFloat.unpack .binary64 (packComponents .binary64 s e m) =
      if e = -1#11 then if m = 0#52 then .infinity s else .notANumber
      else if e = 0#11 then
        if h : m = 0#52 then .zero s
        else .finite s m.toNat ((e.toNat : Int) - 1075 + 1)
          (Nat.pos_of_ne_zero fun hzero => h (BitVec.eq_of_toNat_eq hzero))
      else .finite s (2 ^ 52 + m.toNat) ((e.toNat : Int) - 1075) (by omega) := by
  have hfull : (1#1 ++ m).toNat = 2 ^ 52 + m.toNat := by
    rw [BitVec.toNat_append, ← Nat.shiftLeft_add_eq_or_of_lt m.isLt]
    rfl
  unfold UnpackedFloat.unpack
  simp only [unpackMantissa_packComponents, unpackExponent_packComponents,
    unpackSign_packComponents, Sign.ofBitVec_toBitVec, hfull]
  rfl

theorem value_ofUnpacked_infinity (s : Sign) : value (ofUnpacked (.infinity s)) = .infinity s := by
  cases s <;> rfl

theorem value_ofUnpacked_zero (s : Sign) : value (ofUnpacked (.zero s)) = .zero s := by
  cases s <;> rfl

/-- A canonical mantissa comes back from its bits, if its exponent fits. -/
theorem value_ofUnpacked_finite {s : Sign} {m : Nat} {e : Int} {hm : 0 < m} (h : Canonical m e)
    (he : e ≤ 971) : value (ofUnpacked (.finite s m e hm)) = .finite s m e hm := by
  have hleast := h.least
  have hbounded := h.bounded
  obtain ⟨b, hb⟩ : ∃ b : Nat, e + 1075 = b := ⟨(e + 1075).toNat, by omega⟩
  have hpacked : UnpackedFloat.pack .binary64 (.finite s m e hm) =
      if 2 ^ 11 ≤ b + 1 then UnpackedFloat.packedInfinity .binary64 s
      else if m.log2 + 1 = 53 then
        packComponents .binary64 s (BitVec.ofNat 11 b) (BitVec.ofNat 52 m)
      else packComponents .binary64 s 0#11 (BitVec.ofNat 52 m) := by
    have hbiased : (e + (1023 : Nat) + (52 : Nat)).toNat = b := by omega
    rw [← hbiased]
    rfl
  change UnpackedFloat.unpack .binary64 (UnpackedFloat.pack .binary64 (.finite s m e hm)) = _
  rw [hpacked, if_neg (by omega)]
  -- A full mantissa is packed without its first bit, any other one with an exponent of zero.
  by_cases hfull : 2 ^ 52 ≤ m
  · have hlog : m.log2 + 1 = 53 := by
      have hle := (Nat.le_log2 hm.ne').mpr hfull
      have hlt := (Nat.log2_lt hm.ne').mpr hbounded
      omega
    have hexponent : (BitVec.ofNat 11 b).toNat = b := by
      rw [BitVec.toNat_ofNat, Nat.mod_eq_of_lt (by omega)]
    have hmantissa : 2 ^ 52 + (BitVec.ofNat 52 m).toNat = m := by
      rw [BitVec.toNat_ofNat]
      omega
    rw [if_pos hlog, unpack_packComponents, if_neg, if_neg]
    · simp only [hexponent, hmantissa, UnpackedFloat.finite.injEq, true_and]
      omega
    · intro hzero
      rw [hzero] at hexponent
      change 0 = b at hexponent
      omega
    · intro hones
      rw [hones] at hexponent
      change 2047 = b at hexponent
      omega
  · have hexponent : e = -1074 := h.full.resolve_right hfull
    have hlog : ¬ m.log2 + 1 = 53 := by
      have hlt := (Nat.log2_lt hm.ne').mpr (not_le.mp hfull)
      omega
    have hmantissa : (BitVec.ofNat 52 m).toNat = m := by
      rw [BitVec.toNat_ofNat, Nat.mod_eq_of_lt (not_le.mp hfull)]
    rw [if_neg hlog, unpack_packComponents, if_neg (by decide), if_pos rfl, dif_neg]
    · simp only [hmantissa, UnpackedFloat.finite.injEq, true_and]
      exact hexponent.symm
    · intro hzero
      rw [hzero] at hmantissa
      exact hm.ne hmantissa

theorem value_ofUnpacked_overflow {s : Sign} {m : Nat} {e : Int} {hm : 0 < m} (he : 971 < e) :
    value (ofUnpacked (.finite s m e hm)) = .infinity s := by
  have hbiased : 2 ^ 11 ≤ (e + (1023 : Nat) + (52 : Nat)).toNat + 1 := by omega
  have hpacked : UnpackedFloat.pack .binary64 (.finite s m e hm) =
      UnpackedFloat.packedInfinity .binary64 s := if_pos hbiased
  change UnpackedFloat.unpack .binary64 (UnpackedFloat.pack .binary64 (.finite s m e hm)) = _
  rw [hpacked]
  cases s <;> rfl

/-! ## Changes of sign -/

theorem value_neg (a : Float) : value (-a) = (value a).neg := by
  change value (ofUnpacked (value a).neg) = _
  cases h : value a with
  | infinity s => exact value_ofUnpacked_infinity _
  | notANumber => rfl
  | zero s => exact value_ofUnpacked_zero _
  | finite s m e hm =>
      exact value_ofUnpacked_finite (canonical_of_value h) (exponent_le_of_value h)

theorem isFinite_eq (a : Float) : Scalar.isFinite a = (value a).isFinite := rfl

theorem isFinite_neg (a : Float) : Scalar.isFinite (-a) = Scalar.isFinite a := by
  rw [isFinite_eq, isFinite_eq, value_neg]
  cases value a <;> rfl

end BoardMill.Double
