import BoardMill.Text.Utf8
import Mathlib.Data.List.Basic

/-! # Reading back encoded text

The bytes of a text are read back as that text, and a byte sequence that was cut off
inside a character is read up to that character: what is left never looks like a
character of its own. Any byte sequence is the bytes of a text up to where no character
begins.
-/

namespace BoardMill.Utf8

/-! ## The characters of code points -/

theorem char?_toNat (c : Char) {low high : Nat} (hlow : low ≤ c.toNat) (hhigh : c.toNat ≤ high) :
    char? low high c.toNat = some c := by
  have hvalid : c.toNat < 0xD800 ∨ 0xDFFF < c.toNat ∧ c.toNat < 0x110000 := c.valid
  rw [char?, if_pos ⟨hlow, hhigh, by omega⟩, Char.ofNat_toNat]

theorem toNat_le (c : Char) : c.toNat ≤ 0x10FFFF := by
  have hvalid : c.toNat < 0xD800 ∨ 0xDFFF < c.toNat ∧ c.toNat < 0x110000 := c.valid
  omega

theorem toNat_ofNat_of_lt {n : Nat} (h : n < 0x100) : (UInt8.ofNat n).toNat = n :=
  UInt8.toNat_ofNat_of_lt' h

theorem tail?_ofNat (n k : Nat) : tail? (UInt8.ofNat (0x80 + n / k % 0x40)) = some (n / k % 0x40) := by
  have hlt : n / k % 0x40 < 0x40 := Nat.mod_lt _ (by decide)
  have hnat := toNat_ofNat_of_lt (n := 0x80 + n / k % 0x40) (by omega)
  have hbounds : 0x80 ≤ UInt8.ofNat (0x80 + n / k % 0x40) ∧
      UInt8.ofNat (0x80 + n / k % 0x40) ≤ 0xBF := by
    simp only [UInt8.le_iff_toNat_le, hnat]
    exact ⟨Nat.le_add_right _ _, by change _ ≤ 0xBF; omega⟩
  rw [tail?, if_pos hbounds, hnat, Nat.add_sub_cancel_left]

/-! ## Leading bytes -/

theorem two?_eq_none {a : UInt8} (h : 0xE0 ≤ a.toNat) (b : UInt8) : two? a b = none := by
  have hhigh : ¬ (0xC0 ≤ a ∧ a ≤ 0xDF) := by
    simp only [UInt8.le_iff_toNat_le, not_and]
    exact fun _ => by change ¬ a.toNat ≤ 0xDF; omega
  rw [two?, if_neg hhigh]

theorem three?_eq_none {a : UInt8} (h : 0xF0 ≤ a.toNat) (b c : UInt8) : three? a b c = none := by
  have hhigh : ¬ (0xE0 ≤ a ∧ a ≤ 0xEF) := by
    simp only [UInt8.le_iff_toNat_le, not_and]
    exact fun _ => by change ¬ a.toNat ≤ 0xEF; omega
  rw [three?, if_neg hhigh]

theorem not_lt_of_le {a : UInt8} (h : 0x80 ≤ a.toNat) : ¬ a < 0x80 := by
  rw [UInt8.lt_iff_toNat_lt]
  change ¬ a.toNat < 0x80
  omega

/-! ## The bytes of one character -/

/-- How the bytes of a character are read: it is found behind them, and not before the
last of them. -/
structure Reads (bytes : List UInt8) (c : Char) : Prop where
  first?_append : ∀ rest, first? (bytes ++ rest) = some (c, rest)
  first?_take : ∀ k < bytes.length, first? (bytes.take k) = none

theorem reads_one {c : Char} (h : c.toNat < 0x80) : Reads [UInt8.ofNat c.toNat] c where
  first?_append rest := by
    have hnat := toNat_ofNat_of_lt (n := c.toNat) (by omega)
    have hsmall : UInt8.ofNat c.toNat < 0x80 := by
      rw [UInt8.lt_iff_toNat_lt, hnat]
      exact h
    simp [first?, hsmall, hnat]
  first?_take k hk := by
    obtain rfl : k = 0 := by simpa using hk
    rfl

theorem reads_two {a b : UInt8} {c : Char} (ha : 0x80 ≤ a.toNat) (h : two? a b = some c) :
    Reads [a, b] c where
  first?_append rest := by simp [first?, not_lt_of_le ha, h]
  first?_take k hk := by
    match k, hk with
    | 0, _ => rfl
    | 1, _ => simp [first?, not_lt_of_le ha]

theorem reads_three {a b d : UInt8} {c : Char} (ha : 0xE0 ≤ a.toNat)
    (h : three? a b d = some c) : Reads [a, b, d] c where
  first?_append rest := by
    simp [first?, not_lt_of_le (Nat.le_trans (by decide) ha), two?_eq_none ha, h]
  first?_take k hk := by
    have hlarge := not_lt_of_le (Nat.le_trans (by decide) ha)
    match k, hk with
    | 0, _ => rfl
    | 1, _ => simp [first?, hlarge]
    | 2, _ => simp [first?, hlarge, two?_eq_none ha]

theorem reads_four {a b d e : UInt8} {c : Char} (ha : 0xF0 ≤ a.toNat)
    (h : four? a b d e = some c) : Reads [a, b, d, e] c where
  first?_append rest := by
    have htwo := two?_eq_none (Nat.le_trans (by decide) ha) b
    simp [first?, not_lt_of_le (Nat.le_trans (by decide) ha), htwo, three?_eq_none ha, h]
  first?_take k hk := by
    have hlarge := not_lt_of_le (Nat.le_trans (by decide) ha)
    have htwo := two?_eq_none (Nat.le_trans (by decide) ha) b
    match k, hk with
    | 0, _ => rfl
    | 1, _ => simp [first?, hlarge]
    | 2, _ => simp [first?, hlarge, htwo]
    | 3, _ => simp [first?, hlarge, htwo, three?_eq_none ha]

/-- A leading byte of a range, made of the range's first byte and the bits it carries. -/
theorem lead_between {low high : UInt8} {base n : Nat} (hlow : low.toNat ≤ base)
    (hhigh : high.toNat < 0x100) (hsum : base + n ≤ high.toNat) :
    low ≤ UInt8.ofNat (base + n) ∧ UInt8.ofNat (base + n) ≤ high := by
  have hnat := toNat_ofNat_of_lt (Nat.lt_of_le_of_lt hsum hhigh)
  rw [UInt8.le_iff_toNat_le, UInt8.le_iff_toNat_le, hnat]
  exact ⟨Nat.le_add_right_of_le hlow, hsum⟩

-- Stated for any continuation: the kernel compares the code points of the readers, large
-- numerals that they are, only if it has to unfold them.
theorem bind_tail? {β : Type} {b : UInt8} {x : Nat} (hb : tail? b = some x) (f : Nat → Option β) :
    (tail? b >>= f) = f x := by
  rw [hb]
  rfl

theorem two?_eq {a b : UInt8} {x : Nat} (ha : 0xC0 ≤ a ∧ a ≤ 0xDF) (hb : tail? b = some x) :
    two? a b = char? 0x80 0x7FF ((a.toNat - 0xC0) * 0x40 + x) := by
  rw [two?, if_pos ha, bind_tail? hb]

theorem three?_eq {a b c : UInt8} {x y : Nat} (ha : 0xE0 ≤ a ∧ a ≤ 0xEF)
    (hb : tail? b = some x) (hc : tail? c = some y) :
    three? a b c = char? 0x800 0xFFFF ((a.toNat - 0xE0) * 0x1000 + x * 0x40 + y) := by
  rw [three?, if_pos ha, bind_tail? hb, bind_tail? hc]

theorem four?_eq {a b c d : UInt8} {x y z : Nat} (ha : 0xF0 ≤ a ∧ a ≤ 0xF7)
    (hb : tail? b = some x) (hc : tail? c = some y) (hd : tail? d = some z) :
    four? a b c d =
      char? 0x10000 0x10FFFF ((a.toNat - 0xF0) * 0x40000 + x * 0x1000 + y * 0x40 + z) := by
  rw [four?, if_pos ha, bind_tail? hb, bind_tail? hc, bind_tail? hd]

theorem two?_encode {c : Char} (hlow : 0x80 ≤ c.toNat) (hhigh : c.toNat < 0x800) :
    two? (UInt8.ofNat (0xC0 + c.toNat / 0x40)) (UInt8.ofNat (0x80 + c.toNat / 1 % 0x40)) =
      some c := by
  have hlead := toNat_ofNat_of_lt (n := 0xC0 + c.toNat / 0x40) (by omega)
  have hvalue : (0xC0 + c.toNat / 0x40 - 0xC0) * 0x40 + c.toNat / 1 % 0x40 = c.toNat := by omega
  rw [two?_eq (lead_between (by decide) (by decide) (by change _ ≤ 0xDF; omega)) (tail?_ofNat _ _), hlead, hvalue]
  exact char?_toNat c hlow (by omega)

theorem three?_encode {c : Char} (hlow : 0x800 ≤ c.toNat) (hhigh : c.toNat < 0x10000) :
    three? (UInt8.ofNat (0xE0 + c.toNat / 0x1000)) (UInt8.ofNat (0x80 + c.toNat / 0x40 % 0x40))
      (UInt8.ofNat (0x80 + c.toNat / 1 % 0x40)) = some c := by
  have hlead := toNat_ofNat_of_lt (n := 0xE0 + c.toNat / 0x1000) (by omega)
  have hvalue : (0xE0 + c.toNat / 0x1000 - 0xE0) * 0x1000 + c.toNat / 0x40 % 0x40 * 0x40 +
      c.toNat / 1 % 0x40 = c.toNat := by omega
  rw [three?_eq (lead_between (by decide) (by decide) (by change _ ≤ 0xEF; omega)) (tail?_ofNat _ _)
    (tail?_ofNat _ _), hlead, hvalue]
  exact char?_toNat c hlow (by omega)

theorem four?_encode {c : Char} (hlow : 0x10000 ≤ c.toNat) :
    four? (UInt8.ofNat (0xF0 + c.toNat / 0x40000)) (UInt8.ofNat (0x80 + c.toNat / 0x1000 % 0x40))
      (UInt8.ofNat (0x80 + c.toNat / 0x40 % 0x40)) (UInt8.ofNat (0x80 + c.toNat / 1 % 0x40)) =
      some c := by
  have hmax := toNat_le c
  have hlead := toNat_ofNat_of_lt (n := 0xF0 + c.toNat / 0x40000) (by omega)
  have hvalue : (0xF0 + c.toNat / 0x40000 - 0xF0) * 0x40000 + c.toNat / 0x1000 % 0x40 * 0x1000 +
      c.toNat / 0x40 % 0x40 * 0x40 + c.toNat / 1 % 0x40 = c.toNat := by omega
  rw [four?_eq (lead_between (by decide) (by decide) (by change _ ≤ 0xF7; omega)) (tail?_ofNat _ _)
    (tail?_ofNat _ _) (tail?_ofNat _ _), hlead, hvalue]
  exact char?_toNat c hlow hmax

theorem le_lead {base n bound : Nat} (hbound : bound ≤ base) (h : base + n < 0x100) :
    bound ≤ (UInt8.ofNat (base + n)).toNat := by
  rw [toNat_ofNat_of_lt h]
  exact Nat.le_add_right_of_le hbound

/-- The bytes of a character are read as that character. -/
theorem reads_encodeChar (c : Char) : Reads (encodeChar c) c := by
  have hmax := toNat_le c
  unfold encodeChar
  dsimp only
  split
  next hone => exact reads_one hone
  split
  next hone htwo =>
    exact reads_two (le_lead (by decide) (by omega)) (two?_encode (by omega) htwo)
  split
  next hone htwo hthree =>
    exact reads_three (le_lead (by decide) (by omega)) (three?_encode (by omega) hthree)
  next hone htwo hthree =>
    exact reads_four (le_lead (by decide) (by omega)) (four?_encode (by omega))

/-- The bytes of a character that is not a small one are all large. -/
theorem le_of_mem_encodeChar {c : Char} (hc : 0x80 ≤ c.toNat) :
    ∀ b ∈ encodeChar c, 0x80 ≤ b.toNat := by
  have hmax := toNat_le c
  have htail (k : Nat) : 0x80 ≤ (UInt8.ofNat (0x80 + c.toNat / k % 0x40)).toNat :=
    le_lead (Nat.le_refl _) (by omega)
  unfold encodeChar
  dsimp only
  rw [if_neg (Nat.not_lt_of_le hc)]
  split
  next htwo =>
    have hlead : 0x80 ≤ (UInt8.ofNat (0xC0 + c.toNat / 0x40)).toNat :=
      le_lead (by decide) (by omega)
    rw [List.forall_mem_cons, List.forall_mem_singleton]
    exact ⟨hlead, htail _⟩
  split
  next htwo hthree =>
    have hlead : 0x80 ≤ (UInt8.ofNat (0xE0 + c.toNat / 0x1000)).toNat :=
      le_lead (by decide) (by omega)
    rw [List.forall_mem_cons, List.forall_mem_cons, List.forall_mem_singleton]
    exact ⟨hlead, htail _, htail _⟩
  next htwo hthree =>
    have hlead : 0x80 ≤ (UInt8.ofNat (0xF0 + c.toNat / 0x40000)).toNat :=
      le_lead (by decide) (by omega)
    rw [List.forall_mem_cons, List.forall_mem_cons, List.forall_mem_cons,
      List.forall_mem_singleton]
    exact ⟨hlead, htail _, htail _, htail _⟩

/-! ## Bytes of a character that was read -/

theorem ofNat_toNat_add {b : UInt8} {base : Nat} (h : base ≤ b.toNat) :
    UInt8.ofNat (base + (b.toNat - base)) = b := by
  rw [Nat.add_sub_cancel' h, UInt8.ofNat_toNat]

/-- The bits of a byte that continues a character. -/
theorem tail?_eq_some {b : UInt8} {x : Nat} (h : tail? b = some x) :
    x < 0x40 ∧ UInt8.ofNat (0x80 + x) = b := by
  unfold tail? at h
  split at h
  next hb =>
    obtain rfl := Option.some.inj h
    obtain ⟨hlow, hhigh⟩ := hb
    rw [UInt8.le_iff_toNat_le] at hlow hhigh
    change 0x80 ≤ b.toNat at hlow
    change b.toNat ≤ 0xBF at hhigh
    exact ⟨by omega, ofNat_toNat_add hlow⟩
  next => cases h

theorem toNat_ofNat_of_valid {n : Nat} (h : n.isValidChar) : (Char.ofNat n).toNat = n := by
  rw [Char.ofNat, dif_pos h]
  exact UInt32.toNat_ofNatLT ..

theorem char?_eq_some {low high n : Nat} {c : Char} (hmax : high ≤ 0x10FFFF)
    (h : char? low high n = some c) : low ≤ n ∧ n ≤ high ∧ c.toNat = n := by
  unfold char? at h
  split at h
  next hn =>
    obtain rfl := Option.some.inj h
    obtain ⟨hlow, hhigh, hsurrogate⟩ := hn
    have hvalid : n.isValidChar := by
      rw [Nat.isValidChar]
      omega
    exact ⟨hlow, hhigh, toNat_ofNat_of_valid hvalid⟩
  next => cases h

theorem encodeChar_of_lt {a : UInt8} (h : a < 0x80) : encodeChar (Char.ofNat a.toNat) = [a] := by
  have hsmall : a.toNat < 0x80 := UInt8.lt_iff_toNat_lt.mp h
  have hvalid : a.toNat.isValidChar := .inl (by omega)
  unfold encodeChar
  dsimp only
  rw [toNat_ofNat_of_valid hvalid, if_pos hsmall, UInt8.ofNat_toNat]

theorem encodeChar_two? {a b : UInt8} {c : Char} (h : two? a b = some c) :
    encodeChar c = [a, b] := by
  unfold two? at h
  split at h
  next ha =>
    obtain ⟨x, hx, h⟩ := Option.bind_eq_some_iff.mp h
    obtain ⟨hlt, hb⟩ := tail?_eq_some hx
    obtain ⟨hlow, hhigh, hn⟩ := char?_eq_some (by decide) h
    have halow : 0xC0 ≤ a.toNat := UInt8.le_iff_toNat_le.mp ha.1
    have hlead : c.toNat / 0x40 = a.toNat - 0xC0 := by omega
    have htail : c.toNat / 1 % 0x40 = x := by omega
    unfold encodeChar
    dsimp only
    rw [if_neg (by omega), if_pos (by omega), hlead, htail, ofNat_toNat_add halow, hb]
  next => cases h

theorem encodeChar_three? {a b d : UInt8} {c : Char} (h : three? a b d = some c) :
    encodeChar c = [a, b, d] := by
  unfold three? at h
  split at h
  next ha =>
    obtain ⟨x, hx, h⟩ := Option.bind_eq_some_iff.mp h
    obtain ⟨y, hy, h⟩ := Option.bind_eq_some_iff.mp h
    obtain ⟨hxlt, hb⟩ := tail?_eq_some hx
    obtain ⟨hylt, hd⟩ := tail?_eq_some hy
    obtain ⟨hlow, hhigh, hn⟩ := char?_eq_some (by decide) h
    have halow : 0xE0 ≤ a.toNat := UInt8.le_iff_toNat_le.mp ha.1
    have hlead : c.toNat / 0x1000 = a.toNat - 0xE0 := by omega
    have hfirst : c.toNat / 0x40 % 0x40 = x := by omega
    have hsecond : c.toNat / 1 % 0x40 = y := by omega
    unfold encodeChar
    dsimp only
    rw [if_neg (by omega), if_neg (by omega), if_pos (by omega), hlead, hfirst, hsecond,
      ofNat_toNat_add halow, hb, hd]
  next => cases h

theorem encodeChar_four? {a b d e : UInt8} {c : Char} (h : four? a b d e = some c) :
    encodeChar c = [a, b, d, e] := by
  unfold four? at h
  split at h
  next ha =>
    obtain ⟨x, hx, h⟩ := Option.bind_eq_some_iff.mp h
    obtain ⟨y, hy, h⟩ := Option.bind_eq_some_iff.mp h
    obtain ⟨z, hz, h⟩ := Option.bind_eq_some_iff.mp h
    obtain ⟨hxlt, hb⟩ := tail?_eq_some hx
    obtain ⟨hylt, hd⟩ := tail?_eq_some hy
    obtain ⟨hzlt, he⟩ := tail?_eq_some hz
    obtain ⟨hlow, hhigh, hn⟩ := char?_eq_some (by decide) h
    have halow : 0xF0 ≤ a.toNat := UInt8.le_iff_toNat_le.mp ha.1
    have hlead : c.toNat / 0x40000 = a.toNat - 0xF0 := by omega
    have hfirst : c.toNat / 0x1000 % 0x40 = x := by omega
    have hsecond : c.toNat / 0x40 % 0x40 = y := by omega
    have hthird : c.toNat / 1 % 0x40 = z := by omega
    unfold encodeChar
    dsimp only
    rw [if_neg (by omega), if_neg (by omega), if_neg (by omega), hlead, hfirst, hsecond, hthird,
      ofNat_toNat_add halow, hb, hd, he]
  next => cases h

/-- What is read as a character are its bytes. -/
theorem eq_of_first? {bytes rest : List UInt8} {c : Char} (h : first? bytes = some (c, rest)) :
    bytes = encodeChar c ++ rest := by
  unfold first? at h
  split at h
  next => cases h
  next a rest' =>
  split at h
  next hsmall =>
    cases h
    rw [encodeChar_of_lt hsmall]
    rfl
  next =>
  split at h
  next => cases h
  next b rest' =>
  split at h
  next char rest' htwo =>
    cases h
    rw [encodeChar_two? htwo]
    rfl
  next => cases h
  next d rest' htwo =>
  split at h
  next char rest' hthree =>
    cases h
    rw [encodeChar_three? hthree]
    rfl
  next => cases h
  next e rest' hthree =>
  split at h
  next char hfour =>
    cases h
    rw [encodeChar_four? hfour]
    rfl
  next => cases h

/-! ## Whole texts -/

theorem encode_cons (c : Char) (text : List Char) :
    encode (c :: text) = encodeChar c ++ encode text :=
  List.flatMap_cons

theorem encode_append (first second : List Char) :
    encode (first ++ second) = encode first ++ encode second :=
  List.flatMap_append

theorem decodeOnto_of_first? {before : List Char} {bytes rest : List UInt8} {c : Char}
    (h : first? bytes = some (c, rest)) :
    decodeOnto before bytes = decodeOnto (c :: before) rest := by
  rw [decodeOnto]
  split
  next hnone =>
    rw [h] at hnone
    contradiction
  next hsome =>
    rw [h] at hsome
    cases hsome
    rfl

theorem decodeOnto_of_none {before : List Char} {bytes : List UInt8} (h : first? bytes = none) :
    decodeOnto before bytes = (before.reverse, bytes) := by
  rw [decodeOnto]
  split
  next => rfl
  next hsome =>
    rw [h] at hsome
    contradiction

/-- The bytes of a text are read as the text, up to bytes that begin no character. -/
theorem decodeOnto_encode (before text : List Char) {rest : List UInt8}
    (hrest : first? rest = none) :
    decodeOnto before (encode text ++ rest) = (before.reverse ++ text, rest) := by
  induction text generalizing before with
  | nil => simpa [encode] using decodeOnto_of_none hrest
  | cons c text ih =>
      rw [encode_cons, List.append_assoc,
        decodeOnto_of_first? ((reads_encodeChar c).first?_append _), ih]
      simp

/-- A text is read back from its bytes. -/
theorem decode_encode (text : List Char) : decode (encode text) = (text, []) := by
  have hread := decodeOnto_encode [] text (rfl : first? [] = none)
  simpa [decode] using hread

/-- Cutting off the bytes of a text cuts off its characters, apart from bytes that begin
no character. -/
theorem exists_take_encode (text : List Char) (n : Nat) :
    ∃ k rest, (encode text).take n = encode (text.take k) ++ rest ∧ first? rest = none := by
  induction text generalizing n with
  | nil => exact ⟨0, [], by simp [encode], rfl⟩
  | cons c text ih =>
      rw [encode_cons, List.take_append]
      by_cases hn : n < (encodeChar c).length
      · refine ⟨0, (encodeChar c).take n, ?_, (reads_encodeChar c).first?_take n hn⟩
        simp [Nat.sub_eq_zero_of_le (Nat.le_of_lt hn), encode]
      · obtain ⟨k, rest, htake, hrest⟩ := ih (n - (encodeChar c).length)
        refine ⟨k + 1, rest, ?_, hrest⟩
        rw [htake, List.take_of_length_le (Nat.le_of_not_lt hn), List.take_succ_cons, encode_cons,
          List.append_assoc]

/-- What is read of a text whose bytes were cut off is the beginning of the text. -/
theorem decode_take_encode_start (text : List Char) (n : Nat) :
    (decode ((encode text).take n)).1 <+: text := by
  obtain ⟨k, rest, htake, hrest⟩ := exists_take_encode text n
  rw [decode, htake, decodeOnto_encode [] _ hrest]
  exact List.take_prefix k text

/-- A text whose bytes were cut off is not read whole. -/
theorem decode_take_encode_ne (text : List Char) {n : Nat} (hn : n < (encode text).length) :
    (decode ((encode text).take n)).1 ≠ text := by
  obtain ⟨k, rest, htake, hrest⟩ := exists_take_encode text n
  intro heq
  rw [decode, htake, decodeOnto_encode [] _ hrest, List.reverse_nil, List.nil_append] at heq
  change text.take k = text at heq
  have hlength := congrArg List.length htake
  rw [heq, List.length_take, List.length_append] at hlength
  omega

@[simp] theorem encode_eq_nil_iff {text : List Char} : encode text = [] ↔ text = [] := by
  constructor
  · intro h
    have hread : decode [] = (text, []) := h ▸ decode_encode text
    exact congrArg Prod.fst (hread.symm.trans (decode_encode []))
  · rintro rfl
    rfl

/-- A line feed in the bytes of a text is one of the text. -/
theorem newline_mem_of_encode {text : List Char} (h : 0x0A ∈ encode text) : '\n' ∈ text := by
  obtain ⟨c, hc, hbyte⟩ := List.mem_flatMap.mp h
  by_cases hsmall : c.toNat < 0x80
  · rw [encodeChar, if_pos hsmall, List.mem_singleton] at hbyte
    have hnat := congrArg UInt8.toNat hbyte
    rw [toNat_ofNat_of_lt (by omega)] at hnat
    exact (Char.toNat_inj.mp hnat : '\n' = c) ▸ hc
  · exact absurd (le_of_mem_encodeChar (by omega) _ hbyte) (by decide)

/-! ## Whole byte sequences -/

/-- A byte sequence is the bytes of a text up to where no character begins, and is read so. -/
theorem exists_decode (bytes : List UInt8) :
    ∃ text rest, bytes = encode text ++ rest ∧ first? rest = none ∧ decode bytes = (text, rest) := by
  have hread : ∃ text rest, bytes = encode text ++ rest ∧ first? rest = none := by
    induction hlength : bytes.length using Nat.strongRecOn generalizing bytes with
    | ind n ih =>
        cases hfirst : first? bytes with
        | none => exact ⟨[], bytes, rfl, hfirst⟩
        | some found =>
            obtain ⟨c, later⟩ := found
            have hlt : later.length < n := hlength ▸ length_of_first? hfirst
            obtain ⟨text, rest, hlater, hrest⟩ := ih later.length hlt later rfl
            refine ⟨c :: text, rest, ?_, hrest⟩
            rw [eq_of_first? hfirst, hlater, encode_cons, List.append_assoc]
  obtain ⟨text, rest, rfl, hrest⟩ := hread
  exact ⟨text, rest, rfl, hrest, decodeOnto_encode [] text hrest⟩

/-- A byte sequence is a text exactly if it is the bytes of it. -/
theorem decode?_eq_some_iff {bytes : List UInt8} {text : List Char} :
    decode? bytes = some text ↔ bytes = encode text := by
  constructor
  · intro h
    obtain ⟨found, rest, rfl, -, hdecode⟩ := exists_decode bytes
    rw [decode?, hdecode] at h
    cases rest with
    | nil =>
        cases h
        exact List.append_nil _
    | cons b rest => cases h
  · rintro rfl
    rw [decode?, decode_encode]

theorem isSome_decode?_iff {bytes : List UInt8} :
    (decode? bytes).isSome = true ↔ ∃ text, bytes = encode text := by
  rw [Option.isSome_iff_exists]
  exact exists_congr fun _ => decode?_eq_some_iff

theorem decode?_eq_none_iff {bytes : List UInt8} :
    decode? bytes = none ↔ ∀ text, bytes ≠ encode text := by
  rw [Option.eq_none_iff_forall_ne_some]
  exact forall_congr' fun text => not_congr decode?_eq_some_iff

end BoardMill.Utf8
