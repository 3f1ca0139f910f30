import BoardMill.Proofs.Decimal.Grammar
import BoardMill.Proofs.Text.Search
import BoardMill.Proofs.Text.Utf8
import BoardMill.Text.Slice

/-! # Slices that are in place

A text can be cut exactly at the positions between its characters and at its ends. What is found in
a text is found at such a position, and a position moved on by a character of one byte is one again.
-/

namespace BoardMill.Slicing

variable {ε β γ : Type} {text front back rest : List Char} {c : Char} {position : Nat}

/-! ## Work that has nothing to cut -/

@[simp] theorem sure_pure (value : β) : sure (pure value : Except ε β) = pure value := rfl

@[simp] theorem sure_throw (reason : ε) : sure (throw reason : Except ε β) = refuse reason := rfl

theorem sure_bind (x : Except ε β) (f : β → Except ε γ) :
    sure (x >>= f) = sure x >>= fun value => sure (f value) := by
  cases x <;> rfl

theorem sure_map (x : Except ε β) (f : β → γ) :
    (do return f (← sure x)) = sure (do return f (← x)) := by
  cases x <;> rfl

/-- Work is in place if it ends early for reasons of its own only. Each cut that it makes is at an
end of the text or between two characters, and each item that it takes is there. -/
def InPlace (work : Slicing ε β) : Prop :=
  ∀ halt, work = .error halt → ∃ reason, halt = .refused reason

theorem inPlace_sure (x : Except ε β) : InPlace (sure x) := by
  intro halt h
  cases x with
  | ok value => cases h
  | error reason =>
      cases h
      exact ⟨reason, rfl⟩

/-! ## Cuts -/

@[simp] theorem byteLength_append (front back : List Char) :
    byteLength (front ++ back) = byteLength front + byteLength back := by
  induction front with
  | nil => exact (Nat.zero_add _).symm
  | cons c front ih => rw [List.cons_append, byteLength, byteLength, ih, Nat.add_assoc]

theorem length_encodeChar (c : Char) : (Utf8.encodeChar c).length = c.utf8Size := by
  have hsize : c.utf8Size = if c.toNat ≤ 127 then 1 else if c.toNat ≤ 2047 then 2
      else if c.toNat ≤ 65535 then 3 else 4 := by
    unfold Char.utf8Size
    simp only [UInt32.le_iff_toNat_le]
    rfl
  rw [hsize, Utf8.encodeChar]
  dsimp only
  split_ifs <;> first | rfl | omega

/-- The bytes that a text takes are those that it is written with. -/
theorem byteLength_eq (text : List Char) : byteLength text = (Utf8.encode text).length := by
  induction text with
  | nil => rfl
  | cons c text ih => rw [Utf8.encode_cons, List.length_append, length_encodeChar, byteLength, ih]

theorem splitAt?_append (front back : List Char) :
    splitAt? (byteLength front) (front ++ back) = some (front, back) := by
  induction front with
  | nil => rw [byteLength, splitAt?, List.nil_append]
  | cons c front ih =>
      obtain ⟨n, hn⟩ : ∃ n, byteLength (c :: front) = n + 1 :=
        Nat.exists_eq_succ_of_ne_zero (by
          have := c.utf8Size_pos
          rw [byteLength]
          omega)
      have hrest : n + 1 - c.utf8Size = byteLength front := by
        rw [byteLength] at hn
        omega
      have hle : c.utf8Size ≤ n + 1 := by
        rw [byteLength] at hn
        omega
      rw [hn, List.cons_append, splitAt?, if_pos hle, hrest, ih]
      rfl

/-- A text can be cut where some of its characters end. -/
theorem splitAt?_eq_some_iff : splitAt? position text = some (front, back) ↔
    text = front ++ back ∧ byteLength front = position := by
  refine ⟨eq_append_of_splitAt?, ?_⟩
  rintro ⟨rfl, rfl⟩
  exact splitAt?_append front back

example : splitAt? 1 ['é'] = none := by decide

theorem before_append (front back : List Char) :
    (before (byteLength front) (front ++ back) : Slicing ε _) = pure front := by
  rw [before, splitAt?_append]

theorem behind_append (front back : List Char) :
    (behind (byteLength front) (front ++ back) : Slicing ε _) = pure back := by
  rw [behind, splitAt?_append]

theorem between_append (front part back : List Char) :
    (between (byteLength front) (byteLength front + byteLength part) (front ++ (part ++ back)) :
      Slicing ε _) = pure part := by
  rw [between, ← byteLength_append, ← List.append_assoc, before_append]
  exact behind_append front part

theorem utf8Size_eq_one (h : c.toNat < 0x80) : c.utf8Size = 1 := by
  rw [← length_encodeChar, Utf8.encodeChar, if_pos h]
  rfl

/-- A character of one byte is cut off. -/
theorem behind_one (h : c.toNat < 0x80) (rest : List Char) :
    (behind 1 (c :: rest) : Slicing ε _) = pure rest := by
  have hlength : byteLength [c] = 1 := by rw [byteLength, utf8Size_eq_one h]; rfl
  rw [← hlength]
  exact behind_append [c] rest

/-- What stands behind a character of one byte is cut off behind the character. -/
theorem behind_letter (h : c.toNat < 0x80) (front back : List Char) :
    (behind (byteLength front + 1) (front ++ c :: back) : Slicing ε _) = pure back := by
  have hcut := behind_append (ε := ε) (front ++ [c]) back
  rwa [byteLength_append, byteLength, utf8Size_eq_one h, List.append_assoc,
    List.singleton_append] at hcut

theorem between_letter (h : c.toNat < 0x80) (front part back : List Char) :
    (between (byteLength front + 1) (byteLength (front ++ c :: part))
      (front ++ c :: (part ++ back)) : Slicing ε _) = pure part := by
  rw [between, ← List.cons_append, ← List.append_assoc, before_append]
  exact behind_letter h front part

/-! ## Positions -/

/-- The first character of a kind is behind all characters of other kinds. -/
theorem find?_eq (p : Char → Bool) (text : List Char) :
    find? p text = if (text.dropWhile (!p ·)).isEmpty then none
      else some (byteLength (text.takeWhile (!p ·))) := by
  induction text with
  | nil => rfl
  | cons c rest ih =>
      rw [find?]
      cases hc : p c with
      | true => simp [hc, byteLength]
      | false =>
          rw [if_neg (by decide), ih, List.dropWhile_cons_of_pos (by simp [hc]),
            List.takeWhile_cons_of_pos (by simp [hc]), byteLength]
          split <;> rfl

theorem find?_getD (p : Char → Bool) (text : List Char) :
    (find? p text).getD (byteLength text) = byteLength (text.takeWhile (!p ·)) := by
  rw [find?_eq]
  split
  next hnone =>
    rw [List.isEmpty_iff] at hnone
    have hparts := List.takeWhile_append_dropWhile (p := (!p ·)) (l := text)
    rw [hnone, List.append_nil] at hparts
    rw [Option.getD_none, hparts]
  next => rfl

theorem before_takeWhile (p : Char → Bool) (text : List Char) :
    (before (byteLength (text.takeWhile p)) text : Slicing ε _) = pure (text.takeWhile p) := by
  have hcut := before_append (ε := ε) (text.takeWhile p) (text.dropWhile p)
  rwa [List.takeWhile_append_dropWhile] at hcut

theorem behind_takeWhile (p : Char → Bool) (text : List Char) :
    (behind (byteLength (text.takeWhile p)) text : Slicing ε _) = pure (text.dropWhile p) := by
  have hcut := behind_append (ε := ε) (text.takeWhile p) (text.dropWhile p)
  rwa [List.takeWhile_append_dropWhile] at hcut

/-- A mark is found at the end of what stands before it. -/
theorem find?_mark (mark : Char) (text : List Char) :
    find? (· == mark) text =
      (Decimal.splitAtFirst? mark text).map fun parts => byteLength parts.1 := by
  induction text with
  | nil => rfl
  | cons c rest ih =>
      rw [find?, Decimal.splitAtFirst?]
      by_cases hc : c = mark
      · rw [if_pos (beq_iff_eq.mpr hc), if_pos hc]
        rfl
      · rw [if_neg (mt beq_iff_eq.mp hc), if_neg hc, ih]
        cases Decimal.splitAtFirst? mark rest <;> rfl

theorem findFirst?_eq (pattern text : List Char) :
    findFirst? pattern text = (Text.beforeFirst? pattern text).map byteLength := by
  induction text with
  | nil => cases pattern <;> rfl
  | cons c rest ih =>
      rw [findFirst?, Text.beforeFirst?]
      split
      · rfl
      · rw [ih]
        cases Text.beforeFirst? pattern rest <;> rfl

theorem exists_of_beforeFirst? {pattern : List Char}
    (h : Text.beforeFirst? pattern text = some front) : ∃ back, text = front ++ back := by
  induction text generalizing front with
  | nil =>
      obtain ⟨-, hfront⟩ := Option.ite_none_right_eq_some.mp h
      cases hfront
      exact ⟨[], rfl⟩
  | cons c rest ih =>
      rw [Text.beforeFirst?] at h
      split at h
      · cases h
        exact ⟨c :: rest, rfl⟩
      · obtain ⟨front, hrest, rfl⟩ := Option.map_eq_some_iff.mp h
        obtain ⟨back, rfl⟩ := ih hrest
        exact ⟨back, rfl⟩

theorem findLast?_eq_none {pattern : List Char} (h : Text.behindLast? pattern text = none) :
    findLast? pattern text = none := by
  induction text with
  | nil =>
      rw [Text.behindLast?] at h
      rw [findLast?]
      cases pattern with
      | nil => cases h
      | cons => rfl
  | cons c rest ih =>
      rw [Text.behindLast?_cons, Option.or_eq_none_iff] at h
      have hstart : ¬ pattern.isPrefixOf (c :: rest) = true := fun htrue => by
        rw [if_pos htrue] at h
        cases h.2
      rw [findLast?, ih h.1, if_neg hstart]

/-- The last occurrence of a pattern is found in front of what stands behind it. -/
theorem exists_of_behindLast? {pattern : List Char}
    (h : Text.behindLast? pattern text = some back) : ∃ front,
      text = front ++ (pattern ++ back) ∧ findLast? pattern text = some (byteLength front) := by
  induction text with
  | nil =>
      obtain ⟨hnil, hback⟩ := Option.ite_none_right_eq_some.mp h
      cases hback
      rw [List.isEmpty_iff] at hnil
      subst hnil
      exact ⟨[], rfl, rfl⟩
  | cons c rest ih =>
      rw [Text.behindLast?_cons] at h
      cases hrest : Text.behindLast? pattern rest with
      | some found =>
          rw [hrest] at h
          cases h
          obtain ⟨front, hfront, hposition⟩ := ih hrest
          refine ⟨c :: front, by rw [hfront, List.cons_append], ?_⟩
          rw [findLast?, hposition]
          rfl
      | none =>
          rw [hrest, Option.none_or] at h
          obtain ⟨hstart, hback⟩ := Option.ite_none_right_eq_some.mp h
          obtain ⟨found, hfound⟩ := List.isPrefixOf_iff_prefix.mp hstart
          cases hback
          refine ⟨[], ?_, ?_⟩
          · rw [← hfound, List.drop_left, List.nil_append]
          · rw [findLast?, findLast?_eq_none hrest]
            exact if_pos hstart

end BoardMill.Slicing
