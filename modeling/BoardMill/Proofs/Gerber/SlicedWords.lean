import BoardMill.Proofs.Gerber.SlicedCommands

/-! # Slices of words

A word is looked at byte by byte only if each of its characters is a byte. Then positions count
characters, and the bytes that are skipped are the characters that a field consists of.
-/

namespace BoardMill.Gerber

open Slicing

namespace Sliced

variable {α ε : Type} {text front rest : List Char}

/-- Every character is a byte. -/
def IsAscii (text : List Char) : Prop := ∀ c ∈ text, c.toNat < 0x80

theorem encode_of_isAscii (h : IsAscii text) :
    Utf8.encode text = text.map fun c => UInt8.ofNat c.toNat := by
  induction text with
  | nil => rfl
  | cons c rest ih =>
      obtain ⟨hc, hrest⟩ := List.forall_mem_cons.mp h
      rw [Utf8.encode_cons, ih hrest, Utf8.encodeChar, if_pos hc]
      rfl

/-! ## Bytes of a word -/

section Bytes

variable (h : IsAscii (front ++ rest))
include h

theorem item_bytes {c : Char} (hrest : rest.head? = some c) :
    (item (Utf8.encode (front ++ rest)) front.length : Slicing ε _) =
      pure (UInt8.ofNat c.toNat) := by
  obtain ⟨tail, rfl⟩ := List.head?_eq_some_iff.mp hrest
  rw [item, encode_of_isAscii h]
  simp

theorem length_bytes : (Utf8.encode (front ++ rest)).length = front.length + rest.length := by
  rw [encode_of_isAscii h, List.length_map, List.length_append]

end Bytes

theorem beq_ofNat {c d : Char} (hc : c.toNat < 0x80) (hd : d.toNat < 0x80) :
    (UInt8.ofNat c.toNat == UInt8.ofNat d.toNat) = (c == d) := by
  rw [Bool.eq_iff_iff, beq_iff_eq, beq_iff_eq, ← UInt8.toNat_inj,
    Utf8.toNat_ofNat_of_lt (by omega), Utf8.toNat_ofNat_of_lt (by omega), Char.toNat_inj]

theorem isNumberByte_ofNat {c : Char} (hc : c.toNat < 0x80) :
    isNumberByte (UInt8.ofNat c.toNat) = Fields.isNumberChar c := by
  rw [Fields.isNumberChar, ← isDigitByte_ofNat hc, ← beq_ofNat hc (by decide)]
  rfl

theorem signLength_cons (c : Char) (rest : List Char) :
    Fields.signLength (c :: rest) = if c == '+' || c == '-' then 1 else 0 := by
  unfold Fields.signLength
  split
  next h =>
    cases h
    rfl
  next h =>
    cases h
    rfl
  next hplus hminus =>
    rw [if_neg]
    simp only [Bool.or_eq_true, beq_iff_eq]
    rintro (rfl | rfl)
    · exact hplus rest rfl
    · exact hminus rest rfl

theorem signLength_eq (front : List Char) (h : IsAscii (front ++ rest)) :
    (signLength (Utf8.encode (front ++ rest)) front.length : Slicing (Defect α) _) =
      pure (Fields.signLength rest) := by
  rw [signLength, length_bytes h]
  cases rest with
  | nil => exact if_neg (Nat.lt_irrefl _)
  | cons c rest =>
      have hc : c.toNat < 0x80 := h c (by simp)
      have hplus := beq_ofNat hc (show '+'.toNat < 0x80 by decide)
      have hminus := beq_ofNat hc (show '-'.toNat < 0x80 by decide)
      rw [if_pos (by rw [List.length_cons]; omega), item_bytes h rfl, pure_bind]
      change pure (if UInt8.ofNat c.toNat == UInt8.ofNat '+'.toNat ||
        UInt8.ofNat c.toNat == UInt8.ofNat '-'.toNat then 1 else 0) = _
      rw [hplus, hminus, signLength_cons]

theorem numberLength_eq (front : List Char) (h : IsAscii (front ++ rest)) :
    (numberLength (Utf8.encode (front ++ rest)) front.length : Slicing (Defect α) _) =
      pure (rest.takeWhile Fields.isNumberChar).length := by
  induction rest generalizing front with
  | nil =>
      rw [numberLength, if_neg (by rw [length_bytes h]; exact Nat.lt_irrefl _)]
      rfl
  | cons c rest ih =>
      have hc : c.toNat < 0x80 := h c (by simp)
      have hrest := ih (front ++ [c]) (by simpa using h)
      rw [List.append_assoc, List.singleton_append, List.length_append] at hrest
      rw [numberLength, if_pos (by rw [length_bytes h, List.length_cons]; omega), item_bytes h rfl,
        pure_bind, isNumberByte_ofNat hc, List.takeWhile_cons]
      split
      · rw [show front.length + 1 = front.length + [c].length from rfl, hrest, pure_bind,
          List.length_cons, Nat.add_comm]
      · rfl

/-! ## Fields -/

theorem splitValue_append (text : List Char) :
    (Fields.splitValue text).1 ++ (Fields.splitValue text).2 = text := by
  rw [Fields.splitValue, List.append_assoc, List.takeWhile_append_dropWhile, List.take_append_drop]

theorem length_take_signLength (text : List Char) :
    (text.take (Fields.signLength text)).length = Fields.signLength text := by
  refine List.length_take_of_le ?_
  unfold Fields.signLength
  split <;> simp

theorem length_splitValue (text : List Char) : (Fields.splitValue text).1.length =
    Fields.signLength text +
      ((text.drop (Fields.signLength text)).takeWhile Fields.isNumberChar).length := by
  rw [Fields.splitValue, List.length_append, length_take_signLength]

/-- The value of a field is cut out between two characters. -/
theorem between_splitValue (front : List Char) {key : Char} (h : IsAscii (front ++ key :: rest)) :
    (between (front.length + 1) (front.length + 1 + (Fields.splitValue rest).1.length)
      (front ++ key :: rest) : Slicing ε _) = pure (Fields.splitValue rest).1 := by
  have hfront : byteLength (front ++ [key]) = front.length + 1 := by
    rw [byteLength_eq_length fun c hc => h c (by
      rw [List.append_cons]
      exact List.mem_append_left _ hc), List.length_append]
    rfl
  have hvalue : byteLength (Fields.splitValue rest).1 = (Fields.splitValue rest).1.length := by
    refine byteLength_eq_length fun c hc => h c ?_
    rw [← splitValue_append rest]
    exact List.mem_append_right _ (List.mem_cons_of_mem _ (List.mem_append_left _ hc))
  have hcut := between_append (ε := ε) (front ++ [key]) (Fields.splitValue rest).1
    (Fields.splitValue rest).2
  rwa [splitValue_append, hfront, hvalue, List.append_assoc, List.singleton_append] at hcut

/-- One field is read, from its letter to behind its value. -/
theorem readFields?_cons (f : Fields) (front : List Char) {key : Char}
    (h : IsAscii (front ++ key :: rest)) :
    (readFields? (front ++ key :: rest) (Utf8.encode (front ++ key :: rest)) f front.length :
      Slicing (Defect α) _) =
      if (Fields.splitValue rest).1.isEmpty then pure none
      else (f.add? key (Fields.splitValue rest).1).elim (pure none) fun f =>
        readFields? (front ++ key :: rest) (Utf8.encode (front ++ key :: rest)) f
          (front.length + 1 + (Fields.splitValue rest).1.length) := by
  have hkey : key.toNat < 0x80 := h key (by simp)
  have hcode : Char.ofNat (UInt8.ofNat key.toNat).toNat = key := by
    rw [Utf8.toNat_ofNat_of_lt (by omega), Char.ofNat_toNat]
  have hsign : signLength (Utf8.encode (front ++ key :: rest)) (front.length + 1) =
      (pure (Fields.signLength rest) : Slicing (Defect α) _) := by
    have hsigned := signLength_eq (α := α) (front ++ [key])
      (show IsAscii (front ++ [key] ++ rest) by simpa using h)
    rwa [List.append_assoc, List.singleton_append, List.length_append] at hsigned
  have hnumber : numberLength (Utf8.encode (front ++ key :: rest))
      (front.length + 1 + Fields.signLength rest) = (pure
        ((rest.drop (Fields.signLength rest)).takeWhile Fields.isNumberChar).length :
          Slicing (Defect α) _) := by
    have hunsigned := numberLength_eq (α := α) (front ++ key :: rest.take (Fields.signLength rest))
      (show IsAscii (_ ++ rest.drop (Fields.signLength rest)) by simpa using h)
    rwa [List.append_assoc, List.cons_append, List.take_append_drop, List.length_append,
      List.length_cons, length_take_signLength, Nat.add_comm (Fields.signLength rest),
      ← Nat.add_assoc] at hunsigned
  have hstart : front.length < (Utf8.encode (front ++ key :: rest)).length := by
    rw [length_bytes h, List.length_cons]
    omega
  rw [readFields?, if_pos hstart, item_bytes h rfl, pure_bind]
  simp only [hsign, pure_bind, hnumber, Nat.add_assoc (front.length + 1), ← length_splitValue,
    between_splitValue front h, hcode]
  cases f.add? key (Fields.splitValue rest).1 <;> rfl

theorem readFields?_eq (f : Fields) (front : List Char) (h : IsAscii (front ++ rest)) :
    (readFields? (front ++ rest) (Utf8.encode (front ++ rest)) f front.length :
      Slicing (Defect α) _) = pure (f.read? rest) := by
  -- The front grows by one field with each step of the reader that has no positions.
  fun_induction Fields.read? f rest generalizing front with
  | case1 f =>
      rw [readFields?, if_neg (by rw [length_bytes h]; exact Nat.lt_irrefl _)]
  | case2 f key rest split hempty => rw [readFields?_cons f front h, if_pos hempty]
  | case3 f key rest split hempty f' hadd ih =>
      have hparts : front ++ key :: rest = front ++ key :: split.1 ++ split.2 := by
        rw [List.append_assoc, List.cons_append, splitValue_append]
      have hrest := ih (front ++ key :: split.1) (hparts ▸ h)
      rw [← hparts, List.length_append, List.length_cons] at hrest
      have hstop : front.length + 1 + split.1.length = front.length + (split.1.length + 1) := by
        omega
      rw [readFields?_cons f front h, if_neg hempty, hadd, Option.elim_some, hstop]
      exact hrest
  | case4 f key rest split hempty hadd =>
      rw [readFields?_cons f front h, if_neg hempty, hadd, Option.elim_none]

theorem fields?_eq (word : List Char) (h : IsAscii text) :
    (fields? word text : Slicing (Defect α) _) = sure (Word.fields? word text) := by
  have hread : readFields? text (Utf8.encode text) .none 0 =
      (pure (Fields.none.read? text) : Slicing (Defect α) _) := readFields?_eq .none [] h
  rw [fields?, hread, pure_bind, Word.fields?]
  cases Fields.none.read? text <;> rfl

/-! ## Words -/

theorem preparation?_eq (digits : List Char) :
    (preparation? ('G' :: digits) : Slicing (Defect α) _) = sure (Preparation.read? digits) := by
  rw [preparation?, behind_one (by decide), pure_bind]

/-- The digits behind a letter end where the preparation code ends. -/
theorem preparationEnd_eq (rest : List Char) :
    ((find? (!Decimal.isDigit ·) rest).map (· + 1)).getD (byteLength ('G' :: rest)) =
      byteLength ('G' :: rest.takeWhile Decimal.isDigit) := by
  have hend := find?_getD (!Decimal.isDigit ·) rest
  simp only [Bool.not_not] at hend
  have hletter (text : List Char) : byteLength ('G' :: text) = byteLength text + 1 :=
    Nat.add_comm 1 _
  rw [hletter, hletter, ← hend]
  cases find? (!Decimal.isDigit ·) rest <;> rfl

theorem before_preparationEnd (rest : List Char) :
    (before (byteLength ('G' :: rest.takeWhile Decimal.isDigit)) ('G' :: rest) : Slicing ε _) =
      pure ('G' :: rest.takeWhile Decimal.isDigit) := by
  have hcut := before_append (ε := ε) ('G' :: rest.takeWhile Decimal.isDigit)
    (rest.dropWhile Decimal.isDigit)
  rwa [List.cons_append, List.takeWhile_append_dropWhile] at hcut

theorem behind_preparationEnd (rest : List Char) :
    (behind (byteLength ('G' :: rest.takeWhile Decimal.isDigit)) ('G' :: rest) : Slicing ε _) =
      pure (rest.dropWhile Decimal.isDigit) := by
  have hcut := behind_append (ε := ε) ('G' :: rest.takeWhile Decimal.isDigit)
    (rest.dropWhile Decimal.isDigit)
  rwa [List.cons_append, List.takeWhile_append_dropWhile] at hcut

theorem drawing_eq (preparation : Option Preparation) (word : List Char) (h : IsAscii text) :
    (do return .drawing preparation (some (← fields? word text)) : Slicing (Defect α) _) =
      sure (do return Word.drawing preparation (some (← Word.fields? word text))) := by
  rw [fields?_eq word h]
  exact sure_map (Word.fields? word text) fun fields => Word.drawing preparation (some fields)

/-- A word is cut behind its letter and behind the digits of its code. -/
theorem word?_eq (word : List Char) :
    (word? word : Slicing (Defect α) _) = sure (Word.read? word) := by
  unfold word? Word.read?
  split
  next => rfl
  next hbytes =>
    have hascii : IsAscii word := by
      intro c hc
      simp only [List.any_eq_true, not_exists, not_and, decide_eq_true_iff] at hbytes
      exact Nat.not_le.mp (hbytes c hc)
    dsimp only
    split
    next hM =>
      obtain ⟨rest, rfl⟩ := List.head?_eq_some_iff.mp hM
      simp only [behind_one (show 'M'.toNat < 0x80 by decide), pure_bind]
      rcases Decimal.readWord32? rest with _ | (_ | _ | _ | code) <;> rfl
    split
    next hM hG =>
      obtain ⟨rest, rfl⟩ := List.head?_eq_some_iff.mp hG
      have hfields : IsAscii (rest.dropWhile Decimal.isDigit) := fun c hc =>
        hascii c (List.mem_cons_of_mem _ ((List.dropWhile_suffix _).subset hc))
      rw [behind_one (by decide), pure_bind, preparationEnd_eq, before_preparationEnd, pure_bind,
        preparation?_eq]
      simp only [sure_bind]
      refine bind_congr fun preparation => ?_
      rw [behind_preparationEnd, pure_bind]
      split
      · rfl
      · exact drawing_eq (some preparation) ('G' :: rest) hfields
    next hM hG =>
      split
      next => exact (hM rfl).elim
      next => exact (hG rfl).elim
      next => exact drawing_eq none word hascii

end Sliced

end BoardMill.Gerber
