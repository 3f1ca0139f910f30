import BoardMill.Gerber.Sliced
import BoardMill.Proofs.Text.Slice
import Mathlib.Tactic.SplitIfs

/-! # Slices of extended commands

Every cut that is made of a command is in its place, whatever the command is: its name is two
characters of one byte, each letter that is skipped or found is one, and what is found stands where
it was found. So reading a command by slices comes to what reading it without them comes to.
-/

namespace BoardMill.Gerber.Sliced

open Slicing

variable {α ε : Type} {text command rest : List Char}

/-! ## Tokens -/

theorem isComment_eq (text : List Char) :
    (isComment text : Slicing ε Bool) = pure (Token.isComment text) := by
  unfold Token.isComment
  split
  next rest => rfl
  next rest =>
    have hcut : (behind 2 ('G' :: '4' :: rest) : Slicing ε _) = pure rest :=
      behind_append ['G', '4'] rest
    unfold isComment
    simp [List.isPrefixOf, hcut]
  next hlong hshort =>
    have hfirst : ['G', '0', '4'].isPrefixOf text = false := by
      rw [Bool.eq_false_iff, Ne, List.isPrefixOf_iff_prefix]
      rintro ⟨rest, rfl⟩
      exact hlong rest rfl
    have hsecond : ['G', '4'].isPrefixOf text = false := by
      rw [Bool.eq_false_iff, Ne, List.isPrefixOf_iff_prefix]
      rintro ⟨rest, rfl⟩
      exact hshort rest rfl
    unfold isComment
    rw [hfirst, hsecond]
    rfl

theorem ofPiece_eq (line : Nat) (kind : TokenKind) (piece : List Char) :
    (ofPiece line kind piece : Slicing ε (List Token)) = pure (Token.ofPiece line kind piece) := by
  unfold ofPiece Token.ofPiece
  dsimp only
  rw [isComment_eq]
  cases (Text.trim piece.reverse).isEmpty with
  | true => rfl
  | false => cases Token.isComment (Text.trim piece.reverse) <;> rfl

theorem scan_eq (place : Token.Place) (line : Nat) (text : List Char) :
    (scan place line text : Slicing ε (List Token)) = pure (Token.scan place line text) := by
  induction text generalizing place line with
  | nil =>
      cases place with
      | between => rfl
      | inside kind start piece => exact ofPiece_eq start kind piece
  | cons c rest ih =>
      rcases place with _ | ⟨_ | _, start, piece⟩
      all_goals
        unfold scan Token.scan
        simp only [ih, ofPiece_eq, pure_bind]
        split_ifs <;> rfl

theorem tokens_eq (text : List Char) :
    (tokens text : Slicing ε (List Token)) = pure (Token.ofText text) :=
  scan_eq .between 1 text

/-! ## Coordinate formats -/

/-- The letters before the digits are characters of one byte. -/
theorem modifiers?_cons {zeros set : ZeroOmission} {c : Char} (hc : c.toNat < 0x80) (hI : c ≠ 'I')
    (h : modifier? zeros c = some set) (rest : List Char) :
    (modifiers? zeros (c :: rest) : Slicing (Defect α) _) = modifiers? set rest := by
  rw [modifiers?, if_neg (by simpa using hI), List.head?_cons, Option.bind_some, h]
  dsimp only
  split
  next hcut =>
    rw [behind_one hc] at hcut
    cases hcut
    rfl
  next hcut =>
    rw [behind_one hc] at hcut
    cases hcut

theorem modifiers?_eq (zeros : ZeroOmission) (text : List Char) :
    (modifiers? zeros text : Slicing (Defect α) _) = sure (FormatSpec.modifiers? zeros text) := by
  fun_induction FormatSpec.modifiers? (α := α) zeros text with
  | case1 zeros rest ih => exact (modifiers?_cons (by decide) (by decide) rfl rest).trans ih
  | case2 zeros rest ih => exact (modifiers?_cons (by decide) (by decide) rfl rest).trans ih
  | case3 zeros rest ih => exact (modifiers?_cons (by decide) (by decide) rfl rest).trans ih
  | case4 zeros rest =>
      rw [modifiers?]
      rfl
  | case5 zeros text hL hT hA hI =>
      cases text with
      | nil =>
          rw [modifiers?]
          rfl
      | cons c rest =>
          have hnone : modifier? zeros c = none := by
            unfold modifier?
            split
            · exact (hL rest rfl).elim
            · exact (hT rest rfl).elim
            · exact (hA rest rfl).elim
            · rfl
          have hc : (c :: rest).head? ≠ some 'I' := by
            rintro ⟨⟩
            exact hI rest rfl
          rw [modifiers?, if_neg hc, List.head?_cons, Option.bind_some, hnone]
          rfl

theorem isDigit_iff (c : Char) : Decimal.isDigit c = true ↔ 0x30 ≤ c.toNat ∧ c.toNat ≤ 0x39 := by
  rw [Decimal.isDigit, Bool.and_eq_true, decide_eq_true_iff, decide_eq_true_iff]
  exact and_congr UInt32.le_iff_toNat_le UInt32.le_iff_toNat_le

theorem isDigitByte_iff (b : UInt8) : isDigitByte b = true ↔ 0x30 ≤ b.toNat ∧ b.toNat ≤ 0x39 := by
  rw [isDigitByte, Bool.and_eq_true, decide_eq_true_iff, decide_eq_true_iff, UInt8.le_iff_toNat_le,
    UInt8.le_iff_toNat_le]
  rfl

theorem isDigitByte_ofNat {c : Char} (hc : c.toNat < 0x80) :
    isDigitByte (UInt8.ofNat c.toNat) = Decimal.isDigit c := by
  rw [Bool.eq_iff_iff, isDigitByte_iff, isDigit_iff, Utf8.toNat_ofNat_of_lt (by omega)]

/-- Only digits have bytes that are digits. -/
theorem all_isDigitByte (text : List Char) :
    (Utf8.encode text).all isDigitByte = text.all Decimal.isDigit := by
  induction text with
  | nil => rfl
  | cons c rest ih =>
      rw [Utf8.encode_cons, List.all_append, ih, List.all_cons]
      congr 1
      by_cases hc : c.toNat < 0x80
      · rw [Utf8.encodeChar, if_pos hc, List.all_cons, List.all_nil, Bool.and_true,
          isDigitByte_ofNat hc]
      · have hchar : Decimal.isDigit c = false := by
          rw [Bool.eq_false_iff, Ne, isDigit_iff]
          omega
        obtain ⟨b, hb⟩ := List.exists_mem_of_length_pos
          (length_encodeChar c ▸ c.utf8Size_pos : 0 < (Utf8.encodeChar c).length)
        rw [hchar, List.all_eq_false]
        refine ⟨b, hb, ?_⟩
        have hlarge := Utf8.le_of_mem_encodeChar (by omega) b hb
        rw [isDigitByte_iff]
        omega

theorem sub_digitValue {c : Char} (h : Decimal.isDigit c = true) :
    UInt8.ofNat c.toNat - 0x30 = UInt8.ofNat (Decimal.digitValue c) := by
  obtain ⟨n, hn⟩ := Nat.exists_eq_add_of_le ((isDigit_iff c).mp h).1
  have hvalue : Decimal.digitValue c = n := by
    rw [Decimal.digitValue, hn]
    exact Nat.add_sub_cancel_left 0x30 n
  rw [hvalue, hn, UInt8.ofNat_add, UInt8.add_comm]
  exact UInt8.add_sub_cancel ..

theorem byteLength_eq_length (h : ∀ c ∈ text, c.toNat < 0x80) : byteLength text = text.length := by
  induction text with
  | nil => rfl
  | cons c rest ih =>
      obtain ⟨hc, hrest⟩ := List.forall_mem_cons.mp h
      rw [byteLength, ih hrest, utf8Size_eq_one hc, List.length_cons, Nat.add_comm]

theorem lt_of_isDigit {c : Char} (h : Decimal.isDigit c = true) : c.toNat < 0x80 := by
  have hdigit := (isDigit_iff c).mp h
  omega

/-- Two bytes that are digits are two characters. -/
theorem digitCount?_eq (text : List Char) :
    (digitCount? text : Slicing (Defect α) _) = sure (FormatSpec.digitCount? text) := by
  unfold digitCount?
  dsimp only
  rw [all_isDigitByte, ← byteLength_eq]
  cases hdigits : text.all Decimal.isDigit with
  | true =>
      -- Digits are characters of one byte, so as many bytes as digits are counted.
      rw [byteLength_eq_length fun c hc => lt_of_isDigit (List.all_eq_true.mp hdigits c hc)]
      match text, hdigits with
      | [], _ => rfl
      | [_], _ => rfl
      | [a, b], hdigits =>
          obtain ⟨ha, hb⟩ : Decimal.isDigit a = true ∧ Decimal.isDigit b = true := by
            simpa using hdigits
          have hbytes : Utf8.encode [a, b] = [UInt8.ofNat a.toNat, UInt8.ofNat b.toNat] := by
            simp [Utf8.encode, Utf8.encodeChar, lt_of_isDigit ha, lt_of_isDigit hb]
          rw [hbytes, FormatSpec.digitCount?, ha, hb, ← sub_digitValue ha, ← sub_digitValue hb]
          rfl
      | _ :: _ :: _ :: _, _ => rfl
  | false =>
      rw [Bool.not_false, Bool.or_true, if_pos rfl]
      unfold FormatSpec.digitCount?
      split
      next a b =>
        rw [if_neg (by simpa using hdigits)]
        rfl
      next => rfl

theorem not_mem_of_splitAtFirst? {mark : Char} (h : Decimal.splitAtFirst? mark text = none) :
    mark ∉ text := by
  intro hmem
  obtain ⟨front, back, rfl, hfront⟩ := List.eq_append_cons_of_mem hmem
  rw [Decimal.splitAtFirst?_append hfront] at h
  cases h

/-- The letter `Y` is found behind `X` or in front of it, and either position is one to cut at. -/
theorem axisTexts?_eq (command text : List Char) :
    (axisTexts? command text : Slicing (Defect α) _) =
      sure (FormatSpec.axisTexts? command text) := by
  unfold axisTexts? FormatSpec.axisTexts?
  rw [find?_mark, find?_mark]
  cases hx : Decimal.splitAtFirst? 'X' text with
  | none => rfl
  | some parts =>
      obtain ⟨front, after⟩ := parts
      obtain ⟨rfl, -⟩ := Decimal.splitAtFirst?_eq_some_iff.mp hx
      dsimp only [Option.map_some]
      -- Letters behind `X` do not matter if there is a `Y` in front of it.
      by_cases hfront : 'Y' ∈ front
      · obtain ⟨first, second, rfl, hfirst⟩ := List.eq_append_cons_of_mem hfront
        have hsplit := Decimal.splitAtFirst?_append hfirst (second ++ 'X' :: after)
        rw [← List.cons_append, ← List.append_assoc] at hsplit
        have hless : byteLength first < byteLength (first ++ 'Y' :: second) := by
          rw [byteLength_append, byteLength]
          exact Nat.lt_add_of_pos_right (Nat.add_pos_left (by decide) _)
        rw [hsplit, if_pos (by simp)]
        exact if_pos hless
      · rw [if_neg (by simpa using hfront)]
        cases hy : Decimal.splitAtFirst? 'Y' after with
        | none =>
            have hnone : 'Y' ∉ front ++ 'X' :: after := by
              simp [hfront, not_mem_of_splitAtFirst? hy]
            rw [Decimal.splitAtFirst?_eq_none hnone]
            rfl
        | some parts =>
            obtain ⟨xText, yText⟩ := parts
            obtain ⟨rfl, hxText⟩ := Decimal.splitAtFirst?_eq_some_iff.mp hy
            have hsplit := Decimal.splitAtFirst?_append
              (show 'Y' ∉ front ++ 'X' :: xText by simp [hfront, hxText]) yText
            have hbehind := behind_letter (ε := Defect α) (show 'Y'.toNat < 0x80 by decide)
              (front ++ 'X' :: xText) yText
            rw [List.append_assoc, List.cons_append] at hsplit hbehind
            have horder : byteLength front ≤ byteLength (front ++ 'X' :: xText) := by
              rw [byteLength_append]
              exact Nat.le_add_right _ _
            rw [hsplit]
            dsimp only [Option.map_some]
            rw [if_neg (Nat.not_lt.mpr horder), between_letter (by decide), hbehind]
            rfl

/-! ## Commands behind their names -/

section Named

variable {first second : Char} (hname : byteLength [first, second] = 2)
include hname

theorem behind_name (rest : List Char) :
    (behind 2 (first :: second :: rest) : Slicing ε _) = pure rest :=
  hname ▸ behind_append [first, second] rest

theorem before_name (rest : List Char) :
    (before 2 (first :: second :: rest) : Slicing ε _) = pure [first, second] :=
  hname ▸ before_append [first, second] rest

theorem format?_eq (rest : List Char) : (format? (first :: second :: rest) : Slicing (Defect α) _) =
    sure (FormatSpec.read? (first :: second :: rest) rest) := by
  unfold format? FormatSpec.read?
  simp only [behind_name hname, pure_bind, sure_bind, sure_pure, modifiers?_eq, axisTexts?_eq,
    digitCount?_eq]

theorem attributeOf_eq (rest : List Char) : (attributeOf (first :: second :: rest) :
    Slicing (Defect α) (Block α)) = pure (attributeBlock (match [first, second] with
      | ['T', 'F'] => .file
      | ['T', 'A'] => .aperture
      | ['T', 'O'] => .object
      | _ => .delete) rest) := by
  unfold attributeOf
  rw [before_name hname, behind_name hname]
  rfl

end Named

/-! ## Aperture definitions -/

theorem number?_eq (text : List Char) :
    (number? text : Slicing (Defect α) _) = sure (Definition.number? text) := by
  unfold number? Definition.number?
  rw [find?_eq]
  simp only [Bool.not_not]
  cases htemplate : (text.dropWhile Decimal.isDigit).isEmpty with
  | true => rfl
  | false =>
      simp only [Bool.false_eq_true, if_false, before_takeWhile, behind_takeWhile, pure_bind]
      cases Decimal.readWord32? (text.takeWhile Decimal.isDigit) with
      | none => rfl
      | some number =>
          dsimp only
          split <;> rfl

variable [Scalar α]

/-- As many parameters are taken as there are. -/
theorem shape?_eq (template : List Char) (params : List α) :
    (shape? template params : Slicing (Defect α) _) = sure (Definition.shape? template params) := by
  unfold Definition.shape?
  split
  next => cases params <;> rfl
  next =>
    match params with
    | [] => rfl
    | [_] => rfl
    | _ :: _ :: _ => rfl
  next =>
    match params with
    | [] => rfl
    | [_] => rfl
    | _ :: _ :: _ => rfl
  next =>
    match params with
    | [] => rfl
    | [_] => rfl
    | diameter :: count :: rest =>
        change (if Scalar.ceil count == count then _ else _) = sure (if _ then _ else _)
        split
        · cases rest <;> rfl
        · rfl
  next hC hR hO hP =>
    unfold shape?
    rw [if_neg hC, if_neg (not_or.mpr ⟨hR, hO⟩), if_neg hP]
    rfl

section Named

variable {first second : Char} (hname : byteLength [first, second] = 2)
include hname

theorem definition?_eq (rest : List Char) :
    (definition? (first :: second :: rest) : Slicing (Defect α) _) =
      sure (Definition.read? (first :: second :: rest) rest) := by
  unfold definition? Definition.read?
  simp only [behind_name hname, pure_bind]
  split
  next text =>
    simp only [number?_eq, shape?_eq, sure_bind]
    refine bind_congr fun number => bind_congr fun params => bind_congr fun shape =>
      bind_congr fun hole => ?_
    cases Aperture.make number.1 shape.1 hole <;> rfl
  next => simp

end Named

/-! ## Image transforms -/

theorem value?_eq {key : Char} (hkey : key.toNat < 0x80) (text : List Char) :
    (value? key text : Slicing (Defect α) _) = pure (ImageTransform.value? key text) := by
  unfold value? ImageTransform.value?
  rw [find?_mark]
  cases hsplit : Decimal.splitAtFirst? key text with
  | none => rfl
  | some parts =>
      obtain ⟨front, after⟩ := parts
      obtain ⟨rfl, -⟩ := Decimal.splitAtFirst?_eq_some_iff.mp hsplit
      simp only [Option.map_some, behind_letter hkey, pure_bind, find?_getD, before_takeWhile]
      rfl

theorem isIdentity_eq (identity : α) (text : List Char) :
    (isIdentity identity text : Slicing (Defect α) _) =
      pure (ImageTransform.isIdentity identity text) := by
  unfold isIdentity ImageTransform.isIdentity
  rw [value?_eq (by decide), value?_eq (by decide), pure_bind, pure_bind]
  cases ((ImageTransform.value? 'A' text).getD identity == identity) <;> rfl

/-! ## Names of commands -/

theorem name_eq {first second : Char} (hname : byteLength [first, second] = 2) (rest : List Char) :
    name (first :: second :: rest) = [first, second] := by
  have hsplit : splitAt? 2 (first :: second :: rest) = some ([first, second], rest) :=
    hname ▸ splitAt?_append [first, second] rest
  rw [name, hsplit]
  rfl

theorem exists_of_name {first second : Char} (h : name command = [first, second]) :
    ∃ rest, command = first :: second :: rest := by
  unfold name at h
  cases hsplit : splitAt? 2 command with
  | none =>
      rw [hsplit] at h
      exact ⟨[], h⟩
  | some parts =>
      rw [hsplit] at h
      obtain ⟨front, back⟩ := parts
      obtain rfl : front = [first, second] := h
      exact ⟨back, (splitAt?_eq_some_iff.mp hsplit).1⟩

theorem units?_eq (rest : List Char) : (units? ('M' :: 'O' :: rest) : Slicing (Defect α) _) =
    sure (Extended.read? ('M' :: 'O' :: rest)) := by
  unfold units?
  split
  next h =>
    cases h
    rfl
  split
  next h =>
    cases h
    rfl
  next hmm hin =>
    simp only [Extended.read?]
    split
    · exact (hmm rfl).elim
    · exact (hin rfl).elim
    · rfl

theorem polarity?_eq (rest : List Char) : (polarity? ('L' :: 'P' :: rest) : Slicing (Defect α) _) =
    sure (Extended.read? ('L' :: 'P' :: rest)) := by
  unfold polarity?
  split
  next h =>
    cases h
    rfl
  split
  next h =>
    cases h
    rfl
  next hdark hclear =>
    simp only [Extended.read?]
    split
    · exact (hdark rfl).elim
    · exact (hclear rfl).elim
    · rfl

section Named

variable {first second : Char} (hname : byteLength [first, second] = 2)
include hname

theorem imageTransform?_eq {rest : List Char} {harmless : Bool}
    (h : isHarmless [first, second] rest = (pure harmless : Slicing (Defect α) _)) :
    imageTransform? (first :: second :: rest) =
      sure (legacy? (α := α) (first :: second :: rest) harmless) := by
  unfold imageTransform?
  rw [before_name hname, behind_name hname, pure_bind, pure_bind, h, pure_bind]

end Named

/-- The old commands differ in what is harmless behind their names. -/
theorem imageTransform?_read {first second : Char} (h : [first, second] ∈ [['I', 'P'], ['L', 'N'],
    ['I', 'N'], ['O', 'F'], ['A', 'S'], ['M', 'I'], ['S', 'F']]) (rest : List Char) :
    (imageTransform? (first :: second :: rest) : Slicing (Defect α) _) =
      sure (Extended.read? (first :: second :: rest)) := by
  have hharmless : ∀ name ∈ [['L', 'N'], ['I', 'N']],
      isHarmless name rest = (pure true : Slicing (Defect α) _) := by simp [isHarmless]
  simp only [List.mem_cons, List.cons.injEq, and_true, List.not_mem_nil, or_false] at h
  rcases h with ⟨rfl, rfl⟩ | ⟨rfl, rfl⟩ | ⟨rfl, rfl⟩ | ⟨rfl, rfl⟩ | ⟨rfl, rfl⟩ | ⟨rfl, rfl⟩ |
    ⟨rfl, rfl⟩
  · exact imageTransform?_eq rfl rfl
  · exact imageTransform?_eq rfl (hharmless _ (by simp))
  · exact imageTransform?_eq rfl (hharmless _ (by simp))
  · exact imageTransform?_eq rfl (isIdentity_eq 0.0 rest)
  · exact imageTransform?_eq rfl rfl
  · exact imageTransform?_eq rfl (isIdentity_eq 0.0 rest)
  · exact imageTransform?_eq rfl (isIdentity_eq 1.0 rest)

/-- Reading an extended command by slices comes to the same. -/
theorem extended?_eq (command : List Char) :
    (extended? command : Slicing (Defect α) _) = sure (Extended.read? command) := by
  unfold extended?
  split
  next hname =>
    obtain ⟨rest, rfl⟩ := exists_of_name hname
    rw [format?_eq rfl]
    exact sure_map (FormatSpec.read? _ rest) fun format => Extended.block (.format format)
  next hname =>
    obtain ⟨rest, rfl⟩ := exists_of_name hname
    exact units?_eq rest
  next hname =>
    obtain ⟨rest, rfl⟩ := exists_of_name hname
    rw [definition?_eq rfl]
    exact sure_map (Definition.read? _ rest) Extended.define
  next hname =>
    obtain ⟨rest, rfl⟩ := exists_of_name hname
    exact polarity?_eq rest
  iterate 4
    next hname =>
      obtain ⟨rest, rfl⟩ := exists_of_name hname
      rw [attributeOf_eq rfl]
      rfl
  iterate 2
    next hname =>
      obtain ⟨rest, rfl⟩ := exists_of_name hname
      rfl
  iterate 7
    next hname =>
      obtain ⟨rest, rfl⟩ := exists_of_name hname
      exact imageTransform?_read (by simp) rest
  next =>
    unfold Extended.read?
    split
    all_goals first | rfl | (exfalso; solve_by_elim [name_eq])

end BoardMill.Gerber.Sliced
