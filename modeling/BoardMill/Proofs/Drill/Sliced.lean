import BoardMill.Drill.Sliced
import BoardMill.Proofs.Coordinate.Sliced

/-! # Slices of drill programs

A tool definition is cut at the ends of its number and its size, and behind the letter of its shape.
That letter is a character of one byte, for otherwise the line has been given up before the cut.
-/

namespace BoardMill.Drill

open Slicing

variable {α ε : Type} [Scalar α]

theorem lt_of_isCapital {c : Char} (h : isCapital c = true) : c.toNat < 0x80 := by
  rw [isCapital, Bool.and_eq_true, decide_eq_true_iff, decide_eq_true_iff] at h
  have hle : c.toNat ≤ 'Z'.toNat := UInt32.le_iff_toNat_le.mp h.2
  exact Nat.lt_of_le_of_lt hle (by decide)

theorem byteLength_takeWhile_lt (p : Char → Bool) (text : List Char) :
    byteLength (text.takeWhile p) < byteLength text ↔ text.dropWhile p ≠ [] := by
  have hparts := congrArg byteLength (List.takeWhile_append_dropWhile (p := p) (l := text))
  rw [byteLength_append] at hparts
  cases hmore : text.dropWhile p with
  | nil =>
      rw [hmore, byteLength] at hparts
      simp [← hparts]
  | cons c more =>
      have hsize := c.utf8Size_pos
      rw [hmore, byteLength] at hparts
      exact iff_of_true (by omega) (List.cons_ne_nil c more)

theorem definitionSliced?_eq (line : List Char) :
    (definitionSliced? line : Slicing ε (Option (Nat × Tool α))) = pure (definition? line) := by
  unfold definitionSliced? definition?
  split
  next text =>
    rw [find?_eq]
    simp only [Bool.not_not]
    cases hshape : text.dropWhile Decimal.isDigit with
    | nil => rfl
    | cons shape after =>
      simp only [List.isEmpty_cons, Bool.false_eq_true, if_false, before_takeWhile,
        behind_takeWhile, pure_bind, hshape]
      cases Decimal.readWord32? (text.takeWhile Decimal.isDigit) with
      | none => rfl
      | some number =>
        cases hcapital : isCapital shape with
        | false => rfl
        | true =>
          -- From here on the shape is known to be a character of one byte.
          have hafter := behind_letter (ε := ε) (lt_of_isCapital hcapital)
            (text.takeWhile Decimal.isDigit) after
          rw [← hshape, List.takeWhile_append_dropWhile] at hafter
          have hstop := find?_getD (!isSizeChar ·) after
          simp only [Bool.not_not] at hstop
          dsimp only
          rw [hafter, pure_bind]
          simp only [hstop, behind_takeWhile, before_takeWhile, pure_bind]
          cases hmore : after.dropWhile isSizeChar with
          | nil =>
            have hend := mt (byteLength_takeWhile_lt isSizeChar after).mp (not_not_intro hmore)
            rw [if_neg (by decide), if_neg hend]
            cases (Decimal.readPlain? (after.takeWhile isSizeChar) : Option α) <;> rfl
          | cons c more =>
            have hless := (byteLength_takeWhile_lt isSizeChar after).mpr (by simp [hmore])
            rw [if_neg (by decide), if_pos hless]
            cases hc : isCapital c with
            | false => simp [hc]
            | true =>
              cases (Decimal.readPlain? (after.takeWhile isSizeChar) : Option α) <;> simp [hc]
  next => simp

theorem coordinateSliced?_eq (digits : DigitCount) (text : List Char) :
    (coordinateSliced? digits text : Slicing ε (Option α)) = pure (coordinate? digits text) :=
  DigitCount.readSliced?_eq ..

theorem holeSliced?_eq (digits : DigitCount) (line : List Char) :
    (holeSliced? digits line : Slicing ε (Option (Step α))) = pure (hole? digits line) := by
  unfold holeSliced? hole?
  split
  next text =>
    simp only [coordinateSliced?_eq, pure_bind]
    cases Decimal.splitAtFirst? 'Y' text with
    | none => rfl
    | some parts =>
      obtain ⟨xText, yText⟩ := parts
      simp only [Option.bind_eq_bind, Option.bind_some]
      cases (coordinate? digits xText : Option α) with
      | none => rfl
      | some x => cases (coordinate? digits yText : Option α) <;> rfl
  next => simp

namespace Reading

theorem toolLineSliced_eq (r : Reading α) (line : List Char) :
    r.toolLineSliced line = sure (r.toolLine line) := by
  rw [toolLineSliced, toolLine, definitionSliced?_eq, pure_bind]
  cases (definition? line : Option (Nat × Tool α)) with
  | some found => rfl
  | none => cases (change? line : Option (Step α)) <;> rfl

theorem holeLineSliced_eq (r : Reading α) (line : List Char) :
    r.holeLineSliced line = sure (r.holeLine line) := by
  rw [holeLineSliced, holeLine, holeSliced?_eq, pure_bind]
  cases (hole? r.digits line : Option (Step α)) <;> rfl

theorem lineSliced_eq (r : Reading α) (text : List Char) :
    r.lineSliced text = sure (r.line text) := by
  unfold lineSliced line
  simp only [toolLineSliced_eq, holeLineSliced_eq]
  split_ifs
  any_goals rfl
  case pos =>
    rw [sure_bind]
    rfl
  case neg =>
    split
    · rfl
    · rfl
    next => simp

end Reading

namespace Program

theorem readSlicedFrom_eq (number : Nat) (r : Reading α) (lines : List (Option (List Char))) :
    readSlicedFrom number r lines = sure (readFrom number r lines) := by
  induction lines generalizing number r with
  | nil => rfl
  | cons line rest ih =>
      cases line with
      | none =>
          rw [readSlicedFrom, readFrom]
          split <;> rfl
      | some text =>
          simp only [readSlicedFrom, readFrom, Reading.lineSliced_eq]
          split
          · rfl
          · cases r.line (directive text) with
            | ok r => exact ih (number + 1) r
            | error defect => rfl

theorem ofTextSliced?_eq (text : List Char) :
    (ofTextSliced? text : Slicing Fault (Program α)) = sure (ofText? text) :=
  readSlicedFrom_eq 1 .start _

theorem ofBytesSliced?_eq (bytes : List UInt8) :
    (ofBytesSliced? bytes : Slicing Fault (Program α)) = sure (ofBytes? bytes) :=
  readSlicedFrom_eq 1 .start _

end Program

end BoardMill.Drill
