import BoardMill.Proofs.Decimal.Grammar
import BoardMill.Proofs.Gerber.ReaderSteps
import BoardMill.Proofs.Splits

/-! # The command for the coordinate format

Behind its name, the command has letters for the zeros and the notation, then `X` and two digits,
then `Y` and two digits. The letters end at the first other character, but the reader looks for `X`
from there on, wherever it is: what stands in between, the gap, is passed over.
-/

namespace BoardMill.Gerber

open Decimal (isDigit digitValue splitAtFirst?_append splitAtFirst?_eq_some_iff)
open Outcome

namespace FormatSpec

/-- The letters in front of the digits. `A` is for absolute coordinates. -/
def isModifier (c : Char) : Bool := c == 'L' || c == 'T' || c == 'A'

/-- The zeros that a letter leaves out. -/
def omission? : Char → Option ZeroOmission
  | 'L' => some .leading
  | 'T' => some .trailing
  | _ => none

/-- The zeros that the last of some letters leaves out, or those left out before. -/
def omission (zeros : ZeroOmission) (letters : List Char) : ZeroOmission :=
  (letters.filterMap omission?).getLast?.getD zeros

/-- Two digits and the counts they stand for. -/
inductive WritesCount : List Char → DigitCount → Prop
  | digits {a b : Char} (ha : isDigit a = true) (hb : isDigit b = true) :
    WritesCount [a, b] ⟨UInt8.ofNat (digitValue a), UInt8.ofNat (digitValue b)⟩

/-- The grammar of the command behind its name, with a gap between the letters and the digits. -/
inductive Writes (gap : List Char) : List Char → CoordinateFormat → Prop
  | parts {letters x y : List Char} {xCount yCount : DigitCount}
    (hletters : ∀ c ∈ letters, isModifier c = true) (hx : WritesCount x xCount)
    (hy : WritesCount y yCount) :
    Writes gap (letters ++ (gap ++ 'X' :: (x ++ 'Y' :: y)))
      ⟨omission .leading letters, xCount, yCount⟩

/-- What may stand in the gap: it does not go on with the letters, and has no key of the digits. -/
structure IsGap (gap : List Char) : Prop where
  head : ∀ c ∈ gap.head?, isModifier c = false ∧ c ≠ 'I'
  x : 'X' ∉ gap
  y : 'Y' ∉ gap

theorem isGap_nil : IsGap [] := ⟨nofun, List.not_mem_nil, List.not_mem_nil⟩

variable {α : Type} {zeros : ZeroOmission} {letters gap rest text command x y : List Char}

theorem WritesCount.mark_not_mem {mark : Char} {count : DigitCount} (h : WritesCount text count)
    (hmark : isDigit mark = false) : mark ∉ text := by
  intro hmem
  cases h with
  | digits ha hb =>
      rcases List.mem_pair.mp hmem with rfl | rfl
      · exact Bool.false_ne_true (hmark.symm.trans ha)
      · exact Bool.false_ne_true (hmark.symm.trans hb)

/-! ## The parts of the command -/

theorem omission_cons (c : Char) :
    omission zeros (c :: letters) = omission ((omission? c).getD zeros) letters := by
  unfold omission
  cases h : omission? c with
  | none => rw [List.filterMap_cons_none h, Option.getD_none]
  | some _ => rw [List.filterMap_cons_some h, List.getLast?_cons, Option.getD_some, Option.getD_some]

theorem modifiers?_cons {c : Char} (h : isModifier c = true) :
    (modifiers? zeros (c :: rest) : Except (Defect α) _) =
      modifiers? ((omission? c).getD zeros) rest := by
  have hc : (c = 'L' ∨ c = 'T') ∨ c = 'A' := by simpa [isModifier] using h
  rcases hc with (rfl | rfl) | rfl <;> rfl

theorem modifiers?_append (h : ∀ c ∈ letters, isModifier c = true) :
    (modifiers? zeros (letters ++ rest) : Except (Defect α) _) =
      modifiers? (omission zeros letters) rest := by
  induction letters generalizing zeros with
  | nil => rfl
  | cons c letters ih =>
      obtain ⟨hc, hletters⟩ := List.forall_mem_cons.mp h
      rw [List.cons_append, modifiers?_cons hc, ih hletters, omission_cons]

/-- The letters end at the first other character; there the notation may not be incremental. -/
theorem modifiers?_of_head (h : ∀ c ∈ rest.head?, isModifier c = false) :
    (modifiers? zeros rest : Except (Defect α) _) =
      if rest.head? = some 'I' then .error .incrementalFormat else .ok (zeros, rest) := by
  unfold modifiers?
  split
  next => cases h 'L' rfl
  next => cases h 'T' rfl
  next => cases h 'A' rfl
  next => rfl
  next hincremental =>
    rw [if_neg]
    · rfl
    · intro hhead
      obtain ⟨tail, rfl⟩ := List.head?_eq_some_iff.mp hhead
      exact hincremental tail rfl

theorem isModifier_of_head?_dropWhile {c : Char} (h : (text.dropWhile isModifier).head? = some c) :
    isModifier c = false := by
  have hhead := List.head?_dropWhile_not isModifier text
  rwa [h] at hhead

/-- The letters of a text are those in front of the first other character. -/
theorem modifiers?_eq (text : List Char) :
    (modifiers? zeros text : Except (Defect α) _) =
      if (text.dropWhile isModifier).head? = some 'I' then .error .incrementalFormat
      else .ok (omission zeros (text.takeWhile isModifier), text.dropWhile isModifier) := by
  have hletters : ∀ c ∈ text.takeWhile isModifier, isModifier c = true :=
    fun c => List.mem_takeWhile_imp
  rw [← modifiers?_of_head fun c => isModifier_of_head?_dropWhile, ← modifiers?_append hletters,
    List.takeWhile_append_dropWhile]

theorem digitCount?_eq_ok_iff {count : DigitCount} :
    (digitCount? text : Except (Defect α) _) = .ok count ↔ WritesCount text count := by
  constructor
  · intro h
    unfold digitCount? at h
    split at h
    next a b =>
      split at h
      next hdigits =>
        obtain ⟨ha, hb⟩ := (Bool.and_eq_true _ _).mp hdigits
        cases h
        exact .digits ha hb
      next => cases h
    next => cases h
  · intro h
    cases h with
    | digits ha hb => exact if_pos ((Bool.and_eq_true _ _).mpr ⟨ha, hb⟩)

/-- `X` is looked for in all of the text, `Y` behind it. -/
theorem axisTexts?_eq_ok_iff :
    (axisTexts? command text : Except (Defect α) _) = .ok (x, y) ↔
      ∃ gap, text = gap ++ 'X' :: (x ++ 'Y' :: y) ∧ 'X' ∉ gap ∧ 'Y' ∉ gap ∧ 'Y' ∉ x := by
  constructor
  · intro h
    unfold axisTexts? at h
    split at h
    next => cases h
    next gap after hx =>
      obtain ⟨rfl, hgapX⟩ := splitAtFirst?_eq_some_iff.mp hx
      split at h
      next => cases h
      next hgapY =>
        split at h
        next => cases h
        next parts hy =>
          cases h
          obtain ⟨rfl, hxText⟩ := splitAtFirst?_eq_some_iff.mp hy
          exact ⟨gap, rfl, hgapX, fun hmem => hgapY (List.contains_iff_mem.mpr hmem), hxText⟩
  · rintro ⟨gap, rfl, hgapX, hgapY, hx⟩
    have hcontains : ¬ gap.contains 'Y' = true := fun h => hgapY (List.contains_iff_mem.mp h)
    simp only [axisTexts?, splitAtFirst?_append hgapX, if_neg hcontains, splitAtFirst?_append hx]
    rfl

/-! ## What is accepted -/

theorem IsGap.head_append (h : IsGap gap) :
    ∀ c ∈ (gap ++ 'X' :: rest).head?, isModifier c = false ∧ c ≠ 'I' := by
  intro c hc
  cases gap with
  | nil =>
      cases hc
      exact ⟨rfl, by decide⟩
  | cons => exact h.head c hc

/-- The command is accepted exactly if it follows the grammar with a gap. -/
theorem read?_eq_ok_iff {format : CoordinateFormat} :
    (read? command text : Except (Defect α) _) = .ok format ↔
      ∃ gap, IsGap gap ∧ Writes gap text format := by
  constructor
  · intro h
    obtain ⟨⟨zeros, rest⟩, hletters, h⟩ := bind_eq_ok.mp h
    obtain ⟨⟨x, y⟩, htexts, h⟩ := bind_eq_ok.mp h
    obtain ⟨xCount, hx, h⟩ := bind_eq_ok.mp h
    obtain ⟨yCount, hy, h⟩ := bind_eq_ok.mp h
    cases h
    rw [modifiers?_eq] at hletters
    split at hletters
    next => cases hletters
    next habsolute =>
      cases hletters
      obtain ⟨gap, hsplit, hgapX, hgapY, -⟩ := axisTexts?_eq_ok_iff.mp htexts
      refine ⟨gap, ⟨fun c hc => ?_, hgapX, hgapY⟩, ?_⟩
      · have hhead : (text.dropWhile isModifier).head? = some c := by
          rw [hsplit, List.head?_append, hc, Option.some_or]
        refine ⟨isModifier_of_head?_dropWhile hhead, ?_⟩
        rintro rfl
        exact habsolute hhead
      · have hwrites : Writes gap (text.takeWhile isModifier ++ (gap ++ 'X' :: (x ++ 'Y' :: y)))
            ⟨omission .leading (text.takeWhile isModifier), xCount, yCount⟩ :=
          .parts (fun c => List.mem_takeWhile_imp) (digitCount?_eq_ok_iff.mp hx)
            (digitCount?_eq_ok_iff.mp hy)
        rwa [← hsplit, List.takeWhile_append_dropWhile] at hwrites
  · rintro ⟨gap, hgap, hwrites⟩
    cases hwrites with
    | @parts letters x y xCount yCount hletters hx hy =>
        have hhead : ∀ c ∈ (gap ++ 'X' :: (x ++ 'Y' :: y)).head?, isModifier c = false :=
          fun c hc => (hgap.head_append c hc).1
        obtain ⟨htake, hdrop⟩ := takeWhile_dropWhile_append hletters hhead
        have habsolute : ¬ (gap ++ 'X' :: (x ++ 'Y' :: y)).head? = some 'I' :=
          fun h => (hgap.head_append 'I' h).2 rfl
        have hmodifiers : (modifiers? .leading (letters ++ (gap ++ 'X' :: (x ++ 'Y' :: y))) :
            Except (Defect α) _) = .ok (omission .leading letters, gap ++ 'X' :: (x ++ 'Y' :: y)) := by
          rw [modifiers?_eq, htake, hdrop, if_neg habsolute]
        refine bind_eq_ok.mpr ⟨_, hmodifiers, bind_eq_ok.mpr ⟨(x, y), ?_, ?_⟩⟩
        · exact axisTexts?_eq_ok_iff.mpr
            ⟨gap, rfl, hgap.x, hgap.y, hx.mark_not_mem rfl⟩
        · exact bind_eq_ok.mpr ⟨xCount, digitCount?_eq_ok_iff.mpr hx,
            bind_eq_ok.mpr ⟨yCount, digitCount?_eq_ok_iff.mpr hy, rfl⟩⟩

theorem Writes.gap_eq_nil_iff {format : CoordinateFormat} (hgap : IsGap gap)
    (h : Writes gap text format) :
    gap = [] ↔ (text.dropWhile isModifier).head? = some 'X' := by
  cases h with
  | parts hletters hx hy =>
      rw [(takeWhile_dropWhile_append hletters fun c hc => (hgap.head_append c hc).1).2]
      cases gap with
      | nil => exact iff_of_true rfl rfl
      | cons c gap =>
          refine iff_of_false (List.cons_ne_nil c gap) fun hhead => hgap.x ?_
          cases hhead
          exact List.mem_cons_self

theorem read?_of_incremental (h : (text.dropWhile isModifier).head? = some 'I') :
    (read? command text : Except (Defect α) _) = .error .incrementalFormat := by
  rw [read?, modifiers?_eq, if_pos h]
  rfl

end FormatSpec

theorem Reading.extended_format [Scalar α] (r : Reading α) (line : Nat) (text : List Char) :
    r.extended line ('F' :: 'S' :: text) =
      (FormatSpec.read? ('F' :: 'S' :: text) text).map fun format =>
        { r.push line (.format format) with format := some format } := by
  have hcommand : (Extended.read? ('F' :: 'S' :: text) : Except (Defect α) (Extended α)) =
      (do return .block (.format (← FormatSpec.read? ('F' :: 'S' :: text) text))) := rfl
  rw [extended, hcommand]
  cases FormatSpec.read? ('F' :: 'S' :: text) text <;> rfl

open FormatSpec (IsGap Writes isModifier) in
/-- The command for the coordinate format is accepted exactly if it is letters, a gap, and the
digits behind `X` and `Y`; it then gives the format that the letters and the digits say. Without a
gap, it is the grammar, which is so exactly if `X` is the first character that is none of the
letters. What is not accepted is refused on the line of the command. -/
theorem Document.format_commands_gapped [Numeral α] {r : Reading α} (hr : r.ended = false)
    (lastLine line : Nat) (text : List Char) (rest : List Token) :
    let command := 'F' :: 'S' :: text
    let read := readFrom lastLine r (⟨line, .extended, command⟩ :: rest)
    (∀ format, (FormatSpec.read? command text : Except (Defect α) _) = .ok format ↔
      ∃ gap, IsGap gap ∧ Writes gap text format) ∧
    (∀ gap format, IsGap gap → Writes gap text format →
      (gap = [] ↔ (text.dropWhile isModifier).head? = some 'X') ∧
      read = readFrom lastLine { r.push line (.format format) with format := some format } rest) ∧
    ((∀ gap format, IsGap gap → ¬ Writes gap text format) →
      ∃ reason, read = .error (.malformed line reason)) ∧
    ((text.dropWhile isModifier).head? = some 'I' →
      read = .error (.malformed line "FS: incremental notation is not supported")) := by
  intro command read
  have hread (format : CoordinateFormat) :
      (FormatSpec.read? command text : Except (Defect α) _) = .ok format ↔
        ∃ gap, IsGap gap ∧ Writes gap text format := FormatSpec.read?_eq_ok_iff
  have hrefused {defect : Defect α} (h : FormatSpec.read? command text = .error defect) :
      read = .error (.malformed line defect.message) := by
    have htoken : r.token ⟨line, .extended, command⟩ = .error defect :=
      (r.extended_format line text).trans (by rw [h]; rfl)
    exact readFrom_cons_of_error hr htoken lastLine rest
  refine ⟨hread, fun gap format hgap hwrites => ⟨hwrites.gap_eq_nil_iff hgap, ?_⟩, fun hnone => ?_,
    fun hincremental => ?_⟩
  · refine readFrom_cons_of_ok hr ?_ lastLine rest
    exact (r.extended_format line text).trans (by rw [(hread format).mpr ⟨gap, hgap, hwrites⟩]; rfl)
  · cases h : (FormatSpec.read? command text : Except (Defect α) _) with
    | error defect => exact ⟨_, hrefused h⟩
    | ok format =>
        obtain ⟨gap, hgap, hwrites⟩ := (hread format).mp h
        exact absurd hwrites (hnone gap format hgap)
  · exact hrefused (FormatSpec.read?_of_incremental hincremental)

/-- A command without a gap. -/
theorem Document.format_commands_gapped_trailing :
    let format : CoordinateFormat := ⟨.trailing, ⟨3, 5⟩, ⟨3, 5⟩⟩
    let r : Reading Float := .start
    let rest : List Token := [⟨2, .word, "M02".toList⟩]
    FormatSpec.Writes [] "TAX35Y35".toList format ∧
      Document.readFrom 2 r (⟨1, .extended, "FSTAX35Y35".toList⟩ :: rest) =
        Document.readFrom 2 { r.push 1 (.format format) with format := some format } rest := by
  intro format r rest
  have hletters : ∀ c ∈ "TA".toList, FormatSpec.isModifier c = true := List.all_eq_true.mp rfl
  have hcount : FormatSpec.WritesCount "35".toList ⟨3, 5⟩ := .digits rfl rfl
  have hwrites : FormatSpec.Writes [] "TAX35Y35".toList format :=
    .parts hletters hcount hcount
  have hr : r.ended = false := rfl
  exact ⟨hwrites, ((Document.format_commands_gapped hr 2 1 "TAX35Y35".toList rest).2.1
    [] format FormatSpec.isGap_nil hwrites).2⟩

/-- An `I` that does not stand directly behind the letters is passed over. -/
theorem Document.incremental_format_accepted :
    let text := "%FSL IX24Y24*%\nM02*\n".toList
    (∀ format, ¬ FormatSpec.Writes [] "L IX24Y24".toList format) ∧
      ∃ d : Document Float, Document.ofText? text = .ok d ∧
        (d.blocks == [⟨1, .format ⟨.leading, ⟨2, 4⟩, ⟨2, 4⟩⟩⟩]) = true := by
  intro text
  refine ⟨fun format hwrites => ?_, exists_of_any_toOption (by decide +kernel)⟩
  have hhead := (hwrites.gap_eq_nil_iff FormatSpec.isGap_nil).mp rfl
  cases hhead

end BoardMill.Gerber
