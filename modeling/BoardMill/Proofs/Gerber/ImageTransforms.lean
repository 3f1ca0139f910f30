import BoardMill.Decimal.Binary
import BoardMill.Proofs.Decimal.Plain
import BoardMill.Proofs.Gerber.ReaderSteps

/-! # Old commands for the whole image

A command that shifts, mirrors or scales the image is harmless if every value in it is the one that
leaves the image as it is. The reader looks at the first value of each axis only, and what it cannot
read there it takes to be harmless.
-/

namespace BoardMill

/-- Digits, signs, points and commas are among the characters that come before all letters. -/
theorem Text.isAlphabetic_eq_false {c : Char} (h : c.toNat < 'A'.toNat) : isAlphabetic c = false := by
  have hranges : ∀ range ∈ alphabeticRanges.toList, 'A'.toNat ≤ range.1 := by decide +kernel
  rw [isAlphabetic, Array.any_eq_false']
  intro range hmem
  have hfirst := hranges range (Array.mem_toList_iff.mpr hmem)
  simp only [Bool.and_eq_true, decide_eq_true_eq]
  omega

namespace Gerber

open Decimal (WritesPlain readPlain? readPlain?_of_writes readPlain?_eq_some_iff splitAtFirst?
  splitAtFirst?_append splitAtFirst?_eq_some_iff)

namespace ImageTransform

variable {α : Type} [Scalar α]

/-- The value that leaves the image as it is, by the name of the command. -/
def identity? : List Char → Option α
  | ['O', 'F'] => some 0.0
  | ['M', 'I'] => some 0.0
  | ['S', 'F'] => some 1.0
  | _ => none

/-- The keys of the values along the two axes. -/
def keys : List Char := ['A', 'B']

/-- The text of a value, from behind its key up to the next letter. -/
def valueText (after : List Char) : List Char := after.takeWhile (!Text.isAlphabetic ·)

/-- Every key is followed by the value that leaves the image as it is. -/
def Harmless (identity : α) (text : List Char) : Prop :=
  ∀ key ∈ keys, ∀ before after, text = before ++ key :: after →
    ∃ value, WritesPlain (valueText after) value ∧ (value == identity) = true

/-- The first key of each axis is not followed by a number that changes the image. -/
def Passes (identity : α) (text : List Char) : Prop :=
  ∀ key ∈ keys, ∀ before after, text = before ++ key :: after → key ∉ before →
    ∀ value, WritesPlain (valueText after) value → Scalar.isFinite value = true →
      (value == identity) = true

/-- No key stands twice, and every one is followed by a number. -/
def Legible (α : Type) [Scalar α] (text : List Char) : Prop :=
  ∀ key ∈ keys, text.count key ≤ 1 ∧ ∀ before after, text = before ++ key :: after →
    ∃ value : α, WritesPlain (valueText after) value ∧ Scalar.isFinite value = true

variable {identity : α} {key : Char} {text before after : List Char}

theorem valueText_eq_self (h : ∀ c ∈ text, c.toNat < 'A'.toNat) : valueText text = text := by
  refine List.takeWhile_eq_self_iff.mpr fun c hc => ?_
  rw [Text.isAlphabetic_eq_false (h c hc), Bool.not_false]

/-- The value of an axis is the one behind its first key. -/
theorem value?_of_split (hsplit : splitAtFirst? key text = some (before, after)) :
    (value? key text : Option α) = readPlain? (valueText after) := by
  rw [value?, hsplit]
  rfl

theorem value?_of_split_none (hsplit : splitAtFirst? key text = none) :
    (value? key text : Option α) = none := by
  rw [value?, hsplit]
  rfl

/-- Without a key, or if its value cannot be read, the image is taken to be left as it is. -/
theorem value?_getD_iff (hself : (identity == identity) = true) :
    ((value? key text).getD identity == identity) = true ↔
      ∀ before after, text = before ++ key :: after → key ∉ before →
        ∀ value, WritesPlain (valueText after) value → Scalar.isFinite value = true →
          (value == identity) = true := by
  cases hsplit : splitAtFirst? key text with
  | none =>
      rw [value?_of_split_none hsplit]
      refine iff_of_true hself fun before after htext hbefore => ?_
      rw [htext, splitAtFirst?_append hbefore] at hsplit
      cases hsplit
  | some parts =>
      obtain ⟨before, after⟩ := parts
      rw [value?_of_split hsplit]
      constructor
      · intro h first second htext hfirst value hwrites hfinite
        rw [htext, splitAtFirst?_append hfirst] at hsplit
        cases hsplit
        rwa [readPlain?_of_writes hwrites, if_pos hfinite] at h
      · intro h
        obtain ⟨htext, hbefore⟩ := splitAtFirst?_eq_some_iff.mp hsplit
        cases hread : (readPlain? (valueText after) : Option α) with
        | none => exact hself
        | some value =>
            obtain ⟨hwrites, hfinite⟩ := readPlain?_eq_some_iff.mp hread
            exact h before after htext hbefore value hwrites hfinite

theorem isIdentity_iff (hself : (identity == identity) = true) :
    isIdentity identity text = true ↔ Passes identity text := by
  unfold isIdentity Passes keys
  rw [Bool.and_eq_true, value?_getD_iff hself, value?_getD_iff hself, List.forall_mem_cons,
    List.forall_mem_singleton]

theorem Harmless.passes (h : Harmless identity text) : Passes identity text := by
  intro key hkey before after htext _ value hwrites hfinite
  obtain ⟨other, hother, hidentity⟩ := h key hkey before after htext
  rwa [← hother.eq_of_isFinite hwrites hfinite]

/-- A text without repeated keys and without values that cannot be read passes only if it is
harmless. -/
theorem Legible.harmless_of_passes (h : Legible α text) (hpasses : Passes identity text) :
    Harmless identity text := by
  intro key hkey before after htext
  obtain ⟨hcount, hvalues⟩ := h key hkey
  obtain ⟨value, hwrites, hfinite⟩ := hvalues before after htext
  refine ⟨value, hwrites, hpasses key hkey before after htext ?_ value hwrites hfinite⟩
  rw [← List.count_eq_zero]
  rw [htext, List.count_append, List.count_cons_self] at hcount
  omega

end ImageTransform

open ImageTransform (identity? isIdentity isIdentity_iff value? valueText valueText_eq_self
  value?_of_split value?_of_split_none Passes Harmless Legible)

section Reading

variable {α : Type} {name : List Char} {identity : α}

theorem Reading.extended_image_transform [Scalar α] (hname : identity? name = some identity)
    (r : Reading α) (line : Nat) (text : List Char) :
    r.extended line (name ++ text) =
      if isIdentity identity text then .ok r else .error (.imageTransform (name ++ text)) := by
  have hcommand : (Extended.read? (name ++ text) : Except (Defect α) (Extended α)) =
      legacy? (name ++ text) (isIdentity identity text) := by
    unfold identity? at hname
    split at hname <;> cases hname <;> rfl
  rw [extended, hcommand, legacy?]
  split <;> rfl

theorem Document.readFrom_of_isIdentity [Numeral α] {r : Reading α} (hr : r.ended = false)
    (hname : identity? name = some identity) {text : List Char}
    (h : isIdentity identity text = true) (lastLine line : Nat) (rest : List Token) :
    readFrom lastLine r (⟨line, .extended, name ++ text⟩ :: rest) = readFrom lastLine r rest := by
  refine readFrom_cons_of_ok hr ?_ lastLine rest
  exact (r.extended_image_transform hname line text).trans (if_pos h)

theorem Document.readFrom_of_not_isIdentity [Numeral α] {r : Reading α} (hr : r.ended = false)
    (hname : identity? name = some identity) {text : List Char}
    (h : ¬ isIdentity identity text = true) (lastLine line : Nat) (rest : List Token) :
    readFrom lastLine r (⟨line, .extended, name ++ text⟩ :: rest) =
      .error (.malformed line (Defect.imageTransform (name ++ text) : Defect α).message) := by
  refine readFrom_cons_of_error hr ?_ lastLine rest
  exact (r.extended_image_transform hname line text).trans (if_neg h)

end Reading

/-- A command that shifts, mirrors or scales the image is refused, on its line, exactly if a number
that changes the image follows the first key of an axis. Harmless commands are accepted, and what is
accepted is harmless as long as no key stands twice and a number follows each of them. What is
accepted has no effect. -/
theorem Document.image_transforms_pass {r : Reading Float} (hr : r.ended = false)
    {name : List Char} {identity : Float} (hname : identity? name = some identity)
    (lastLine line : Nat) (text : List Char) (rest : List Token) :
    let command := name ++ text
    let read := readFrom lastLine r (⟨line, .extended, command⟩ :: rest)
    (Passes identity text → read = readFrom lastLine r rest) ∧
    (¬ Passes identity text → read =
      .error (.malformed line ("unsupported image transform: " ++ String.ofList command))) ∧
    (Harmless identity text → Passes identity text) ∧
    (Legible Float text → (Passes identity text ↔ Harmless identity text)) := by
  intro command read
  have hself : (identity == identity) = true := by
    unfold identity? at hname
    split at hname <;> cases hname <;> decide +kernel
  have hpasses : isIdentity identity text = true ↔ Passes identity text := isIdentity_iff hself
  refine ⟨fun h => ?_, fun h => ?_, Harmless.passes,
    fun hlegible => ⟨hlegible.harmless_of_passes, Harmless.passes⟩⟩
  · exact readFrom_of_isIdentity hr hname (hpasses.mpr h) lastLine line rest
  · exact readFrom_of_not_isIdentity hr hname (mt hpasses.mp h) lastLine line rest

/-- An offset of zero is accepted, another one is refused. -/
theorem Document.image_transforms_pass_offsets :
    let r : Reading Float := .start
    let rest : List Token := [⟨2, .word, "M02".toList⟩]
    Harmless (0.0 : Float) ['A', '0'] ∧
      Document.readFrom 2 r (⟨1, .extended, "OFA0".toList⟩ :: rest) = Document.readFrom 2 r rest ∧
      Document.readFrom 2 r (⟨1, .extended, "OFA1".toList⟩ :: rest) =
        .error (.malformed 1 "unsupported image transform: OFA1") := by
  intro r rest
  have hname : identity? ['O', 'F'] = some (0.0 : Float) := rfl
  have hdigit {c : Char} (hc : Decimal.isDigit c = true) (hlt : c.toNat < 'A'.toNat) :
      WritesPlain (valueText [c]) (Decimal.ofParts [c] [] : Float) := by
    rw [valueText_eq_self (List.forall_mem_singleton.mpr hlt)]
    exact .bare (.whole (List.cons_ne_nil c []) (List.forall_mem_singleton.mpr hc))
  have hharmless : Harmless (0.0 : Float) ['A', '0'] := by
    intro key hkey before after htext
    have hafter : after = ['0'] := by
      rcases List.cons_eq_append_iff.mp htext with ⟨rfl, hsplit⟩ | ⟨before, rfl, hsplit⟩
      · cases hsplit
        rfl
      · rcases List.cons_eq_append_iff.mp hsplit with ⟨-, hsplit⟩ | ⟨_, -, hsplit⟩
        · cases hsplit
          exact absurd hkey (by decide)
        · simp at hsplit
    have hzero : ((Decimal.ofParts ['0'] [] : Float) == 0.0) = true := by decide +kernel
    rw [hafter]
    exact ⟨_, hdigit rfl (by decide), hzero⟩
  have hoffset : ¬ Passes (0.0 : Float) ['A', '1'] := by
    intro hpasses
    have hfinite : Scalar.isFinite (Decimal.ofParts ['1'] [] : Float) = true := by decide +kernel
    have hchanged : ((Decimal.ofParts ['1'] [] : Float) == 0.0) = false := by decide +kernel
    have hwrites := hdigit (c := '1') rfl (by decide)
    have hsame := hpasses 'A' (by decide) [] ['1'] rfl (by decide) _ hwrites hfinite
    rw [hchanged] at hsame
    cases hsame
  have hzero := Document.image_transforms_pass (r := r) rfl hname 2 1 ['A', '0'] rest
  have hone := Document.image_transforms_pass (r := r) rfl hname 2 1 ['A', '1'] rest
  exact ⟨hharmless, hzero.1 (hzero.2.2.1 hharmless), hone.2.1 hoffset⟩

/-- A number with a comma is passed over, and the image is not shifted. -/
theorem Document.image_transform_dropped :
    ¬ Harmless (0.0 : Float) "A1,5".toList ∧
      Document.ofText? "%OFA1,5*%\nM02*\n".toList = .ok (⟨[], .empty⟩ : Document Float) := by
  have hvalue : valueText ['1', ',', '5'] = ['1', ',', '5'] :=
    valueText_eq_self (by simp)
  constructor
  · have htext : "A1,5".toList = 'A' :: ['1', ',', '5'] := by decide
    rw [htext]
    intro hharmless
    obtain ⟨value, hwrites, -⟩ := hharmless 'A' (by decide) [] ['1', ',', '5'] rfl
    rw [hvalue] at hwrites
    cases hwrites with
    | bare h => exact absurd (h.isPointed.marks ',' (by decide)) (by decide)
  · have htokens : Token.ofText "%OFA1,5*%\nM02*\n".toList =
        [⟨1, .extended, "OFA1,5".toList⟩, ⟨2, .word, "M02".toList⟩] := by decide +kernel
    have hidentity : isIdentity (0.0 : Float) ['A', '1', ',', '5'] = true := by
      have hA : (value? 'A' ['A', '1', ',', '5'] : Option Float) =
          readPlain? (valueText ['1', ',', '5']) := value?_of_split rfl
      have hB : (value? 'B' ['A', '1', ',', '5'] : Option Float) = none := value?_of_split_none rfl
      rw [isIdentity, hA, hB, hvalue]
      decide +kernel
    rw [Document.ofText?, htokens]
    exact Document.readFrom_of_isIdentity rfl (rfl : identity? ['O', 'F'] = _) hidentity 2 1 _

end Gerber

end BoardMill
