import BoardMill.Gerber.Reading
import BoardMill.Proofs.Gerber.Commands
import BoardMill.Proofs.Scalar.Power

/-! # What documents that were read are like

All coordinates of a document that was read are finite, and all of its apertures passed
their checks. In exact arithmetic no later step leaves the finite numbers, either.
-/

namespace BoardMill

variable {α : Type} [Scalar α]

/-- Both sizes are finite. -/
structure Size.Finite (s : Size α) : Prop where
  width : Scalar.isFinite s.width = true
  height : Scalar.isFinite s.height = true

/-- An aperture of finite size that passed its checks. -/
structure Aperture.Usable (a : Aperture α) : Prop where
  checked : a.check = .ok ()
  finite : a.size.Finite

namespace Gerber

/-- All coordinates of a block are finite. -/
def Block.Finite : Block α → Prop
  | flash target | move target => target.Finite
  | interpolate _ target center => target.Finite ∧ ∀ c, center = some c → c.Finite
  | _ => True

/-- A document of finite coordinates and usable apertures. -/
structure Document.Sound (d : Document α) : Prop where
  blocks : ∀ b ∈ d.blocks, b.value.Finite
  apertures : ∀ a ∈ d.apertures.entries, a.Usable

/-- What was read so far is a sound document, and the last point is finite. -/
structure Reading.Sound (r : Reading α) : Prop where
  document : r.document.Sound
  cursor : r.cursor.Finite

end Gerber

/-! ## Numbers that were read -/

theorem Decimal.isFinite_of_readPlain? {text : List Char} {value : α}
    (h : Decimal.readPlain? text = some value) : Scalar.isFinite value = true := by
  unfold Decimal.readPlain? at h
  obtain ⟨parts, -, h⟩ := Option.bind_eq_some_iff.mp h
  obtain ⟨hfinite, hvalue⟩ := Option.ite_none_right_eq_some.mp h
  cases hvalue
  exact hfinite

namespace Exact

variable {K : Type} [Field K] [LinearOrder K] [FloorRing K] [Analytic K]

theorem isFinite_withSign {a : Exact K} (h : Scalar.isFinite a = true) (negative : Bool) :
    Scalar.isFinite (Decimal.withSign negative a) = true := by
  obtain ⟨x, rfl⟩ := exists_number h
  cases negative <;> rfl

variable [IsStrictOrderedRing K]

/-- Coordinates that are read are finite. -/
theorem isFinite_of_readFilled? {count : DigitCount} {fill : List Char → List Char}
    {text : List Char} {value : Exact K} (h : count.readFilled? fill text = some value) :
    Scalar.isFinite value = true := by
  unfold DigitCount.readFilled? at h
  split at h
  · exact Decimal.isFinite_of_readPlain? h
  · dsimp only at h
    split at h
    · cases h
    · unfold DigitCount.value? at h
      dsimp only at h
      split at h
      · cases h
        apply isFinite_withSign
        rw [tenPow_eq]
        change Scalar.isFinite (number _ / number _) = true
        rw [number_div (pow_ne_zero _ (by norm_num))]
        rfl
      · cases h

end Exact

namespace Gerber

open Outcome

/-! ## Definitions of apertures -/

namespace Definition

theorem isFinite_of_parameters? {text : List Char} {params : List α}
    (h : parameters? text = .ok params) : ∀ value ∈ params, Scalar.isFinite value = true := by
  unfold parameters? at h
  split at h
  · cases h
    exact fun _ hmem => absurd hmem List.not_mem_nil
  · refine forall_mem_of_mapM (fun item value hvalue => ?_) h
    split at hvalue
    next hread =>
      cases hvalue
      exact Decimal.isFinite_of_readPlain? hread
    next => cases hvalue

/-- A shape is as large as its parameters say. -/
theorem finite_of_shape? {template : List Char} {params rest : List α} {shape : Shape α}
    (h : shape? template params = .ok (shape, rest))
    (hparams : ∀ value ∈ params, Scalar.isFinite value = true) : shape.size.Finite := by
  unfold shape? at h
  split at h
  next =>
    split at h
    next diameter others =>
      cases h
      exact ⟨hparams diameter List.mem_cons_self, hparams diameter List.mem_cons_self⟩
    next => cases h
  next =>
    split at h
    next xSize ySize others =>
      cases h
      exact ⟨hparams xSize List.mem_cons_self,
        hparams ySize (List.mem_cons_of_mem _ List.mem_cons_self)⟩
    next => cases h
  next =>
    split at h
    next xSize ySize others =>
      cases h
      exact ⟨hparams xSize List.mem_cons_self,
        hparams ySize (List.mem_cons_of_mem _ List.mem_cons_self)⟩
    next => cases h
  next =>
    split at h
    next diameter count others =>
      split at h
      next =>
        cases h
        exact ⟨hparams diameter List.mem_cons_self, hparams diameter List.mem_cons_self⟩
      next => cases h
    next => cases h
  next => cases h

/-- Apertures that are read are usable. -/
theorem usable_of_read? {command text : List Char} {a : Aperture α}
    (h : read? command text = .ok a) : a.Usable := by
  obtain ⟨hstated, -, hchecked⟩ := read?_eq_ok_iff.mp h
  obtain ⟨definition, params, holeParams, -, -, -, hparams, hshape, -⟩ :=
    (stated?_eq_some_iff command).mp hstated
  exact ⟨hchecked, finite_of_shape? hshape (isFinite_of_parameters? hparams)⟩

end Definition

/-! ## Extended commands -/

theorem Block.Sets.finite {b : Block α} (h : b.Sets) : b.Finite := by
  cases h <;> trivial

namespace Extended

/-- Finite blocks, and usable apertures. -/
def Sound : Extended α → Prop
  | block b => b.Finite
  | define a => a.Usable
  | nothing => True

/-- Extended commands that are read are sound. -/
theorem sound_of_read? {command : List Char} {e : Extended α} (h : read? command = .ok e) :
    e.Sound := by
  rcases read?_cases h with ⟨b, rfl, hsets⟩ | ⟨rest, a, -, ha, rfl⟩ | rfl
  · exact hsets.finite
  · exact Definition.usable_of_read? ha
  · trivial

end Extended

/-! ## Reading on -/

namespace Reading

variable {r next : Reading α}

theorem Sound.push (h : r.Sound) (line : Nat) {b : Block α} (hb : b.Finite) :
    (r.push line b).Sound := by
  refine ⟨⟨fun located hmem => ?_, h.document.apertures⟩, h.cursor⟩
  change located ∈ (r.blocks.push ⟨line, b⟩).toList at hmem
  rw [Array.toList_push, List.mem_append] at hmem
  rcases hmem with hmem | hmem
  · exact h.document.blocks located hmem
  · rw [List.mem_singleton.mp hmem]
    exact hb

theorem Sound.prepare (h : r.Sound) (line : Nat) (p : Preparation) : (r.prepare line p).Sound := by
  cases p with
  | mode mode => exact ⟨h.document, h.cursor⟩
  | regionStart => exact h.push line trivial
  | regionEnd => exact h.push line trivial
  | units units => exact h.push line trivial
  | nothing => exact h

/-- A usable aperture may be defined. -/
theorem Sound.define (h : r.Sound) {a : Aperture α} (ha : a.Usable) {apertures : ApertureTable α}
    (hdefine : r.apertures.define a = .ok apertures) :
    ({ r with apertures } : Reading α).Sound := by
  refine ⟨⟨h.document.blocks, fun b hb => ?_⟩, h.cursor⟩
  unfold ApertureTable.define at hdefine
  split at hdefine
  · cases hdefine
  · cases hdefine
    rcases List.mem_append.mp hb with hb | hb
    · exact h.document.apertures b hb
    · rw [List.mem_singleton.mp hb]
      exact ha

/-- Extended commands keep what was read sound. -/
theorem Sound.extended (h : r.Sound) {line : Nat} {text : List Char}
    (hnext : r.extended line text = .ok next) : next.Sound := by
  unfold Reading.extended at hnext
  obtain ⟨e, he, hnext⟩ := bind_eq_ok.mp hnext
  have hsound := Extended.sound_of_read? he
  cases e with
  | block b =>
      have hpush := h.push line hsound
      dsimp only at hnext
      split at hnext
      · cases hnext
        exact ⟨hpush.document, hpush.cursor⟩
      · cases hnext
        exact hpush
  | define a =>
      dsimp only at hnext
      split at hnext
      next hdefine =>
        cases hnext
        exact h.define hsound hdefine
      next => cases hnext
  | nothing =>
      cases hnext
      exact h

end Reading

end Gerber

/-! ## Words in exact arithmetic -/

namespace Gerber

open Outcome

variable {K : Type} [Field K] [LinearOrder K] [IsStrictOrderedRing K] [FloorRing K] [Analytic K]

namespace Reading

variable {r next : Reading (Exact K)}

/-- The coordinate of a field is finite if the one that it would leave is. -/
theorem isFinite_of_coordinate? {format : CoordinateFormat} {axis : Axis} {word : List Char}
    {missing value : Exact K} {field : Option (List Char)}
    (hmissing : Scalar.isFinite missing = true)
    (h : coordinate? format axis word missing field = .ok value) :
    Scalar.isFinite value = true := by
  unfold coordinate? at h
  split at h
  next =>
    cases h
    exact hmissing
  next =>
    split at h
    next hdecode =>
      cases h
      exact Exact.isFinite_of_readFilled? hdecode
    next => cases h

omit [IsStrictOrderedRing K] in
theorem finite_add {p q : Point (Exact K)} (hp : p.Finite) (hq : q.Finite) :
    (⟨p.x + q.x, p.y + q.y⟩ : Point (Exact K)).Finite := by
  obtain ⟨px, hpx⟩ := Exact.exists_number hp.x
  obtain ⟨py, hpy⟩ := Exact.exists_number hp.y
  obtain ⟨qx, hqx⟩ := Exact.exists_number hq.x
  obtain ⟨qy, hqy⟩ := Exact.exists_number hq.y
  rw [hpx, hpy, hqx, hqy]
  exact ⟨rfl, rfl⟩

omit [IsStrictOrderedRing K] in
theorem Sound.drawing (h : r.Sound) (operation : Operation) {target offset : Point (Exact K)}
    (htarget : target.Finite) (hoffset : offset.Finite) :
    (r.drawing operation target offset).Finite := by
  cases operation with
  | flash => exact htarget
  | move => exact htarget
  | interpolate =>
      refine ⟨htarget, fun c hc => ?_⟩
      split at hc
      · cases hc
      all_goals
        cases hc
        exact finite_add h.cursor hoffset

/-- Operations keep what was read sound. -/
theorem Sound.operate (h : r.Sound) {line : Nat} {word : List Char} {fields : Fields}
    {operation : Operation} (hnext : r.operate line word fields operation = .ok next) :
    next.Sound := by
  unfold Reading.operate at hnext
  split at hnext
  next format _ =>
    obtain ⟨x, hx, hnext⟩ := bind_eq_ok.mp hnext
    obtain ⟨y, hy, hnext⟩ := bind_eq_ok.mp hnext
    obtain ⟨i, hi, hnext⟩ := bind_eq_ok.mp hnext
    obtain ⟨j, hj, hnext⟩ := bind_eq_ok.mp hnext
    cases hnext
    have htarget : (⟨x, y⟩ : Point (Exact K)).Finite :=
      ⟨isFinite_of_coordinate? h.cursor.x hx, isFinite_of_coordinate? h.cursor.y hy⟩
    have hoffset : (⟨i, j⟩ : Point (Exact K)).Finite :=
      ⟨isFinite_of_coordinate? rfl hi, isFinite_of_coordinate? rfl hj⟩
    have hpush := h.push line (h.drawing operation htarget hoffset)
    exact ⟨hpush.document, htarget⟩
  next => cases hnext

theorem Sound.fields (h : r.Sound) {line : Nat} {word : List Char} {f : Fields}
    (hnext : r.fields line word f = .ok next) : next.Sound := by
  unfold Reading.fields at hnext
  split at hnext
  next => exact h.operate hnext
  next => exact h.operate hnext
  next => exact h.operate hnext
  next =>
    split at hnext
    · cases hnext
    · split at hnext
      · cases hnext
      · cases hnext
        exact h.push line trivial
  next =>
    split at hnext
    · split at hnext
      · exact h.operate hnext
      · cases hnext
    · cases hnext

theorem Sound.word (h : r.Sound) {line : Nat} {text : List Char}
    (hnext : r.word line text = .ok next) : next.Sound := by
  unfold Reading.word at hnext
  obtain ⟨w, -, hnext⟩ := bind_eq_ok.mp hnext
  cases w with
  | finish =>
      cases hnext
      exact ⟨h.document, h.cursor⟩
  | pause =>
      cases hnext
      exact h
  | drawing preparation fields =>
      cases preparation with
      | none =>
          cases fields with
          | none =>
              cases hnext
              exact h
          | some f => exact h.fields hnext
      | some p =>
          have hprepared := h.prepare line p
          cases fields with
          | none =>
              cases hnext
              exact hprepared
          | some f => exact hprepared.fields hnext

theorem Sound.token (h : r.Sound) {t : Token} (hnext : r.token t = .ok next) : next.Sound := by
  unfold Reading.token at hnext
  split at hnext
  · exact h.extended hnext
  · exact h.word hnext

omit [IsStrictOrderedRing K] in
theorem sound_start : (start : Reading (Exact K)).Sound where
  document := ⟨fun _ h => absurd h List.not_mem_nil, fun _ h => absurd h List.not_mem_nil⟩
  cursor := ⟨rfl, rfl⟩

end Reading

namespace Document

theorem sound_of_readFrom {lastLine : Nat} {r : Reading (Exact K)} {tokens : List Token}
    {d : Document (Exact K)} (hr : r.Sound) (h : readFrom lastLine r tokens = .ok d) :
    d.Sound := by
  induction tokens generalizing r with
  | nil =>
      rw [readFrom] at h
      split at h
      · cases h
        exact hr.document
      · cases h
  | cons t rest ih =>
      rw [readFrom] at h
      split at h
      · cases h
        exact hr.document
      · split at h
        next hnext => exact ih (hr.token hnext) h
        next => cases h

/-- Documents that are read in exact arithmetic are sound. -/
theorem sound_of_ofText? {text : List Char} {d : Document (Exact K)} (h : ofText? text = .ok d) :
    d.Sound := by
  unfold ofText? at h
  split at h
  · cases h
  · exact sound_of_readFrom Reading.sound_start h

end Document

end Gerber

end BoardMill
