import BoardMill.Proofs.Gerber.Tokens

/-! # Steps of the reader

A token that is read sets what it says of the format, the curve and the operation, and adds
blocks. Only a word that operates adds one that goes anywhere, and there the reader goes too.
-/

namespace BoardMill.Gerber

open Outcome

variable {α : Type}

namespace Reading

def prepared (r : Reading α) (line : Nat) (p : Option Preparation) : Reading α :=
  p.elim r (r.prepare line)

section Prepared

variable (r : Reading α) (line : Nat) (p : Option Preparation)

@[simp] theorem prepared_format : (r.prepared line p).format = r.format := by
  rcases p with - | (_ | _ | _ | _ | _) <;> rfl

@[simp] theorem prepared_cursor : (r.prepared line p).cursor = r.cursor := by
  rcases p with - | (_ | _ | _ | _ | _) <;> rfl

@[simp] theorem prepared_operation : (r.prepared line p).operation = r.operation := by
  rcases p with - | (_ | _ | _ | _ | _) <;> rfl

@[simp] theorem prepared_ended : (r.prepared line p).ended = r.ended := by
  rcases p with - | (_ | _ | _ | _ | _) <;> rfl

@[simp] theorem prepared_apertures : (r.prepared line p).apertures = r.apertures := by
  rcases p with - | (_ | _ | _ | _ | _) <;> rfl

@[simp] theorem prepared_mode :
    (r.prepared line p).mode = (p.bind Preparation.mode?).getD r.mode := by
  rcases p with - | (_ | _ | _ | _ | _) <;> rfl

/-- A preparation code may add a block, which goes nowhere. -/
theorem exists_prepared_blocks :
    ∃ added, (r.prepared line p).blocks.toList = r.blocks.toList ++ added ∧
      ∀ b ∈ added, b.value.target? = none := by
  have hpush (b : Block α) (hb : b.target? = none) :
      ∃ added, (r.push line b).blocks.toList = r.blocks.toList ++ added ∧
        ∀ b ∈ added, b.value.target? = none :=
    ⟨[⟨line, b⟩], Array.toList_push, by simpa using hb⟩
  have hsame : ∃ added, r.blocks.toList = r.blocks.toList ++ added ∧
      ∀ b ∈ added, b.value.target? = none :=
    ⟨[], by simp, by simp⟩
  rcases p with - | (_ | _ | _ | _ | _)
  · exact hsame
  · exact hsame
  · exact hpush _ rfl
  · exact hpush _ rfl
  · exact hpush _ rfl
  · exact hsame

end Prepared

variable [Scalar α] {r next : Reading α} {line : Nat} {text : List Char}

theorem coordinate?_eq_ok_iff {format : CoordinateFormat} {axis : Axis} {missing value : α}
    {field : Option (List Char)} :
    coordinate? format axis text missing field = .ok value ↔
      field.elim (some missing) (format.decode? axis) = some value := by
  cases field with
  | none => simp [coordinate?, pure, Except.pure]
  | some t =>
      cases h : (format.decode? axis t : Option α) <;>
        simp [coordinate?, h, pure, Except.pure, throw, throwThe, MonadExceptOf.throw]

theorem operate_eq_ok {f : Fields} {operation : Operation}
    (h : r.operate line text f operation = .ok next) :
    ∃ format target offset, r.format = some format ∧
      format.point? f.x f.y r.cursor = some target ∧
      format.point? f.i f.j ⟨0.0, 0.0⟩ = some offset ∧
      next = { r.push line (r.drawing operation target offset) with
        cursor := target, operation := some operation } := by
  unfold operate at h
  split at h
  next format hformat =>
    obtain ⟨x, hx, h⟩ := bind_eq_ok.mp h
    obtain ⟨y, hy, h⟩ := bind_eq_ok.mp h
    obtain ⟨i, hi, h⟩ := bind_eq_ok.mp h
    obtain ⟨j, hj, h⟩ := bind_eq_ok.mp h
    cases h
    rw [coordinate?_eq_ok_iff] at hx hy hi hj
    refine ⟨format, ⟨x, y⟩, ⟨i, j⟩, hformat, ?_, ?_, rfl⟩
    · simp [CoordinateFormat.point?, hx, hy]
    · simp [CoordinateFormat.point?, hi, hj]
  next => cases h

/-- The fields of a word select an aperture, or operate as they say or as the last ones did. -/
theorem fields_cases {f : Fields} (h : r.fields line text f = .ok next) :
    (f.selects = true ∧ f.operation? = none ∧ f.hasCoordinates = false ∧
      ∃ number, next = r.push line (.select number)) ∨
    (f.selects = false ∧ ∃ operation, f.operation?.or r.operation = some operation ∧
      r.operate line text f operation = .ok next) := by
  unfold fields at h
  split at h
  next hd => exact .inr ⟨by simp [Fields.selects, hd], _, by simp [Fields.operation?, hd], h⟩
  next hd => exact .inr ⟨by simp [Fields.selects, hd], _, by simp [Fields.operation?, hd], h⟩
  next hd => exact .inr ⟨by simp [Fields.selects, hd], _, by simp [Fields.operation?, hd], h⟩
  next code h₁ h₂ h₃ hd =>
    split at h
    · cases h
    next hcode =>
      split at h
      · cases h
      next hcoordinates =>
        cases h
        refine .inl ⟨by simp [Fields.selects, hd]; omega, ?_, Bool.eq_false_iff.mpr hcoordinates,
          code, rfl⟩
        unfold Fields.operation?
        split <;> simp_all
  next hd =>
    split at h
    · split at h
      next operation hop =>
        exact .inr ⟨by simp [Fields.selects, hd], operation, by simp [Fields.operation?, hd, hop], h⟩
      next => cases h
    · cases h

theorem word_eq_ok (h : r.word line text = .ok next) :
    ∃ w, (Word.read? text : Except (Defect α) Word) = .ok w ∧
      ((w = .finish ∧ next = { r with ended := true }) ∨ (w = .pause ∧ next = r) ∨
      (∃ p, w = .drawing p none ∧ next = r.prepared line p) ∨
      (∃ p f, w = .drawing p (some f) ∧ (r.prepared line p).fields line text f = .ok next)) := by
  unfold word at h
  obtain ⟨w, hw, h⟩ := bind_eq_ok.mp h
  refine ⟨w, hw, ?_⟩
  cases w with
  | finish =>
      cases h
      exact .inl ⟨rfl, rfl⟩
  | pause =>
      cases h
      exact .inr (.inl ⟨rfl, rfl⟩)
  | drawing p fields =>
      right
      right
      cases fields with
      | none =>
          left
          cases p <;> cases h <;> exact ⟨_, rfl, rfl⟩
      | some f =>
          right
          cases p <;> exact ⟨_, _, rfl, h⟩

variable {t : Token}

/-- What a reading remembers of a token that was read: a format, a curve, an operation, and
whether it ends. -/
structure Heeds (r : Reading α) (t : Token) (next : Reading α) : Prop where
  format : next.format = (t.format? α).or r.format
  mode : next.mode = (t.mode? α).getD r.mode
  operation : next.operation = (t.operation? α).or r.operation
  ended : next.ended = (r.ended || t.ends α)

/-- What a token that does not operate adds: blocks that go nowhere. -/
structure Stays (r next : Reading α) : Prop where
  cursor : next.cursor = r.cursor
  blocks : ∃ added, next.blocks.toList = r.blocks.toList ++ added ∧
    ∀ b ∈ added, b.value.target? = none

omit [Scalar α] in
theorem Stays.push (line : Nat) {b : Block α} (hb : b.target? = none) : r.Stays (r.push line b) where
  cursor := rfl
  blocks := ⟨[⟨line, b⟩], Array.toList_push, by simpa using hb⟩

omit [Scalar α] in
theorem Stays.of_blocks_eq (hcursor : next.cursor = r.cursor) (hblocks : next.blocks = r.blocks) :
    r.Stays next where
  cursor := hcursor
  blocks := ⟨[], by simp [hblocks], by simp⟩

/-- Extended commands set formats, and add blocks that go nowhere. -/
theorem heeds_and_stays_of_extended (hkind : t.kind = .extended)
    (h : r.extended t.line t.text = .ok next) : r.Heeds t next ∧ r.Stays next := by
  have hword : t.word? α = none := Token.word?_of_extended hkind
  have hmode : t.mode? α = none := by rw [Token.mode?, hword]
  have hoperation : t.operation? α = none := by rw [Token.operation?, Token.fields?, hword]; rfl
  have hends : t.ends α = false := by rw [Token.ends, hword]; rfl
  unfold extended at h
  obtain ⟨e, he, h⟩ := bind_eq_ok.mp h
  have hformat : t.format? α = e.format? := by
    rw [Token.format?, if_pos hkind, he]
    rfl
  have heeds {next : Reading α} (hnext : next.format = e.format?.or r.format)
      (hmode' : next.mode = r.mode) (hoperation' : next.operation = r.operation)
      (hended' : next.ended = r.ended) : r.Heeds t next := by
    constructor
    · rw [hnext, hformat]
    · rw [hmode', hmode]; rfl
    · rw [hoperation', hoperation]; rfl
    · rw [hended', hends, Bool.or_false]
  cases e with
  | block b =>
      have hstays := Stays.push (r := r) t.line (Extended.target?_of_read? he)
      dsimp only at h
      split at h
      next =>
        cases h
        exact ⟨heeds rfl rfl rfl rfl, hstays.cursor, hstays.blocks⟩
      next hformat =>
        cases h
        refine ⟨heeds ?_ rfl rfl rfl, hstays⟩
        cases b <;> first | rfl | exact absurd rfl (hformat _)
  | define a =>
      dsimp only at h
      split at h
      next =>
        cases h
        exact ⟨heeds rfl rfl rfl rfl, .of_blocks_eq rfl rfl⟩
      next => cases h
  | nothing =>
      cases h
      exact ⟨heeds rfl rfl rfl rfl, .of_blocks_eq rfl rfl⟩

/-- What a token that operates adds: perhaps a block that goes nowhere, and then the block of
the operation. -/
structure Operates (r : Reading α) (t : Token) (next : Reading α) (f : Fields)
    (format : CoordinateFormat) (operation : Operation) (offset : Point α) : Prop where
  fields_eq : t.fields? α = some f
  format_eq : r.format = some format
  operation_eq : next.operation = some operation
  target_eq : format.point? f.x f.y r.cursor = some next.cursor
  offset_eq : format.point? f.i f.j ⟨0.0, 0.0⟩ = some offset
  blocks : ∃ added, next.blocks.toList = r.blocks.toList ++ added ++
      [⟨t.line, ({ r with mode := next.mode } : Reading α).drawing operation next.cursor offset⟩] ∧
    ∀ b ∈ added, b.value.target? = none

theorem heeds_of_word {w : Word} (hw : t.word? α = some w) (hformat : next.format = r.format)
    (hmode : next.mode = (t.mode? α).getD r.mode)
    (hoperation : next.operation = (t.operation? α).or r.operation)
    (hended : next.ended = (r.ended || w == .finish)) : r.Heeds t next := by
  obtain ⟨hkind, -⟩ := Token.word?_eq_some_iff.mp hw
  constructor
  · rw [hformat, Token.format?, if_neg (by simp [hkind])]
    rfl
  · exact hmode
  · exact hoperation
  · rw [hended, Token.ends, hw]
    rfl

/-- Words set the curve and the operation. They operate, or add blocks that go nowhere. -/
theorem word_step (hkind : t.kind = .word) (h : r.word t.line t.text = .ok next) :
    r.Heeds t next ∧
      ((t.operates α = false ∧ r.Stays next) ∨
        (t.operates α = true ∧ ∃ f format operation offset,
          r.Operates t next f format operation offset)) := by
  obtain ⟨w, hread, hcases⟩ := word_eq_ok h
  have hw : t.word? α = some w := Token.word?_eq_some_iff.mpr ⟨hkind, hread⟩
  have hoperates := Token.operates_eq_any hw
  have hsilent (hfields : t.fields? α = none) : t.operation? α = none ∧ t.operates α = false :=
    ⟨by rw [Token.operation?, hfields]; rfl, by rw [hoperates, hfields]; rfl⟩
  rcases hcases with ⟨rfl, rfl⟩ | ⟨rfl, rfl⟩ | ⟨p, rfl, rfl⟩ | ⟨p, f, rfl, hnext⟩
  · obtain ⟨hoperation, hop⟩ := hsilent (by rw [Token.fields?, hw])
    refine ⟨heeds_of_word hw rfl ?_ ?_ ?_, .inl ⟨hop, .of_blocks_eq rfl rfl⟩⟩
    · simp [Token.mode?, hw]
    · simp [hoperation]
    · simp
  · obtain ⟨hoperation, hop⟩ := hsilent (by rw [Token.fields?, hw])
    refine ⟨heeds_of_word hw rfl ?_ ?_ ?_, .inl ⟨hop, .of_blocks_eq rfl rfl⟩⟩
    · simp [Token.mode?, hw]
    · simp [hoperation]
    · simp
  · obtain ⟨hoperation, hop⟩ := hsilent (by rw [Token.fields?, hw])
    refine ⟨heeds_of_word hw ?_ ?_ ?_ ?_, .inl ⟨hop, ?_, exists_prepared_blocks r t.line p⟩⟩
    · simp
    · simp [Token.mode?, hw]
    · simp [hoperation]
    · simp
    · simp
  · -- What the preparation code adds stands before the block of the operation.
    have hfields : t.fields? α = some f := by rw [Token.fields?, hw]
    obtain ⟨added, hadded, hstill⟩ := exists_prepared_blocks r t.line p
    rcases fields_cases hnext with
      ⟨hselects, hnone, -, number, rfl⟩ | ⟨hselects, operation, hoperation, hop⟩
    · refine ⟨heeds_of_word hw ?_ ?_ ?_ ?_, .inl ⟨?_, ?_, added ++ [⟨t.line, .select number⟩], ?_, ?_⟩⟩
      · simp [push]
      · simp [push, Token.mode?, hw]
      · simp [push, Token.operation?, hfields, hnone]
      · simp [push]
      · simp [hoperates, hfields, hselects]
      · simp [push]
      · simp [push, hadded]
      · rw [List.forall_mem_append, List.forall_mem_singleton]
        exact ⟨hstill, rfl⟩
    · obtain ⟨format, target, offset, hformat, htarget, hoffset, rfl⟩ := operate_eq_ok hop
      rw [prepared_operation] at hoperation
      refine ⟨heeds_of_word hw ?_ ?_ ?_ ?_, .inr ⟨?_, f, format, operation, offset, ?_⟩⟩
      · simp [push]
      · simp [push, Token.mode?, hw]
      · simp [Token.operation?, hfields, hoperation]
      · simp [push]
      · simp [hoperates, hfields, hselects]
      · refine ⟨hfields, by simpa using hformat, rfl, by simpa using htarget, hoffset, added, ?_, hstill⟩
        simp [push, hadded, drawing]

theorem token_step (h : r.token t = .ok next) :
    r.Heeds t next ∧
      ((t.operates α = false ∧ r.Stays next) ∨
        (t.operates α = true ∧ ∃ f format operation offset,
          r.Operates t next f format operation offset)) := by
  unfold token at h
  cases hkind : t.kind with
  | extended =>
      rw [hkind] at h
      obtain ⟨hheeds, hstays⟩ := heeds_and_stays_of_extended hkind h
      exact ⟨hheeds, .inl ⟨by simp [Token.operates, hkind], hstays⟩⟩
  | word =>
      rw [hkind] at h
      exact word_step hkind h

end Reading

namespace Document

variable [Numeral α] {r next : Reading α} {t : Token}

theorem readFrom_cons_of_ok (hr : r.ended = false) (h : r.token t = .ok next) (lastLine : Nat)
    (rest : List Token) : readFrom lastLine r (t :: rest) = readFrom lastLine next rest := by
  rw [readFrom, if_neg (Bool.eq_false_iff.mp hr), h]

/-- A token that is refused is refused on its line. -/
theorem readFrom_cons_of_error (hr : r.ended = false) {defect : Defect α}
    (h : r.token t = .error defect) (lastLine : Nat) (rest : List Token) :
    readFrom lastLine r (t :: rest) = .error (.malformed t.line defect.message) := by
  rw [readFrom, if_neg (Bool.eq_false_iff.mp hr), h]
  rfl

end Document

end BoardMill.Gerber
