import BoardMill.Gerber.Extended
import BoardMill.Proofs.Outcome

/-! # What extended commands say

An extended command sets something for what follows, defines an aperture, or has no effect. A
definition is read exactly if it states an aperture with a number from ten on that passes its
checks.
-/

namespace BoardMill

open Outcome

variable {α : Type}

/-- An aperture is made exactly if it passes its checks. -/
theorem Aperture.make_eq_ok_iff [Scalar α] {number : Nat} {shape : Shape α}
    {hole : Option (Hole α)} {a : Aperture α} :
    make number shape hole = .ok a ↔ a = ⟨number, shape, hole⟩ ∧ a.check = .ok () := by
  unfold make
  rw [bind_eq_ok]
  constructor
  · rintro ⟨_, hcheck, h⟩
    cases h
    exact ⟨rfl, hcheck⟩
  · rintro ⟨rfl, hcheck⟩
    exact ⟨(), hcheck, rfl⟩

namespace Gerber

/-! ## Definitions of apertures -/

namespace Definition

theorem number?_eq_ok_iff {text rest : List Char} {number : Nat} :
    (number? text : Except (Defect α) _) = .ok (number, rest) ↔
      rest = text.dropWhile Decimal.isDigit ∧ rest.isEmpty = false ∧
        Decimal.readWord32? (text.takeWhile Decimal.isDigit) = some number ∧ 10 ≤ number := by
  unfold number?
  dsimp only
  cases hempty : (text.dropWhile Decimal.isDigit).isEmpty with
  | true =>
      rw [if_pos rfl]
      refine ⟨nofun, ?_⟩
      rintro ⟨rfl, hrest, -⟩
      rw [hempty] at hrest
      cases hrest
  | false =>
      rw [if_neg Bool.false_ne_true]
      cases hread : Decimal.readWord32? (text.takeWhile Decimal.isDigit) with
      | none => exact ⟨nofun, fun h => nomatch h.2.2.1⟩
      | some written =>
          dsimp only
          by_cases hten : written < 10
          · rw [if_pos hten]
            refine ⟨nofun, ?_⟩
            rintro ⟨-, -, hsame, hnumber⟩
            cases hsame
            omega
          · rw [if_neg hten]
            constructor
            · intro h
              cases h
              exact ⟨rfl, hempty, rfl, Nat.not_lt.mp hten⟩
            · rintro ⟨rfl, -, hsame, -⟩
              cases hsame
              rfl

/-- The command is only there for the message. -/
theorem toOption_hole? (command other : List Char) (params : List α) :
    (hole? command params).toOption = (hole? other params).toOption := by
  unfold hole?
  split <;> rfl

variable [Scalar α]

/-- The aperture that a definition states, from behind the name of the command on: its number,
its shape and its hole as they are written, fit for use or not. -/
def stated? : List Char → Option (Aperture α)
  | 'D' :: text =>
    let rest := text.dropWhile Decimal.isDigit
    let parts := (Decimal.splitAtFirst? ',' rest).getD (rest, [])
    if rest.isEmpty then none
    else do
      let number ← Decimal.readWord32? (text.takeWhile Decimal.isDigit)
      let params ← (parameters? parts.2 : Except (Defect α) (List α)).toOption
      let (shape, holeParams) ← (shape? parts.1 params).toOption
      let hole ← (hole? text holeParams).toOption
      return { number, shape, hole }
  | _ => none

theorem stated?_eq_some_iff (command : List Char) {text : List Char} {a : Aperture α} :
    stated? text = some a ↔ ∃ definition params holeParams, text = 'D' :: definition ∧
      let rest := definition.dropWhile Decimal.isDigit
      let parts := (Decimal.splitAtFirst? ',' rest).getD (rest, [])
      rest.isEmpty = false ∧
        Decimal.readWord32? (definition.takeWhile Decimal.isDigit) = some a.number ∧
        parameters? parts.2 = .ok params ∧ shape? parts.1 params = .ok (a.shape, holeParams) ∧
        hole? command holeParams = .ok a.hole := by
  constructor
  · intro h
    unfold stated? at h
    split at h
    next definition =>
      obtain ⟨hrest, h⟩ := Option.ite_none_left_eq_some.mp h
      obtain ⟨number, hread, h⟩ := Option.bind_eq_some_iff.mp h
      obtain ⟨params, hparams, h⟩ := Option.bind_eq_some_iff.mp h
      obtain ⟨⟨shape, holeParams⟩, hshape, h⟩ := Option.bind_eq_some_iff.mp h
      obtain ⟨hole, hhole, h⟩ := Option.bind_eq_some_iff.mp h
      cases h
      rw [toOption_hole? definition command] at hhole
      rw [toOption_eq_some_iff] at hparams hshape hhole
      exact ⟨definition, params, holeParams, rfl, Bool.eq_false_iff.mpr hrest, hread, hparams,
        hshape, hhole⟩
    next => cases h
  · rintro ⟨definition, params, holeParams, rfl, hrest, hread, hparams, hshape, hhole⟩
    rw [← toOption_eq_some_iff] at hparams hshape hhole
    rw [toOption_hole? command definition] at hhole
    rw [stated?, if_neg (Bool.eq_false_iff.mp hrest)]
    exact Option.bind_eq_some_iff.mpr ⟨a.number, hread,
      Option.bind_eq_some_iff.mpr ⟨params, hparams,
        Option.bind_eq_some_iff.mpr ⟨(a.shape, holeParams), hshape,
          Option.bind_eq_some_iff.mpr ⟨a.hole, hhole, rfl⟩⟩⟩⟩

/-- A definition is read exactly if the aperture that it states may be used. -/
theorem read?_eq_ok_iff {command text : List Char} {a : Aperture α} :
    read? command text = .ok a ↔ stated? text = some a ∧ 10 ≤ a.number ∧ a.check = .ok () := by
  rw [stated?_eq_some_iff command]
  unfold read?
  constructor
  · intro h
    split at h
    next definition hdefinition =>
      split at hdefinition
      next =>
        cases hdefinition
        obtain ⟨⟨number, rest⟩, hnumber, h⟩ := bind_eq_ok.mp h
        obtain ⟨params, hparams, h⟩ := bind_eq_ok.mp h
        obtain ⟨⟨shape, holeParams⟩, hshape, h⟩ := bind_eq_ok.mp h
        obtain ⟨hole, hhole, h⟩ := bind_eq_ok.mp h
        split at h
        next aperture hmake =>
          cases h
          obtain ⟨rfl, hcheck⟩ := Aperture.make_eq_ok_iff.mp hmake
          obtain ⟨rfl, hrest, hread, hten⟩ := number?_eq_ok_iff.mp hnumber
          exact ⟨⟨definition, params, holeParams, rfl, hrest, hread, hparams, hshape, hhole⟩, hten,
            hcheck⟩
        next => cases h
      next => cases hdefinition
    next => cases h
  · rintro ⟨⟨definition, params, holeParams, rfl, hrest, hread, hparams, hshape, hhole⟩, hten,
      hcheck⟩
    refine bind_eq_ok.mpr ⟨_, number?_eq_ok_iff.mpr ⟨rfl, hrest, hread, hten⟩, ?_⟩
    refine bind_eq_ok.mpr ⟨params, hparams, bind_eq_ok.mpr ⟨_, hshape,
      bind_eq_ok.mpr ⟨a.hole, hhole, ?_⟩⟩⟩
    rw [Aperture.make_eq_ok_iff.mpr ⟨rfl, hcheck⟩]
    rfl

end Definition

/-! ## Kinds of commands -/

/-- The blocks that only set something. -/
inductive Block.Sets : Block α → Prop
  | polarity (polarity : Polarity) : Sets (.polarity polarity)
  | attribute (kind : AttributeKind) (name : String) (args : List String) :
    Sets (.attribute kind name args)
  | format (format : CoordinateFormat) : Sets (.format format)
  | units (units : Units) : Sets (.units units)

theorem sets_attributeBlock (kind : AttributeKind) (text : List Char) :
    (attributeBlock kind text : Block α).Sets := by
  unfold attributeBlock
  split
  · exact .attribute _ _ _
  · exact .attribute _ _ _

theorem eq_nothing_of_legacy? {command : List Char} {harmless : Bool} {e : Extended α}
    (h : legacy? command harmless = .ok e) : e = .nothing := by
  unfold legacy? at h
  split at h
  · cases h
    rfl
  · cases h

theorem Extended.read?_cases [Scalar α] {command : List Char} {e : Extended α}
    (h : read? command = .ok e) :
    (∃ b, e = .block b ∧ b.Sets) ∨
    (∃ rest a, command = 'A' :: 'D' :: rest ∧ Definition.read? command rest = .ok a ∧
      e = .define a) ∨
    e = .nothing := by
  unfold read? at h
  split at h
  next =>
    obtain ⟨format, -, h⟩ := bind_eq_ok.mp h
    cases h
    exact .inl ⟨_, rfl, .format format⟩
  next => split at h <;> cases h <;> exact .inl ⟨_, rfl, .units _⟩
  next rest =>
    obtain ⟨a, ha, h⟩ := bind_eq_ok.mp h
    cases h
    exact .inr (.inl ⟨rest, a, rfl, ha, rfl⟩)
  next => split at h <;> cases h <;> exact .inl ⟨_, rfl, .polarity _⟩
  next => cases h; exact .inl ⟨_, rfl, sets_attributeBlock _ _⟩
  next => cases h; exact .inl ⟨_, rfl, sets_attributeBlock _ _⟩
  next => cases h; exact .inl ⟨_, rfl, sets_attributeBlock _ _⟩
  next => cases h; exact .inl ⟨_, rfl, sets_attributeBlock _ _⟩
  next => cases h
  next => cases h
  next => exact .inr (.inr (eq_nothing_of_legacy? h))
  next => cases h; exact .inr (.inr rfl)
  next => cases h; exact .inr (.inr rfl)
  next => exact .inr (.inr (eq_nothing_of_legacy? h))
  next => exact .inr (.inr (eq_nothing_of_legacy? h))
  next => exact .inr (.inr (eq_nothing_of_legacy? h))
  next => exact .inr (.inr (eq_nothing_of_legacy? h))
  next => cases h

end Gerber

end BoardMill
