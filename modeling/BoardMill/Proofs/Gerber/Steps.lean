import BoardMill.Gerber.State
import BoardMill.Proofs.Splits

/-! # Steps of the graphics state

A block is carried out exactly if the state admits it, and then changes one component of
the state. What the state is after some blocks can therefore be told from the last of the
blocks that set its components.
-/

namespace BoardMill.Gerber

variable {α : Type}

namespace Block

def target? : Block α → Option (Point α)
  | flash target | move target | interpolate _ target _ => some target
  | _ => none

def units? : Block α → Option Units
  | units u => some u
  | _ => none

/-- A block that draws from the current point on. -/
def isStroke {α : Type} : Block α → Bool
  | interpolate .. => true
  | _ => false

/-- What a state must be like for a block to be carried out. -/
def Admitted (s : State α) : Block α → Prop
  | select number => (s.apertures.get? number).isSome
  | flash _ => s.inRegion = false ∧ s.current?.isSome
  | interpolate .. => s.inRegion = true ∨ s.current?.isSome
  | regionStart => s.inRegion = false
  | regionEnd => s.inRegion = true
  | _ => True

end Block

namespace State

def after (s : State α) : Block α → State α
  | .select number => { s with selected := some number }
  | .flash target | .move target | .interpolate _ target _ => { s with cursor := target }
  | .regionStart => { s with inRegion := true }
  | .regionEnd => { s with inRegion := false }
  | .polarity polarity => { s with polarity }
  | .units units => { s with units }
  | .format _ | .attribute .. => s

theorem after_cursor (s : State α) (b : Block α) :
    (s.after b).cursor = b.target?.getD s.cursor := by
  cases b <;> rfl

theorem after_units (s : State α) (b : Block α) : (s.after b).units = b.units?.getD s.units := by
  cases b <;> rfl

@[simp] theorem after_apertures (s : State α) (b : Block α) :
    (s.after b).apertures = s.apertures := by
  cases b <;> rfl

/-- A block is carried out exactly if the state admits it. -/
theorem apply_eq_ok_iff {s next : State α} {b : Located (Block α)} :
    s.apply b = .ok next ↔ b.value.Admitted s ∧ s.after b.value = next := by
  obtain ⟨line, b⟩ := b
  cases b with
  | select number =>
      unfold apply Block.Admitted after
      cases h : s.apertures.get? number <;>
        simp [h, throw, throwThe, MonadExceptOf.throw, pure, Except.pure]
  | flash target =>
      unfold apply Block.Admitted after require
      cases s.inRegion <;> cases s.current? <;>
        simp [bind, Except.bind, throw, throwThe, MonadExceptOf.throw, pure,
          Except.pure]
  | interpolate mode target center =>
      unfold apply Block.Admitted after require
      cases s.inRegion <;> cases s.current? <;>
        simp [bind, Except.bind, throw, throwThe, MonadExceptOf.throw, pure,
          Except.pure]
  | regionStart =>
      unfold apply Block.Admitted after
      cases s.inRegion <;>
        simp [throw, throwThe, MonadExceptOf.throw, pure, Except.pure]
  | regionEnd =>
      unfold apply Block.Admitted after
      cases s.inRegion <;>
        simp [throw, throwThe, MonadExceptOf.throw, pure, Except.pure]
  | _ => simp [apply, Block.Admitted, after, pure, Except.pure]

theorem eq_after_of_apply {s next : State α} {b : Located (Block α)} (h : s.apply b = .ok next) :
    next = s.after b.value :=
  (apply_eq_ok_iff.mp h).2.symm

/-- The state that some blocks lead to if all of them are carried out. -/
def afterAll (s : State α) (blocks : List (Located (Block α))) : State α :=
  blocks.foldl (fun s b => s.after b.value) s

theorem eq_afterAll_of_foldlM {s last : State α} {blocks : List (Located (Block α))}
    (h : blocks.foldlM apply s = .ok last) : last = s.afterAll blocks := by
  induction blocks generalizing s with
  | nil => exact (Except.ok.inj h).symm
  | cons b rest ih =>
      rw [List.foldlM_cons] at h
      cases hnext : s.apply b with
      | error fault =>
          rw [hnext] at h
          cases h
      | ok next =>
          rw [hnext] at h
          rw [ih h, eq_after_of_apply hnext]
          rfl

end State

/-! ## The last blocks of a kind -/

/-- The point that some blocks lead to: that of the last one that goes anywhere, the origin
without one. -/
def cursorAfter [Scalar α] (before : List (Block α)) : Point α :=
  (before.filterMap Block.target?).getLast?.getD ⟨0.0, 0.0⟩

/-- The units that apply behind some blocks: those of the last one that sets any,
millimetres without one. -/
def unitsAfter (before : List (Block α)) : Units :=
  (before.filterMap Block.units?).getLast?.getD .millimeters

theorem cursorAfter_append [Scalar α] (before : List (Block α)) (b : Block α) :
    cursorAfter (before ++ [b]) = b.target?.getD (cursorAfter before) := by
  unfold cursorAfter
  cases h : b.target? <;> simp [h]

/-- Blocks that go nowhere leave the point that the block before them leads to. -/
theorem cursorAfter_of_still [Scalar α] {first between : List (Block α)} {b : Block α}
    {p : Point α} (hb : b.target? = some p) (h : ∀ c ∈ between, c.target? = none) :
    cursorAfter (first ++ b :: between) = p := by
  rw [cursorAfter, List.filterMap_append, List.filterMap_cons_some hb,
    List.filterMap_eq_nil_iff.mpr h, List.getLast?_append, List.getLast?_singleton, Option.some_or,
    Option.getD_some]

theorem unitsAfter_append (before : List (Block α)) (b : Block α) :
    unitsAfter (before ++ [b]) = b.units?.getD (unitsAfter before) := by
  unfold unitsAfter
  cases h : b.units? <;> simp [h]

/-- A state is what some blocks from the start of a document lead to, as far as places are
concerned. -/
structure State.Follows [Scalar α] (s : State α) (before : List (Block α)) : Prop where
  cursor : s.cursor = cursorAfter before
  units : s.units = unitsAfter before

namespace State.Follows

variable [Scalar α]

theorem start (apertures : ApertureTable α) : (State.start apertures).Follows [] := ⟨rfl, rfl⟩

theorem after {s : State α} {before : List (Block α)} (h : s.Follows before) (b : Block α) :
    (s.after b).Follows (before ++ [b]) where
  cursor := by rw [after_cursor, cursorAfter_append, h.cursor]
  units := by rw [after_units, unitsAfter_append, h.units]

theorem afterAll {s : State α} {before : List (Block α)} (h : s.Follows before)
    (blocks : List (Located (Block α))) :
    (s.afterAll blocks).Follows (before ++ blocks.map Located.value) := by
  induction blocks generalizing s before with
  | nil => simpa [State.afterAll] using h
  | cons b rest ih => simpa [State.afterAll] using ih (h.after b.value)

end State.Follows

end BoardMill.Gerber
