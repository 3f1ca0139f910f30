import BoardMill.Proofs.Box.Contains
import BoardMill.Proofs.Gerber.Ready
import BoardMill.Proofs.Gerber.Steps

/-! # What the box of a document contains

The box of a document contains the boxes of all its blocks, each in the state that the
blocks before it lead to.
-/

namespace BoardMill.Gerber

variable {α : Type} [Scalar α]

namespace Document

/-- A box that was grown comes from a block that was ready and carried out. -/
theorem growFrom_cons {lastLine : Nat} {s : State α} {box final : Box α} {b : Located (Block α)}
    {rest : List (Located (Block α))} (h : growFrom lastLine s box (b :: rest) = .ok final) :
    b.value.Admitted s ∧
      growFrom lastLine (s.after b.value) ((b.value.boxes s).foldl Box.cover box) rest =
        .ok final := by
  rw [growFrom, Block.grow_eq] at h
  cases hready : b.value.ready b.line s with
  | error fault =>
      rw [hready] at h
      cases h
  | ok _ =>
      rw [hready] at h
      cases hnext : s.apply b with
      | error fault =>
          rw [hnext] at h
          cases h
      | ok next =>
          rw [hnext] at h
          obtain ⟨hadmitted, rfl⟩ := State.apply_eq_ok_iff.mp hnext
          exact ⟨hadmitted, h⟩

/-- A box that was grown contains what it started from and the boxes of all blocks. -/
theorem growFrom_contains [OrderedScalar α] {lastLine : Nat} {s : State α} {box final : Box α}
    {blocks : List (Located (Block α))} (hbox : box.Numeric)
    (h : growFrom lastLine s box blocks = .ok final) :
    final.Contains box ∧
      ∀ before b after, blocks = before ++ b :: after →
        b.value.Admitted (s.afterAll before) ∧
          ∀ c ∈ b.value.boxes (s.afterAll before), c.Numeric → final.Contains c := by
  induction blocks generalizing s box with
  | nil =>
      rw [growFrom] at h
      cases hfinish : s.finish lastLine with
      | error fault =>
          rw [hfinish] at h
          cases h
      | ok _ =>
          rw [hfinish] at h
          cases h
          exact ⟨.refl hbox, fun before b after hsplit => by simp at hsplit⟩
  | cons first rest ih =>
      obtain ⟨hadmitted, hrest⟩ := growFrom_cons h
      obtain ⟨hnumeric, hgrown, hboxes⟩ := Box.foldl_cover_contains hbox (first.value.boxes s)
      obtain ⟨hfinal, hlater⟩ := ih hnumeric hrest
      refine ⟨hfinal.trans hgrown, fun before b after hsplit => ?_⟩
      -- The block is the first one, or a later one that the grown box is started with.
      cases before with
      | nil =>
          cases hsplit
          exact ⟨hadmitted, fun c hc hsides => hfinal.trans (hboxes c hc hsides)⟩
      | cons earlier before =>
          cases hsplit
          exact hlater before b after rfl

/-- The box of a document contains the boxes of all its blocks. -/
theorem bounds_contains [OrderedScalar α] {d : Document α} {box : Box α} (h : d.bounds = .ok box)
    {before after : List (Located (Block α))} {b : Located (Block α)}
    (hsplit : d.blocks = before ++ b :: after) :
    b.value.Admitted ((State.start d.apertures).afterAll before) ∧
      ∀ c ∈ b.value.boxes ((State.start d.apertures).afterAll before), c.Numeric →
        box.Contains c :=
  (growFrom_contains Box.numeric_empty h).2 before b after hsplit

end Document

end BoardMill.Gerber
