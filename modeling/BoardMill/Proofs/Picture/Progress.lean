import BoardMill.Picture.Drawing
import BoardMill.Proofs.Gerber.Steps
import BoardMill.Proofs.Outcome
import Mathlib.Data.List.Induction

/-! # Progress of a drawing

Drawing a document is a loop: a block is drawn and then carried out. What holds before the first
block and is kept by every block that is drawn and carried out therefore holds after any beginning
of a document.
-/

namespace BoardMill.Gerber

open Outcome

variable {α : Type} [Numeral α] (options : PictureOptions α) (frame : Frame α)

/-- Draws a block and carries it out. -/
def drawStep (made : State α × Drawing α) (b : Located (Block α)) :
    Except Fault (State α × Drawing α) := do
  let d ← b.value.draw options frame b.line made.1 made.2
  let s ← made.1.apply b
  return (s, d)

/-- The state and the drawing that some blocks lead to from the start of a document. -/
def drawTo (apertures : ApertureTable α) (blocks : List (Located (Block α))) :
    Except Fault (State α × Drawing α) :=
  blocks.foldlM (drawStep options frame) (.start apertures, .start)

variable {options frame} {s later : State α} {d next : Drawing α} {b : Located (Block α)}

theorem drawStep_eq_ok :
    drawStep options frame (s, d) b = .ok (later, next) ↔
      b.value.draw options frame b.line s d = .ok next ∧ b.value.Admitted s ∧
        s.after b.value = later := by
  unfold drawStep
  rw [← State.apply_eq_ok_iff, bind_eq_ok]
  constructor
  · rintro ⟨drawing, hdraw, h⟩
    obtain ⟨state, happly, h⟩ := bind_eq_ok.mp h
    cases h
    exact ⟨hdraw, happly⟩
  · rintro ⟨hdraw, happly⟩
    exact ⟨next, hdraw, bind_eq_ok.mpr ⟨later, happly, rfl⟩⟩

/-- A drawing is complete if its loop comes through and no region is left open. -/
theorem drawFrom_eq_ok {lastLine : Nat} {blocks : List (Located (Block α))} :
    drawFrom options frame lastLine s d blocks = (next, .ok ()) ↔
      ∃ later, blocks.foldlM (drawStep options frame) (s, d) = .ok (later, next) ∧
        later.finish lastLine = .ok () := by
  induction blocks generalizing s d with
  | nil =>
      constructor
      · intro h
        cases hfinish : s.finish lastLine with
        | error fault =>
            rw [drawFrom, hfinish] at h
            cases h
        | ok _ =>
            rw [drawFrom, hfinish] at h
            cases h
            exact ⟨s, rfl, hfinish⟩
      · rintro ⟨later, h, hfinish⟩
        cases h
        rw [drawFrom, hfinish]
  | cons b rest ih =>
      rw [drawFrom, List.foldlM_cons, drawStep]
      cases hdraw : b.value.draw options frame b.line s d with
      | error fault => simp [bind, Except.bind]
      | ok drawing =>
          cases happly : s.apply b with
          | error fault => simp [bind, Except.bind]
          | ok state => exact ih

/-- Blocks that were drawn and carried out are those that the rest is drawn behind. -/
theorem drawFrom_append {lastLine : Nat} {before : List (Located (Block α))}
    (h : before.foldlM (drawStep options frame) (s, d) = .ok (later, next))
    (after : List (Located (Block α))) :
    drawFrom options frame lastLine s d (before ++ after) =
      drawFrom options frame lastLine later next after := by
  induction before generalizing s d with
  | nil =>
      cases h
      rfl
  | cons b rest ih =>
      rw [List.foldlM_cons] at h
      obtain ⟨⟨s', d'⟩, hb, hrest⟩ := bind_eq_ok.mp h
      obtain ⟨hdraw, hadmitted⟩ := drawStep_eq_ok.mp hb
      rw [List.cons_append, drawFrom, hdraw, State.apply_eq_ok_iff.mpr hadmitted]
      exact ih hrest

/-- Drawing carries out the blocks. -/
theorem foldlM_apply_of_drawStep {blocks : List (Located (Block α))}
    (h : blocks.foldlM (drawStep options frame) (s, d) = .ok (later, next)) :
    blocks.foldlM State.apply s = .ok later := by
  induction blocks generalizing s d with
  | nil =>
      cases h
      rfl
  | cons b rest ih =>
      rw [List.foldlM_cons] at h
      obtain ⟨⟨s', d'⟩, hb, hrest⟩ := bind_eq_ok.mp h
      rw [List.foldlM_cons]
      exact bind_eq_ok.mpr ⟨s', State.apply_eq_ok_iff.mpr (drawStep_eq_ok.mp hb).2, ih hrest⟩

theorem draw_eq_ok {doc : Document α} :
    doc.draw options frame = (next, .ok ()) ↔
      ∃ later, drawTo options frame doc.apertures doc.blocks = .ok (later, next) ∧
        later.finish doc.lastLine = .ok () :=
  drawFrom_eq_ok

/-- What every block keeps that is drawn and carried out. -/
theorem drawTo_keeps {P : List (Block α) → State α → Drawing α → Prop}
    {apertures : ApertureTable α} {blocks : List (Located (Block α))}
    (hstart : P [] (.start apertures) .start)
    (hstep : ∀ before s d (b : Located (Block α)) next, P before s d → b.value.Admitted s →
      b.value.draw options frame b.line s d = .ok next →
        P (before ++ [b.value]) (s.after b.value) next)
    (h : drawTo options frame apertures blocks = .ok (later, next)) :
    P (blocks.map Located.value) later next := by
  induction blocks using List.reverseRecOn generalizing later next with
  | nil =>
      cases h
      exact hstart
  | append_singleton before b ih =>
      obtain ⟨⟨s, d⟩, made, hbefore, hb, hlast⟩ := exists_of_foldlM_split h
      cases hlast
      obtain ⟨hdraw, hadmitted, rfl⟩ := drawStep_eq_ok.mp hb
      rw [List.map_append]
      exact hstep _ s d b next (ih hbefore) hadmitted hdraw

end BoardMill.Gerber
