import BoardMill.Proofs.Box.Cover
import BoardMill.Proofs.Gerber.Ready
import BoardMill.Proofs.Outcome

/-! # Boxes of documents as merges

A block grows a box by covering it with boxes of its own, whatever the box was before. The
box of a document therefore covers the boxes of its blocks, taken alone, in any order.
-/

namespace BoardMill.Gerber

open Outcome

variable {α : Type} [Scalar α]

namespace Block

variable {b : Block α} {line : Nat} {s : State α} {box grown : Box α}

theorem grow_eq_ok_iff :
    b.grow line s box = .ok grown ↔
      b.ready line s = .ok () ∧ grown = (b.boxes s).foldl Box.cover box := by
  rw [grow_eq]
  cases b.ready line s with
  | error fault => simp [Except.map]
  | ok _ => simp [Except.map, eq_comm]

/-- Where a box is grown, so is the empty one, and both by the same boxes. -/
theorem exists_grow_empty (h : b.grow line s box = .ok grown) :
    b.grow line s .empty = .ok ((b.boxes s).foldl Box.cover .empty) ∧
      grown = (b.boxes s).foldl Box.cover box := by
  obtain ⟨hready, hgrown⟩ := grow_eq_ok_iff.mp h
  exact ⟨grow_eq_ok_iff.mpr ⟨hready, rfl⟩, hgrown⟩

end Block

namespace Document

/-- The boxes of some blocks, each grown from nothing in the state that the blocks before it
lead to. -/
def piecesFrom (s : State α) : List (Located (Block α)) → Except Fault (List (Box α))
  | [] => pure []
  | b :: rest => do
    let piece ← b.value.grow b.line s .empty
    let next ← s.apply b
    return piece :: (← piecesFrom next rest)

def pieces (d : Document α) : Except Fault (List (Box α)) :=
  piecesFrom (.start d.apertures) d.blocks

/-- Where a box is grown by blocks, each of them adds its own boxes to it, and the same
boxes are what it makes of nothing. -/
theorem exists_parts_of_growFrom {lastLine : Nat} {s : State α} {box final : Box α}
    {blocks : List (Located (Block α))} (h : growFrom lastLine s box blocks = .ok final) :
    ∃ parts : List (List (Box α)),
      piecesFrom s blocks = .ok (parts.map fun part => part.foldl Box.cover .empty) ∧
        final = parts.flatten.foldl Box.cover box := by
  induction blocks generalizing s box with
  | nil =>
      rw [growFrom] at h
      obtain ⟨_, -, h⟩ := bind_eq_ok.mp h
      cases h
      exact ⟨[], rfl, rfl⟩
  | cons b rest ih =>
      rw [growFrom] at h
      obtain ⟨grown, hgrown, h⟩ := bind_eq_ok.mp h
      obtain ⟨next, hnext, h⟩ := bind_eq_ok.mp h
      obtain ⟨hempty, rfl⟩ := Block.exists_grow_empty hgrown
      obtain ⟨parts, hpieces, rfl⟩ := ih h
      refine ⟨b.value.boxes s :: parts, ?_, ?_⟩
      · rw [piecesFrom, hempty]
        simp only [bind, Except.bind, hnext, hpieces]
        rfl
      · rw [List.flatten_cons, List.foldl_append]

end Document

/-- The box of a document covers the boxes of its blocks, taken alone, in any order. A block
grows a box of numbers to what covers it and what the block makes of nothing. With sides that
are not numbers that holds once those that stay so have given way to the sides of nothing. -/
theorem Document.bounds_merge_pieces :
    (∀ (d : Document Float) (box : Box Float), d.bounds = .ok box →
      ∃ pieces, d.pieces = .ok pieces ∧
        ∀ order : List (Box Float), order.Perm pieces →
          (order.foldl Box.cover .empty == box) = true) ∧
    ∀ (b : Block Float) (line : Nat) (s : State Float) (box grown : Box Float),
      b.grow line s box = .ok grown →
      ∃ alone, b.grow line s .empty = .ok alone ∧
        (box.Numeric → (grown == box.cover alone) = true) ∧
        (grown.cover .empty == box.cover alone) = true := by
  refine ⟨fun d box h => ?_, fun b line s box grown h => ?_⟩
  · obtain ⟨parts, hpieces, rfl⟩ := exists_parts_of_growFrom h
    refine ⟨_, hpieces, fun order hperm => ?_⟩
    apply Box.beq_of_reaches_iff (Box.numeric_empty.foldl_cover _) (Box.numeric_empty.foldl_cover _)
    intro x
    rw [Box.reaches_foldl_cover_iff, Box.reaches_foldl_cover_iff]
    refine and_congr_right fun hempty => ?_
    have hpart (part : List (Box Float)) :
        x.Reaches (part.foldl Box.cover .empty) ↔ ∀ c ∈ part, x.Reaches c := by
      rw [Box.reaches_foldl_cover_iff]
      exact and_iff_right hempty
    simp only [hperm.mem_iff, List.forall_mem_map, List.forall_mem_flatten, hpart]
  · obtain ⟨halone, rfl⟩ := Block.exists_grow_empty h
    refine ⟨_, halone, fun hbox => ?_, ?_⟩
    · apply Box.beq_of_reaches_iff (hbox.foldl_cover _) (hbox.cover _)
      intro x
      rw [Box.reaches_cover_iff, Box.reaches_foldl_cover_iff, Box.reaches_foldl_cover_iff]
      exact and_congr_right fun hx => (and_iff_right (hx.empty hbox)).symm
    · apply Box.beq_of_reaches_iff (.cover_right _ Box.numeric_empty)
        (.cover_right _ (Box.numeric_empty.foldl_cover _))
      intro x
      rw [Box.reaches_cover_iff, Box.reaches_cover_iff, Box.reaches_foldl_cover_iff,
        Box.reaches_foldl_cover_iff]
      tauto

/-- A contour of one edge, its boxes covered from the last one to the first, and the box that
its edge adds to one that has a point elsewhere. -/
theorem Document.bounds_merge_pieces_contour :
    let edge : Block Float := .interpolate .linear ⟨1.0, 0.0⟩ none
    let d : Document Float :=
      ⟨[⟨1, .regionStart⟩, ⟨2, .move ⟨0.0, -0.5⟩⟩, ⟨3, edge⟩, ⟨4, .regionEnd⟩], .empty⟩
    let s : State Float := { State.start .empty with inRegion := true }
    let point : Box Float := .ofPoint ⟨-2.0, 3.0⟩
    (∃ box pieces, d.bounds = .ok box ∧ d.pieces = .ok pieces ∧ pieces.length = 4 ∧
      (pieces.reverse.foldl Box.cover .empty == box) = true) ∧
    ∃ grown alone, edge.grow 3 s point = .ok grown ∧ edge.grow 3 s .empty = .ok alone ∧
      (grown == point.cover alone) = true := by
  intro edge d s point
  obtain ⟨hmerge, hgrow⟩ := Document.bounds_merge_pieces
  constructor
  · obtain ⟨pieces, hpieces, hperm⟩ := hmerge d _ rfl
    have hlength : pieces.length = 4 := by
      cases hpieces
      rfl
    exact ⟨_, pieces, rfl, hpieces, hlength, hperm _ pieces.reverse_perm⟩
  · obtain ⟨alone, halone, hcover, -⟩ := hgrow edge 3 s point _ rfl
    exact ⟨_, alone, rfl, halone, hcover ⟨by decide, by decide, by decide, by decide⟩⟩

/-- A move leaves a box as it is, also one whose sides are not numbers. Covered with nothing,
such a box becomes that of nothing. -/
theorem Block.grow_move_notANumber :
    let nan : Float := 0.0 / 0.0
    let box : Box Float := ⟨nan, nan, nan, nan⟩
    let move : Block Float := .move ⟨0.0, 0.0⟩
    move.grow 1 (.start .empty) box = .ok box ∧
      move.grow 1 (.start .empty) .empty = .ok .empty ∧
      box.cover .empty = .empty ∧
      (box == box.cover .empty) = false ∧
      Scalar.isNaN box.xMin = true ∧ Scalar.isNaN (box.cover .empty).xMin = false := by
  refine ⟨rfl, rfl, rfl, rfl, rfl, rfl⟩

end BoardMill.Gerber
