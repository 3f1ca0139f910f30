import BoardMill.Proofs.Box.Contains
import BoardMill.Proofs.Scalar.Exact

/-! # Boxes in exact arithmetic

A box around a point holds the point, and the shift that takes a box to the origin takes the
points in it into a frame of the size of the box.
-/

namespace BoardMill

/-- A point lies between the origin and the opposite corner of a box at the origin. -/
structure Box.Frames {α : Type} [Scalar α] (b : Box α) (p : Point α) : Prop where
  left : 0.0 ≤ p.x
  right : p.x ≤ b.width
  bottom : 0.0 ≤ p.y
  top : p.y ≤ b.height

variable {K : Type} [Field K] [LinearOrder K] [IsStrictOrderedRing K] [FloorRing K] [Analytic K]

namespace Box

/-- The shift to the origin takes the finite points of a box into its frame. -/
theorem frames_toOrigin {b : Box (Exact K)} {p : Point (Exact K)} (hp : p.Finite)
    (h : b.Holds p) : b.Frames (b.toOrigin p) := by
  obtain ⟨x, hx⟩ := Exact.exists_number hp.x
  obtain ⟨y, hy⟩ := Exact.exists_number hp.y
  have hempty := h.isEmpty
  have hanchor : b.anchor = b.minCorner := by simp [anchor, hempty]
  have hwidth : b.width = b.xMax - b.xMin := by simp [width, hempty]
  have hheight : b.height = b.yMax - b.yMin := by simp [height, hempty]
  have hxMin := h.xMin
  have hxMax := h.xMax
  have hyMin := h.yMin
  have hyMax := h.yMax
  rw [hx] at hxMin hxMax
  rw [hy] at hyMin hyMax
  unfold toOrigin
  rw [hanchor, hx, hy]
  exact
    { left := Exact.zero_le_sub hxMin
      right := hwidth ▸ Exact.sub_le_sub hxMin hxMax
      bottom := Exact.zero_le_sub hyMin
      top := hheight ▸ Exact.sub_le_sub hyMin hyMax }

/-- The box around a point holds the point. -/
theorem holds_around {p : Point (Exact K)} {halfX halfY : Exact K} (hp : p.Finite)
    (hx : halfX.Nonneg) (hy : halfY.Nonneg) : (around p halfX halfY).Holds p := by
  obtain ⟨x, y⟩ := p
  obtain ⟨x, rfl⟩ := Exact.exists_number hp.x
  obtain ⟨y, rfl⟩ := Exact.exists_number hp.y
  obtain ⟨w, hw, rfl⟩ := hx
  obtain ⟨h, hh, rfl⟩ := hy
  constructor <;> simp [around, hw, hh]

end Box

end BoardMill
