import BoardMill.Scalar

/-! # Circular arcs

An arc runs from a start point around a center until it reaches the direction of
an end point. Its sweep is signed: counter-clockwise is positive. A start and an
end in the same direction make a full circle.
-/

namespace BoardMill

/-- An arc of a circle, from an angle through a signed sweep. -/
structure Arc (α : Type) where
  center : Point α
  radius : α
  startAngle : α
  sweep : α
  deriving BEq, Repr

namespace Arc

variable {α : Type} [Scalar α]

/-- The signed angle from one direction to another, a full turn if they agree. -/
def sweepBetween (startAngle endAngle : α) (clockwise : Bool) : α :=
  let s := endAngle - startAngle
  if clockwise then
    if -1e-12 ≤ s then s - Scalar.turn else s
  else
    if s ≤ 1e-12 then s + Scalar.turn else s

/-- The arc through a start point. There is none if the center lies on the start
point. -/
def ofPoints? (start finish center : Point α) (clockwise : Bool) : Option (Arc α) :=
  let radius := Scalar.sqrt (Scalar.sq (start.x - center.x) + Scalar.sq (start.y - center.y))
  if radius < 1e-9 then none
  else
    let startAngle := Scalar.angle (start.y - center.y) (start.x - center.x)
    let endAngle := Scalar.angle (finish.y - center.y) (finish.x - center.x)
    some
      { center
        radius
        startAngle
        sweep := sweepBetween startAngle endAngle clockwise }

/-- The point of the circle in a direction. -/
def pointAt (a : Arc α) (angle : α) : Point α :=
  ⟨a.center.x + a.radius * Scalar.cos angle, a.center.y + a.radius * Scalar.sin angle⟩

/-- How many chords stand for the arc: one for about two degrees, two at least. -/
def chords (a : Arc α) : Nat :=
  Nat.max (Scalar.toNat (Scalar.ceil (Scalar.abs a.sweep / (Scalar.pi / 90.0)))) 2

/-- The ends of the chords, from the start of the arc to its end. -/
def points (a : Arc α) : List (Point α) :=
  (List.range (a.chords + 1)).map fun k =>
    let t : α := Scalar.ofNat k / Scalar.ofNat a.chords
    a.pointAt (a.startAngle + t * a.sweep)

/-- Whether the arc passes a direction, ends included. -/
def passes (a : Arc α) (angle : α) : Bool :=
  let delta :=
    if 0.0 ≤ a.sweep then Scalar.wrap (angle - a.startAngle) Scalar.turn
    else Scalar.wrap (a.startAngle - angle) Scalar.turn
  delta ≤ Scalar.abs a.sweep + 1e-12

/-- The directions of the half axes: right, up, left, down. -/
def axisAngles : List α :=
  (List.range 4).map fun k => Scalar.ofNat k * Scalar.pi / 2.0

/-- The outermost points of the circle along the axes that the arc passes. -/
def axisExtremes (a : Arc α) : List (Point α) :=
  (axisAngles.filter a.passes).map a.pointAt

end Arc

end BoardMill
