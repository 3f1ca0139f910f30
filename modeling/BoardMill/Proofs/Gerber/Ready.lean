import BoardMill.GCode.Motion
import BoardMill.Gerber.Extent

/-! # What a block needs of the state

Every pass over a document looks at a block before it is carried out, and fails only if the
block draws and no aperture is selected. What the pass makes of the block does not depend
on whether that was checked, so each pass splits into the check and a function that cannot
fail.
-/

namespace BoardMill

/-- An arc lies around the center that it was made with, is not too small, and leads from the
direction of its start to that of its end. -/
theorem Arc.of_ofPoints? {α : Type} [Scalar α] {start finish center : Point α}
    {clockwise : Bool} {arc : Arc α} (h : Arc.ofPoints? start finish center clockwise = some arc) :
    arc.center = center ∧ ¬ arc.radius < 1e-9 ∧
      arc.startAngle = Scalar.angle (start.y - center.y) (start.x - center.x) ∧
      arc.sweep = sweepBetween arc.startAngle
        (Scalar.angle (finish.y - center.y) (finish.x - center.x)) clockwise := by
  unfold Arc.ofPoints? at h
  obtain ⟨hradius, harc⟩ := Option.ite_none_left_eq_some.mp h
  cases harc
  exact ⟨rfl, hradius, rfl, rfl⟩

theorem Arc.center_of_ofPoints? {α : Type} [Scalar α] {start finish center : Point α}
    {clockwise : Bool} {arc : Arc α} (h : Arc.ofPoints? start finish center clockwise = some arc) :
    arc.center = center :=
  (Arc.of_ofPoints? h).1

end BoardMill

namespace BoardMill.Gerber

open GCode (Motion Command)

variable {α : Type} [Scalar α]

namespace State

/-- The motion of an interpolation from the current point. -/
def stroke (s : State α) (mode : Interpolation) (target : Point α) (center : Option (Point α)) :
    Motion α :=
  match s.arc? mode target center, center with
  | some _, some c => .arc (mode == .clockwise) s.position (s.pointToMm target) (s.pointToMm c)
  | _, _ => .cut (s.pointToMm target)

/-- The reach of what the current aperture draws, and of a contour inside a region. -/
def currentReach (s : State α) : Reach α :=
  if s.inRegion then ⟨0.0, 0.0, 0.0⟩
  else
    match s.current? with
    | some a => ⟨s.toMm a.half.width, s.toMm a.half.height, s.toMm (a.strokeWidth / 2.0)⟩
    | none => ⟨0.0, 0.0, 0.0⟩

/-- An interpolation that follows an arc has a center and is a curve. -/
theorem exists_center_of_arc? {s : State α} {mode : Interpolation} {target : Point α}
    {center : Option (Point α)} {arc : Arc α} (h : s.arc? mode target center = some arc) :
    mode ≠ .linear ∧ ∃ c, center = some c ∧
      Arc.ofPoints? s.position (s.pointToMm target) (s.pointToMm c) (mode == .clockwise) =
        some arc := by
  cases center with
  | none => cases mode <;> cases h
  | some c =>
      cases mode with
      | linear => cases h
      | clockwise => exact ⟨nofun, c, rfl, h⟩
      | counterclockwise => exact ⟨nofun, c, rfl, h⟩

/-- The motion of an interpolation is a curve if it follows an arc, and straight if not. -/
theorem stroke_cases (s : State α) (mode : Interpolation) (target : Point α)
    (center : Option (Point α)) :
    (s.arc? mode target center = none ∧
      s.stroke mode target center = .cut (s.pointToMm target)) ∨
    ∃ arc c, s.arc? mode target center = some arc ∧ center = some c ∧
      s.stroke mode target center =
        .arc (mode == .clockwise) s.position (s.pointToMm target) (s.pointToMm c) := by
  unfold stroke
  cases harc : s.arc? mode target center with
  | none => exact .inl ⟨rfl, rfl⟩
  | some arc =>
      obtain ⟨-, c, rfl, -⟩ := exists_center_of_arc? harc
      exact .inr ⟨arc, c, rfl, rfl, rfl⟩

omit [Scalar α] in
theorem require_of_current? {s : State α} {a : Aperture α} (h : s.current? = some a)
    (line : Nat) : s.require line = .ok a := by
  rw [require, h]
  rfl

omit [Scalar α] in
theorem require_of_no_current {s : State α} (h : s.current? = none) (line : Nat) :
    s.require line = .error (.noApertureSelected line) := by
  rw [require, h]
  rfl

end State

namespace Block

/-- What a block needs of the state before it: an aperture for a flash, and for an
interpolation outside a region. -/
def ready (b : Block α) (line : Nat) (s : State α) : Except Fault Unit :=
  match b with
  | .flash _ => (s.require line).map fun _ => ()
  | .interpolate .. => if s.inRegion then .ok () else (s.require line).map fun _ => ()
  | _ => .ok ()

/-- The motion that a block asks for once it is ready. -/
def goal? (b : Block α) (s : State α) : Option (Motion α) :=
  match b with
  | .select number =>
    (s.apertures.get? number).map fun a => .note (.aperture number (s.toMm a.strokeWidth))
  | .flash target => some (.stamp (s.pointToMm target))
  | .move target => some (.travel (s.pointToMm target))
  | .interpolate mode target center => some (s.stroke mode target center)
  | .regionStart => some (.note .regionStart)
  | .regionEnd => some (.note .regionEnd)
  | .polarity p => some (.note (.polarity p))
  | .format _ | .units _ | .attribute .. => none

/-- The boxes that a block needs once it is ready. -/
def boxes (b : Block α) (s : State α) : List (Box α) :=
  match b with
  | .flash target => (s.current?.map fun a => (a.footprint target).map s.toMm).toList
  | .interpolate mode target center =>
    let reach := s.currentReach
    let extremes := ((s.arc? mode target center).map Arc.axisExtremes).getD []
    Box.around s.position reach.endX reach.endY
      :: Box.around (s.pointToMm target) reach.endX reach.endY
      :: extremes.map fun p => Box.around p reach.side reach.side
  | _ => []

variable (b : Block α) (line : Nat) (s : State α)

omit [Scalar α] in
/-- The only reason for not being ready is a missing aperture. -/
theorem ready_cases : b.ready line s = .ok () ∨
    b.ready line s = .error (.noApertureSelected line) ∧ s.current? = none := by
  cases hcurrent : s.current? with
  | some a =>
      left
      cases b with
      | flash target => rw [ready, State.require_of_current? hcurrent]; rfl
      | interpolate mode target center =>
          rw [ready, State.require_of_current? hcurrent]
          split <;> rfl
      | _ => rfl
  | none =>
      cases b with
      | flash target =>
          rw [ready, State.require_of_no_current hcurrent]
          exact .inr ⟨rfl, rfl⟩
      | interpolate mode target center =>
          rw [ready, State.require_of_no_current hcurrent]
          split
          next => exact .inl rfl
          next => exact .inr ⟨rfl, rfl⟩
      | _ => exact .inl rfl

/-- The motion of a block is that of the ready block. -/
theorem motion?_eq : b.motion? line s = (b.ready line s).map fun _ => b.goal? s := by
  cases b with
  | flash target =>
      rw [motion?, ready]
      cases s.require line <;> rfl
  | interpolate mode target center =>
      simp only [motion?, ready, goal?, State.stroke]
      cases s.inRegion <;> cases s.require line <;> cases s.arc? mode target center <;>
        cases center <;> rfl
  | _ => rfl

theorem commands_eq (machine : Machine α) (place : Point α → Point α) (engaged : Bool) :
    b.commands machine place engaged line s =
      (b.ready line s).map fun _ =>
        ((b.goal? s).map (·.commands machine place engaged)).getD [] := by
  rw [commands, motion?_eq]
  cases b.ready line s with
  | error fault => rfl
  | ok _ => cases b.goal? s <;> rfl

/-- The commands of a block are those of its motion, or none. -/
theorem commands_cases {b : Block α} {line : Nat} {s : State α} {machine : Machine α}
    {place : Point α → Point α} {engaged : Bool} {commands : List (Command α)}
    (h : b.commands machine place engaged line s = .ok commands) :
    (b.goal? s = none ∧ commands = []) ∨
      ∃ m, b.goal? s = some m ∧ commands = m.commands machine place engaged := by
  rw [commands_eq] at h
  rcases b.ready_cases line s with hready | ⟨hready, -⟩
  · rw [hready] at h
    cases hgoal : b.goal? s with
    | none =>
        rw [hgoal] at h
        cases h
        exact .inl ⟨rfl, rfl⟩
    | some m =>
        rw [hgoal] at h
        cases h
        exact .inr ⟨m, rfl, rfl⟩
  · rw [hready] at h
    cases h

/-- The boxes of a block are those of the ready block. -/
theorem footprints_eq : b.footprints line s = (b.ready line s).map fun _ => b.boxes s := by
  cases b with
  | flash target =>
      rw [footprints, ready, boxes, State.require]
      cases s.current? <;> rfl
  | interpolate mode target center =>
      rw [footprints, ready, boxes, State.reach, State.currentReach, State.require]
      cases s.inRegion <;> cases s.current? <;> rfl
  | _ => rfl

theorem grow_eq (box : Box α) :
    b.grow line s box = (b.ready line s).map fun _ => (b.boxes s).foldl Box.cover box := by
  rw [grow, footprints_eq]
  cases b.ready line s <;> rfl

end Block

end BoardMill.Gerber
