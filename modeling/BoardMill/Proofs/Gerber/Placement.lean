import BoardMill.Proofs.Box.Frames
import BoardMill.Proofs.GCode.Path
import BoardMill.Proofs.Gerber.Extent
import BoardMill.Proofs.Gerber.Pass
import BoardMill.Proofs.Gerber.Sound
import Mathlib.Data.Rat.Floor
import Mathlib.Data.Rat.Sqrt

/-! # Where cuts land

In exact arithmetic the box of a document holds every point that the tool draws at. The
program of a document, shifted so that a box around it comes to the origin, therefore cuts
within the frame of that box.
-/

namespace BoardMill

variable {K : Type} [Field K] [LinearOrder K] [IsStrictOrderedRing K] [FloorRing K] [Analytic K]

namespace Units

theorem exists_scale (u : Units) : ∃ k > 0, (u.scale : Exact K) = .number k := by
  cases u with
  | millimeters => exact ⟨1, one_pos, Exact.one_eq⟩
  | inches => exact ⟨25.4, by norm_num, rfl⟩

theorem nonneg_toMm (u : Units) {length : Exact K} (h : length.Nonneg) :
    (u.toMm length).Nonneg := by
  obtain ⟨k, hk, hscale⟩ := u.exists_scale (K := K)
  obtain ⟨x, hx, rfl⟩ := h
  exact ⟨x * k, mul_nonneg hx hk.le, by rw [toMm, hscale, Exact.number_mul]⟩

theorem finite_pointToMm (u : Units) {p : Point (Exact K)} (h : p.Finite) :
    (u.pointToMm p).Finite := by
  obtain ⟨k, hk, hscale⟩ := u.exists_scale (K := K)
  obtain ⟨x, hx⟩ := Exact.exists_number h.x
  obtain ⟨y, hy⟩ := Exact.exists_number h.y
  rw [pointToMm, toMm, toMm, hscale, hx, hy]
  exact ⟨rfl, rfl⟩

end Units

namespace Aperture

variable {a : Aperture (Exact K)}

omit [IsStrictOrderedRing K] in
theorem isNonneg_of_check (h : a.check = .ok ()) : a.size.isNonneg = true := by
  unfold check at h
  split at h
  · cases h
  next hnonneg => simpa using hnonneg

/-- Half the width and half the height of a usable aperture are not negative. -/
theorem Usable.nonneg_half (h : a.Usable) : a.half.width.Nonneg ∧ a.half.height.Nonneg := by
  have hnonneg := isNonneg_of_check h.checked
  rw [Size.isNonneg, Bool.and_eq_true, decide_eq_true_iff, decide_eq_true_iff] at hnonneg
  obtain ⟨w, hw, hwidth⟩ := Exact.nonneg_of_le h.finite.width hnonneg.1
  obtain ⟨t, ht, hheight⟩ := Exact.nonneg_of_le h.finite.height hnonneg.2
  rw [half, hwidth, hheight, Exact.two_eq, Exact.number_div two_ne_zero,
    Exact.number_div two_ne_zero]
  exact ⟨⟨w / 2, by positivity, rfl⟩, ⟨t / 2, by positivity, rfl⟩⟩

/-- The footprint of a usable aperture at a point, in millimetres, holds the point. -/
theorem Usable.holds_footprint (h : a.Usable) (u : Units) {p : Point (Exact K)} (hp : p.Finite) :
    ((a.footprint p).map u.toMm).Holds (u.pointToMm p) := by
  obtain ⟨x, y⟩ := p
  obtain ⟨x, rfl⟩ := Exact.exists_number hp.x
  obtain ⟨y, rfl⟩ := Exact.exists_number hp.y
  obtain ⟨⟨w, hw, hwidth⟩, ⟨t, ht, hheight⟩⟩ := h.nonneg_half
  obtain ⟨k, hk, hscale⟩ := u.exists_scale (K := K)
  rw [footprint, hwidth, hheight]
  constructor <;> simp [Box.around, Box.map, Units.pointToMm, Units.toMm, hscale, hk, hw, ht]

end Aperture

namespace Gerber

/-! ## States of sound documents -/

namespace State

variable {α : Type}

@[simp] theorem afterAll_apertures (s : State α) (blocks : List (Located (Block α))) :
    (s.afterAll blocks).apertures = s.apertures := by
  induction blocks generalizing s with
  | nil => rfl
  | cons b rest ih => exact (ih _).trans (s.after_apertures b.value)

theorem mem_of_current? {s : State α} {a : Aperture α} (h : s.current? = some a) :
    a ∈ s.apertures.entries := by
  obtain ⟨number, -, hget⟩ := Option.bind_eq_some_iff.mp h
  exact List.mem_of_find?_eq_some hget

theorem finite_of_target? [Scalar α] {b : Block α} (h : b.Finite) {p : Point α}
    (hp : b.target? = some p) : p.Finite := by
  cases b with
  | flash target =>
      cases hp
      exact h
  | move target =>
      cases hp
      exact h
  | interpolate mode target center =>
      cases hp
      exact h.1
  | _ => cases hp

/-- The current point stays finite. -/
theorem finite_cursor_afterAll [Scalar α] {s : State α} (hs : s.cursor.Finite)
    {blocks : List (Located (Block α))} (hblocks : ∀ b ∈ blocks, b.value.Finite) :
    (s.afterAll blocks).cursor.Finite := by
  induction blocks generalizing s with
  | nil => exact hs
  | cons b rest ih =>
      obtain ⟨hb, hrest⟩ := List.forall_mem_cons.mp hblocks
      have hnext : (s.after b.value).cursor.Finite := by
        rw [after_cursor]
        cases htarget : b.value.target? with
        | none => exact hs
        | some p => exact finite_of_target? hb htarget
      exact ih hnext hrest

theorem nonneg_currentReach {s : State (Exact K)} (hs : ∀ a ∈ s.apertures.entries, a.Usable) :
    s.currentReach.endX.Nonneg ∧ s.currentReach.endY.Nonneg := by
  unfold currentReach
  split
  · exact ⟨Exact.nonneg_zero, Exact.nonneg_zero⟩
  · split
    next a hcurrent =>
      obtain ⟨hwidth, hheight⟩ := (hs a (mem_of_current? hcurrent)).nonneg_half
      exact ⟨s.units.nonneg_toMm hwidth, s.units.nonneg_toMm hheight⟩
    next => exact ⟨Exact.nonneg_zero, Exact.nonneg_zero⟩

end State

/-! ## Points that the box holds -/

namespace Block

/-- A block that draws: a flash or an interpolation. -/
def draws {α : Type} : Block α → Bool
  | flash _ | interpolate .. => true
  | _ => false

variable {s : State (Exact K)} {b : Block (Exact K)}

/-- One of the boxes of a block that draws holds its target. -/
theorem exists_box_holds_target (hs : ∀ a ∈ s.apertures.entries, a.Usable) (hb : b.Finite)
    (hadmitted : b.Admitted s) (hdraws : b.draws = true) {p : Point (Exact K)}
    (hp : b.target? = some p) : ∃ c ∈ b.boxes s, c.Holds (s.pointToMm p) := by
  cases b with
  | flash target =>
      obtain rfl : target = p := Option.some.inj hp
      obtain ⟨a, ha⟩ := Option.isSome_iff_exists.mp hadmitted.2
      refine ⟨(a.footprint target).map s.toMm, ?_, ?_⟩
      · simp [boxes, ha]
      · exact (hs a (State.mem_of_current? ha)).holds_footprint s.units hb
  | interpolate mode target center =>
      obtain rfl : target = p := Option.some.inj hp
      obtain ⟨hx, hy⟩ := State.nonneg_currentReach hs
      refine ⟨Box.around (s.pointToMm target) s.currentReach.endX s.currentReach.endY, ?_, ?_⟩
      · exact List.mem_cons_of_mem _ List.mem_cons_self
      · exact Box.holds_around (s.units.finite_pointToMm hb.1) hx hy
  | _ => cases hdraws

/-- One of the boxes of a stroke holds the current point. -/
theorem exists_box_holds_position (hs : ∀ a ∈ s.apertures.entries, a.Usable)
    (hcursor : s.cursor.Finite) (hstroke : b.isStroke = true) :
    ∃ c ∈ b.boxes s, c.Holds s.position := by
  cases b with
  | interpolate mode target center =>
      obtain ⟨hx, hy⟩ := State.nonneg_currentReach hs
      refine ⟨Box.around s.position s.currentReach.endX s.currentReach.endY, ?_, ?_⟩
      · exact List.mem_cons_self
      · exact Box.holds_around (s.units.finite_pointToMm hcursor) hx hy
  | _ => cases hstroke

end Block

namespace Document

variable {d : Document (Exact K)} {box : Box (Exact K)}

omit [IsStrictOrderedRing K] in
theorem Sound.usable_afterAll (h : d.Sound) (before : List (Located (Block (Exact K)))) :
    ∀ a ∈ ((State.start d.apertures).afterAll before).apertures.entries, a.Usable := by
  rw [State.afterAll_apertures]
  exact h.apertures

/-- The box of a sound document holds the targets of the blocks that draw, and the current
points before strokes. -/
theorem Sound.bounds_holds (h : d.Sound) (hbounds : d.bounds = .ok box)
    {before after : List (Located (Block (Exact K)))} {b : Located (Block (Exact K))}
    (hsplit : d.blocks = before ++ b :: after) :
    let s := (State.start d.apertures).afterAll before
    (b.value.draws = true → ∀ p, b.value.target? = some p →
      (s.pointToMm p).Finite ∧ box.Holds (s.pointToMm p)) ∧
    (b.value.isStroke = true → s.position.Finite ∧ box.Holds s.position) := by
  intro s
  -- All that comes into the boxes is finite: the cursor, the targets and the half sizes.
  have hfinite : ∀ b' ∈ before ++ b :: after, b'.value.Finite := hsplit ▸ h.blocks
  obtain ⟨hbefore, hrest⟩ := List.forall_mem_append.mp hfinite
  have hb : b.value.Finite := hrest b List.mem_cons_self
  have hcursor : s.cursor.Finite := State.finite_cursor_afterAll ⟨rfl, rfl⟩ hbefore
  have hs : ∀ a ∈ s.apertures.entries, a.Usable := h.usable_afterAll before
  obtain ⟨hadmitted, hboxes⟩ := bounds_contains hbounds hsplit
  refine ⟨fun hdraws p hp => ?_, fun hstroke => ?_⟩
  · obtain ⟨c, hc, hholds⟩ := Block.exists_box_holds_target hs hb hadmitted hdraws hp
    exact ⟨s.units.finite_pointToMm (State.finite_of_target? hb hp),
      (hboxes c hc hholds.numeric).holds hholds⟩
  · obtain ⟨c, hc, hholds⟩ := Block.exists_box_holds_position hs hcursor hstroke
    exact ⟨s.units.finite_pointToMm hcursor, (hboxes c hc hholds.numeric).holds hholds⟩

end Document

/-- The path command of a block that goes somewhere ends at the place of its target. -/
theorem Block.target?_pathCommand? {α : Type} [Scalar α] (machine : Machine α)
    (place : Point α → Point α) (before : List (Block α)) {b : Block α} {p : Point α}
    (hp : b.target? = some p) :
    ∃ c, b.pathCommand? machine place before = some c ∧
      c.target? = some (place ((unitsAfter before).pointToMm p)) := by
  have htarget := b.bind_pathCommand? machine place before
  rw [hp] at htarget
  exact Option.bind_eq_some_iff.mp htarget

theorem Block.exists_target?_of_draws {α : Type} {b : Block α} (h : b.draws = true) :
    ∃ p, b.target? = some p := by
  cases b with
  | flash target => exact ⟨target, rfl⟩
  | interpolate mode target center => exact ⟨target, rfl⟩
  | _ => cases h

/-- In exact arithmetic, a document that is read from a text and draws anything has a box
that is not empty. The program that is shifted by a box around it to the origin flashes, and
starts and ends every cut, between the origin and the opposite corner of that box. -/
theorem Document.draws_within_bounds {text : List Char} {d : Document (Exact K)}
    {box : Box (Exact K)} (hread : Document.ofText? text = .ok d)
    (hbounds : d.bounds = .ok box) :
    ((∃ b ∈ d.blocks, b.value.draws = true) → box.isEmpty = false) ∧
      ∀ (around : Box (Exact K)), around.Contains box →
        ∀ (machine : Machine (Exact K)) (engaged : Bool) (title : String),
          let run := d.body machine around.toOrigin engaged title
          run.ending = .ok () ∧
          (run.program machine).filter GCode.Command.isPath = d.path machine around.toOrigin ∧
          ∀ before b after, d.blocks = before ++ b :: after →
            let earlier := before.map Located.value
            (b.value.draws = true →
              ∃ c p, b.value.pathCommand? machine around.toOrigin earlier = some c ∧
                c.target? = some p ∧ around.Frames p) ∧
            (b.value.isStroke = true →
              around.Frames
                (around.toOrigin ((unitsAfter earlier).pointToMm (cursorAfter earlier)))) := by
  have hsound : d.Sound := Document.sound_of_ofText? hread
  refine ⟨?_, ?_⟩
  · rintro ⟨b, hmem, hdraws⟩
    obtain ⟨before, after, hsplit⟩ := List.append_of_mem hmem
    obtain ⟨p, hp⟩ := Block.exists_target?_of_draws hdraws
    exact ((hsound.bounds_holds hbounds hsplit).1 hdraws p hp).2.isEmpty
  · intro around haround machine engaged title run
    have hend : run.ending = .ok () := ending_of_bounds hbounds machine _ engaged title
    refine ⟨hend, filter_program hend, ?_⟩
    intro before b after hsplit earlier
    obtain ⟨htarget, hposition⟩ := hsound.bounds_holds hbounds hsplit
    have hfollows := (State.Follows.start d.apertures).afterAll before
    refine ⟨fun hdraws => ?_, fun hstroke => ?_⟩
    · obtain ⟨p, hp⟩ := Block.exists_target?_of_draws hdraws
      obtain ⟨c, hc, hplace⟩ := Block.target?_pathCommand? machine around.toOrigin earlier hp
      obtain ⟨hfinite, hholds⟩ := htarget hdraws p hp
      have hframes := Box.frames_toOrigin hfinite (haround.holds hholds)
      rw [State.pointToMm, hfollows.units] at hframes
      exact ⟨c, _, hc, hplace, hframes⟩
    · obtain ⟨hfinite, hholds⟩ := hposition hstroke
      have hframes := Box.frames_toOrigin hfinite (haround.holds hholds)
      rw [State.position, State.pointToMm, hfollows.units, hfollows.cursor] at hframes
      exact hframes

section Rational

/-- Rational numbers, with coarse values where the exact ones are irrational. -/
local instance coarse : Analytic ℚ where
  sqrt := Rat.sqrt
  sin x := x - x ^ 3 / 6
  cos x := 1 - x ^ 2 / 2
  angle y x := if x = 0 then 11 / 7 * SignType.sign y else y / x
  pi := 22 / 7
  fixed _ x := toString x
  plain x := toString x

/-- A contour with one edge is drawn within its box, and milled within a larger board. -/
theorem Document.draws_within_bounds_contour :
    let board : Box (Exact ℚ) := ⟨0.0, 2.0, -1.0, 1.0⟩
    ∃ (d : Document (Exact ℚ)) (box : Box (Exact ℚ)),
      Document.ofText? "%FSLAX11Y11*%G36*X0Y0D02*X10Y0D01*G37*M02*".toList = .ok d ∧
        d.bounds = .ok box ∧ (∃ b ∈ d.blocks, b.value.draws = true) ∧ box.isEmpty = false ∧
        board.Contains box ∧ (d.body .default board.toOrigin false "job").ending = .ok () := by
  intro board
  let accepted (d : Document (Exact ℚ)) : Bool :=
    match d.bounds with
    | .ok box => d.blocks.any (·.value.draws) && decide (board.Contains box)
    | .error _ => false
  have haccepted : (match (Document.ofText?
      "%FSLAX11Y11*%G36*X0Y0D02*X10Y0D01*G37*M02*".toList :
        Except Fault (Document (Exact ℚ))) with
      | .ok d => accepted d
      | .error _ => false) = true := by
    decide +kernel
  split at haccepted
  next d hread =>
    dsimp only [accepted] at haccepted
    split at haccepted
    next box hbounds =>
      obtain ⟨hdraws, hcontains⟩ := (Bool.and_eq_true _ _).mp haccepted
      obtain ⟨b, hmem, hb⟩ := List.any_eq_true.mp hdraws
      have hboard : board.Contains box := of_decide_eq_true hcontains
      obtain ⟨hbox, hplaced⟩ := Document.draws_within_bounds hread hbounds
      exact ⟨d, box, hread, hbounds, ⟨b, hmem, hb⟩, hbox ⟨b, hmem, hb⟩, hboard,
        (hplaced board hboard .default false "job").1⟩
    next => cases haccepted
  next => cases haccepted

end Rational

end Gerber

end BoardMill
