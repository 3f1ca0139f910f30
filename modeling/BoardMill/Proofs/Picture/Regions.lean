import BoardMill.Picture
import BoardMill.Proofs.Arc.Frame
import BoardMill.Proofs.Arc.Samples
import BoardMill.Proofs.Gerber.Agreement
import BoardMill.Proofs.Gerber.Paths
import BoardMill.Proofs.Gerber.WellFormed
import BoardMill.Proofs.Picture.Progress
import BoardMill.Proofs.Scalar.Double

/-! # Regions of a picture

The contours of a region are told from the blocks between its start and its end. Every move begins
a contour, and the interpolations behind it lead on from there. What stands before the first move
gives a contour, too, if anything is drawn there, and this one begins where the path of its first
interpolation begins. Neither blocks outside of the region nor earlier regions have a part in it.
-/

namespace BoardMill

namespace Arc

theorem exists_ofPoints? {α : Type} [Scalar α] {start center : Point α}
    (h : ¬ Scalar.sqrt (Scalar.sq (start.x - center.x) + Scalar.sq (start.y - center.y)) < 1e-9)
    (finish : Point α) (clockwise : Bool) :
    ∃ a, ofPoints? start finish center clockwise = some a ∧ a.center = center ∧
      a.radius = Scalar.sqrt (Scalar.sq (start.x - center.x) + Scalar.sq (start.y - center.y)) :=
  ⟨_, if_neg h, rfl, rfl⟩

theorem head?_points {α : Type} [Scalar α] (a : Arc α) :
    a.points.head? =
      some (a.pointAt (a.startAngle + Scalar.ofNat 0 / Scalar.ofNat a.chords * a.sweep)) := by
  simp [points, List.head?_range]

/-- Over the real numbers the first point of an arc is the point that it starts from. -/
theorem head?_points_real [Analytic ℝ] (haccurate : Analytic.Accurate (0 : ℝ)) {start finish c : ℂ}
    {clockwise : Bool} {a : Arc (Exact ℝ)}
    (h : ofPoints? (.ofComplex start) (.ofComplex finish) (.ofComplex c) clockwise = some a) :
    a.points.head? = some (.ofComplex start) := by
  obtain ⟨sweep, n, rfl, -⟩ := exists_real_of_ofPoints? haccurate h
  have hcount : ((real c ‖start - c‖ (Complex.arg (start - c)) sweep).chords : ℝ) ≠ 0 :=
    Nat.cast_ne_zero.mpr (chords_pos _).ne'
  have hangle : (real c ‖start - c‖ (Complex.arg (start - c)) sweep).startAngle +
      Scalar.ofNat 0 / Scalar.ofNat (real c ‖start - c‖ (Complex.arg (start - c)) sweep).chords *
        (real c ‖start - c‖ (Complex.arg (start - c)) sweep).sweep =
      .number (Complex.arg (start - c)) := by
    rw [Exact.ofNat_eq, Exact.ofNat_eq, Exact.number_div hcount, Nat.cast_zero, zero_div]
    change Exact.number _ + Exact.number 0 * Exact.number _ = _
    rw [Exact.number_mul, zero_mul, Exact.number_add, add_zero]
  have hcos : Analytic.cos (Complex.arg (start - c)) = Real.cos (Complex.arg (start - c)) :=
    sub_eq_zero.mp (abs_nonpos_iff.mp (haccurate.cos _))
  have hsin : Analytic.sin (Complex.arg (start - c)) = Real.sin (Complex.arg (start - c)) :=
    sub_eq_zero.mp (abs_nonpos_iff.mp (haccurate.sin _))
  rw [head?_points, hangle, pointAt_real, hcos, hsin]
  congr 2
  apply Complex.ext
  · rw [Complex.add_re, Complex.re_ofReal_mul, Complex.norm_mul_cos_arg, Complex.sub_re]
    ring
  · rw [Complex.add_im, Complex.im_ofReal_mul, Complex.norm_mul_sin_arg, Complex.sub_im]
    ring

end Arc

theorem Point.finite_iff {α : Type} [Scalar α] {p : Point α} : p.Finite ↔ p.isFinite = true := by
  rw [Point.isFinite, Bool.and_eq_true]
  exact ⟨fun h => ⟨h.x, h.y⟩, fun h => ⟨h.1, h.2⟩⟩

namespace Figure

variable {α : Type} [Scalar α] {points : List (Point α)}

theorem isPath_iff :
    isPath points = true ↔ 2 ≤ points.length ∧ (∀ p ∈ points, p.Finite ∧ p.single.Finite) ∧
      (pathBox points).width < singleLimit ∧ (pathBox points).height < singleLimit := by
  simp only [isPath, Point.finite_iff, Bool.and_eq_true, decide_eq_true_eq, List.all_eq_true,
    and_assoc]

/-- A single point that is not finite keeps all points from making a path. -/
theorem isPath_eq_false {p : Point α} (hp : p ∈ points) (h : ¬ p.Finite) :
    isPath points = false := by
  rw [← Bool.not_eq_true, isPath_iff]
  exact fun hpath => h (hpath.2.1 p hp).1

end Figure

/-- A contour that begins at no finite point is not filled. -/
theorem Mark.figures_region_of_not_finite {α : Type} [Scalar α] {frame : Frame α} {cutHoles : Bool}
    {p : Point α} {rest : List (Point α)} (hthree : 3 ≤ (p :: rest).length) (h : ¬ p.Finite) :
    (region [p :: rest]).figures frame cutHoles = [] := by
  have hfilled : isFilled (p :: rest) = true := decide_eq_true hthree
  have hpath : Figure.isPath ([p :: rest].filter isFilled).flatten = false := by
    refine Figure.isPath_eq_false ?_ h
    rw [List.filter_cons_of_pos hfilled]
    exact List.mem_append_left _ List.mem_cons_self
  exact if_neg (Bool.eq_false_iff.mp hpath)

/-! ## Contours -/

namespace Contours

variable {α : Type}

theorem foldl_extend (contour : List (Point α)) (p : Point α) (others : List (List (Point α)))
    (paths : List (List (Point α))) :
    paths.foldl extend ⟨(contour ++ [p]) :: others⟩ =
      ⟨((paths.flatMap List.tail).reverse ++ contour ++ [p]) :: others⟩ := by
  induction paths generalizing contour with
  | nil => rfl
  | cons path rest ih =>
      have hpath : extend ⟨(contour ++ [p]) :: others⟩ path =
          ⟨(path.tail.reverse ++ contour ++ [p]) :: others⟩ := by
        cases contour <;> simp [extend]
      rw [List.foldl_cons, hpath, ih, List.flatMap_cons, List.reverse_append]
      simp only [List.append_assoc]

theorem toList_foldl_extend_start (c : Contours α) (p : Point α) (paths : List (List (Point α))) :
    (paths.foldl extend (c.start p)).toList = c.toList ++ [p :: paths.flatMap List.tail] := by
  have h := foldl_extend [] p c.reversed paths
  rw [List.nil_append] at h
  rw [start, h]
  simp [toList]

/-- Where there is no contour, the first path begins one with all of its points. -/
theorem toList_foldl_extend_empty (p : Point α) (path : List (Point α))
    (paths : List (List (Point α))) :
    (paths.foldl extend (empty.extend (p :: path))).toList =
      [p :: path ++ paths.flatMap List.tail] := by
  have hpath : empty.extend (p :: path) = ⟨[path.reverse ++ [p]]⟩ := by simp [extend, empty]
  rw [hpath, foldl_extend]
  simp [toList]

end Contours

namespace Gerber

/-! ## Contours told from the blocks -/

section Blocks

variable {α : Type} [Scalar α]

/-- The path that an interpolation is drawn along, given the blocks before it: from the point that
they lead to straight to its target, or through the points of its arc. -/
def Block.path? (before : List (Block α)) : Block α → Option (List (Point α))
  | .interpolate mode target center =>
    let units := unitsAfter before
    let cursor := cursorAfter before
    some <| ((arcBetween? units cursor mode target center).map Arc.points).getD
      [units.pointToMm cursor, units.pointToMm target]
  | _ => none

/-- The paths of blocks that are given with the blocks before them. -/
def pathsOf (visits : List (List (Block α) × Block α)) : List (List (Point α)) :=
  visits.filterMap fun (before, b) => b.path? before

/-- Blocks cut at every move: those before the first move, and for each move the point that it goes
to and the blocks up to the next one. -/
def cutAtMoves : List (List (Block α) × Block α) →
    List (List (Block α) × Block α) × List (Point α × List (List (Block α) × Block α))
  | [] => ([], [])
  | (before, .move target) :: rest =>
    let (front, pieces) := cutAtMoves rest
    ([], ((unitsAfter before).pointToMm target, front) :: pieces)
  | visit :: rest =>
    let (front, pieces) := cutAtMoves rest
    (visit :: front, pieces)

/-- The contour of paths that begin where the first of them does. -/
def openContour : List (List (Point α)) → List (List (Point α))
  | [] => []
  | path :: paths => [path ++ paths.flatMap List.tail]

/-- The contour of a move and the blocks behind it. -/
def movedContour (piece : Point α × List (List (Block α) × Block α)) : List (Point α) :=
  piece.1 :: (pathsOf piece.2).flatMap List.tail

/-- The contours of a region, given the blocks up to its start and the blocks behind that. -/
def regionContours (before region : List (Block α)) : List (List (Point α)) :=
  let (front, pieces) := cutAtMoves (visitsFrom before region)
  openContour (pathsOf front) ++ pieces.map movedContour

theorem cutAtMoves_still {before : List (Block α)} {b : Block α}
    (h : ∀ target, b ≠ .move target) (rest : List (List (Block α) × Block α)) :
    cutAtMoves ((before, b) :: rest) =
      ((before, b) :: (cutAtMoves rest).1, (cutAtMoves rest).2) := by
  cases b with
  | move target => exact absurd rfl (h target)
  | _ => rfl

theorem pathsOf_cons (before : List (Block α)) (b : Block α)
    (rest : List (List (Block α) × Block α)) :
    pathsOf ((before, b) :: rest) = (b.path? before).toList ++ pathsOf rest := by
  cases h : b.path? before <;> simp [pathsOf, h]

theorem Block.path?_of_ofPoints? (before : List (Block α)) {target center : Point α} {arc : Arc α}
    (h : Arc.ofPoints? ((unitsAfter before).pointToMm (cursorAfter before))
      ((unitsAfter before).pointToMm target) ((unitsAfter before).pointToMm center) true =
        some arc) :
    (interpolate .clockwise target (some center)).path? before = some arc.points := by
  have harc : arcBetween? (unitsAfter before) (cursorAfter before) .clockwise target
      (some center) = some arc := h
  rw [path?, harc]
  rfl

/-- Paths have points. -/
theorem Block.exists_cons_of_path? {before : List (Block α)} {b : Block α} {path : List (Point α)}
    (h : b.path? before = some path) : ∃ p rest, path = p :: rest := by
  cases b with
  | interpolate mode target center =>
      cases h
      cases arcBetween? (unitsAfter before) (cursorAfter before) mode target center with
      | none => exact ⟨_, _, rfl⟩
      | some arc => exact List.exists_cons_of_ne_nil arc.points_ne_nil
  | _ => cases h

theorem foldl_extend_pathsOf (visits : List (List (Block α) × Block α)) :
    ((pathsOf visits).foldl Contours.extend .empty).toList = openContour (pathsOf visits) := by
  cases hpaths : pathsOf visits with
  | nil => rfl
  | cons path paths =>
      have hpath : path ∈ pathsOf visits := hpaths ▸ List.mem_cons_self
      obtain ⟨⟨before, b⟩, -, hb⟩ := List.mem_filterMap.mp hpath
      obtain ⟨p, rest, rfl⟩ := Block.exists_cons_of_path? hb
      exact Contours.toList_foldl_extend_empty p rest paths

end Blocks

section Drawing

variable {α : Type} [Numeral α] {options : PictureOptions α} {frame : Frame α}

theorem State.Follows.path?_eq {s : State α} {before : List (Block α)} (h : s.Follows before)
    (mode : Interpolation) (target : Point α) (center : Option (Point α)) :
    (Block.interpolate mode target center).path? before = some (s.path mode target center) := by
  rw [Block.path?, State.path, State.arc?_eq, State.position, State.pointToMm, State.pointToMm,
    h.units, h.cursor]
  cases arcBetween? (unitsAfter before) (cursorAfter before) mode target center <;> rfl

/-- What a block of a region leaves of its contours: a move begins one, an interpolation extends the
last one, and other blocks have none. -/
theorem contours_of_draw {before : List (Block α)} {s : State α} {d next : Drawing α} {b : Block α}
    {line : Nat} (hfollows : s.Follows before) (hregion : s.inRegion = true)
    (hplain : b.opens? = none) (hadmitted : b.Admitted s)
    (hdraw : b.draw options frame line s d = .ok next) :
    (s.after b).inRegion = true ∧
      ((∃ target, b = .move target ∧
          next.contours = d.contours.start ((unitsAfter before).pointToMm target)) ∨
        (∀ target, b ≠ .move target) ∧
          next.contours = (b.path? before).toList.foldl Contours.extend d.contours) := by
  cases b with
  | flash target =>
      rw [hadmitted.1] at hregion
      cases hregion
  | interpolate mode target center =>
      unfold Block.draw at hdraw
      rw [hregion] at hdraw
      cases hdraw
      exact ⟨hregion, .inr ⟨nofun, by rw [hfollows.path?_eq]; rfl⟩⟩
  | move target =>
      unfold Block.draw at hdraw
      rw [hregion] at hdraw
      cases hdraw
      exact ⟨hregion, .inl ⟨target, rfl, by rw [← hfollows.units]; rfl⟩⟩
  | regionStart => cases hplain
  | regionEnd => cases hplain
  | _ =>
      cases hdraw
      exact ⟨hregion, .inr ⟨nofun, rfl⟩⟩

/-- The contours that the blocks of a region lead to, behind those that there were before. -/
theorem contours_of_region {before : List (Block α)} {s later : State α} {d next : Drawing α}
    {region : List (Located (Block α))} (hfollows : s.Follows before) (hregion : s.inRegion = true)
    (hplain : ∀ b ∈ region, b.value.opens? = none)
    (h : region.foldlM (drawStep options frame) (s, d) = .ok (later, next)) :
    next.contours.toList =
      ((pathsOf (cutAtMoves (visitsFrom before (region.map Located.value))).1).foldl
          Contours.extend d.contours).toList ++
        (cutAtMoves (visitsFrom before (region.map Located.value))).2.map movedContour := by
  induction region generalizing before s d with
  | nil =>
      cases h
      exact (List.append_nil _).symm
  | cons b rest ih =>
      rw [List.foldlM_cons] at h
      obtain ⟨⟨s', d'⟩, hb, hrest⟩ := Outcome.bind_eq_ok.mp h
      obtain ⟨hdraw, hadmitted, rfl⟩ := drawStep_eq_ok.mp hb
      obtain ⟨hbplain, hrestplain⟩ := List.forall_mem_cons.mp hplain
      obtain ⟨hinside, hcontours⟩ := contours_of_draw hfollows hregion hbplain hadmitted hdraw
      have hlater := ih (hfollows.after b.value) hinside hrestplain hrest
      rw [List.map_cons, visitsFrom]
      rcases hcontours with ⟨target, hmove, hcontours⟩ | ⟨hstill, hcontours⟩
      · rw [hcontours, Contours.toList_foldl_extend_start, List.append_assoc] at hlater
        rw [hmove] at hlater ⊢
        exact hlater
      · rw [hcontours, ← List.foldl_append, ← pathsOf_cons] at hlater
        rw [cutAtMoves_still hstill]
        exact hlater

/-- The end of a region makes one mark of its contours, and the drawing goes on without any. -/
theorem drawFrom_regionEnd {lastLine line : Nat} {s : State α} {d : Drawing α}
    (hregion : s.inRegion = true) (after : List (Located (Block α))) :
    drawFrom options frame lastLine s d (⟨line, .regionEnd⟩ :: after) =
      drawFrom options frame lastLine (s.after .regionEnd)
        { d.mark s.polarity (.region d.contours.toList) with contours := .empty } after := by
  have happly : s.apply ⟨line, .regionEnd⟩ = .ok (s.after .regionEnd) :=
    State.apply_eq_ok_iff.mpr ⟨hregion, rfl⟩
  rw [drawFrom, happly]
  rfl

/-- Blocks that can be carried out can be drawn unless a stamp is too large. -/
theorem exists_unrenderable_of_drawTo {apertures : ApertureTable α} {last : State α}
    {blocks : List (Located (Block α))}
    (haccepted : blocks.foldlM State.apply (.start apertures) = .ok last) {fault : Fault}
    (h : drawTo options frame apertures blocks = .error fault) :
    ∃ reason, fault = .unrenderable reason := by
  obtain ⟨before, b, after, ⟨s, d⟩, rfl, hbefore, hb⟩ := Outcome.foldlM_eq_error_iff.mp h
  obtain ⟨s', next, hs', hnext, -⟩ := Outcome.exists_of_foldlM_split haccepted
  cases (foldlM_apply_of_drawStep hbefore).symm.trans hs'
  rcases Outcome.bind_eq_error.mp hb with hdraw | ⟨d', -, hlater⟩
  · cases hready : b.value.ready b.line s with
    | ok _ => exact exists_unrenderable_of_draw hready hdraw
    | error other =>
        obtain ⟨_, hrefused, -⟩ := apply_of_not_ready hready []
        cases hrefused.symm.trans hnext
  · rw [hnext] at hlater
    cases hlater

end Drawing

/-- Inside of a region its start is the last marker. -/
theorem exists_open_of_inside {α : Type} {blocks : List (Located (Block α))}
    (h : Inside (blocks.map Located.value)) :
    ∃ first line region, blocks = first ++ ⟨line, .regionStart⟩ :: region ∧
      ∀ b ∈ region, b.value.opens? = none := by
  induction blocks using List.reverseRecOn with
  | nil => cases h
  | append_singleton front b ih =>
      rw [List.map_append, List.map_singleton, inside_concat] at h
      cases hopens : b.value.opens? with
      | none =>
          rw [hopens] at h
          obtain ⟨first, line, region, rfl, hplain⟩ := ih h
          refine ⟨first, line, region ++ [b], by simp, fun c hc => ?_⟩
          rcases List.mem_append.mp hc with hc | hc
          · exact hplain c hc
          · rw [List.mem_singleton.mp hc, hopens]
      | some marker =>
          rw [hopens] at h
          have hmarker : marker = true := h
          obtain ⟨line, b⟩ := b
          cases b with
          | regionStart => exact ⟨front, line, [], rfl, nofun⟩
          | regionEnd =>
              rw [hmarker] at hopens
              cases hopens
          | _ => cases hopens

variable {α : Type} [Numeral α]

/-- In a document whose blocks can all be carried out, every end of a region closes the last start
before it. When the drawing gets there, and it stops before only if a stamp is too large, it has
the contours that are told from the blocks in between and no others. They make one mark, and the
drawing goes on without contours. The mark fills the contours of three or more points, all of them
if their points make one path, and else none. Over the real numbers the first point of an arc is
the point that it starts from. -/
theorem Document.regions_collected {d : Document α} {last : State α}
    (haccepted : d.blocks.foldlM State.apply (.start d.apertures) = .ok last) :
    (∀ before line after, d.blocks = before ++ ⟨line, .regionEnd⟩ :: after →
      ∃ first opened region, before = first ++ ⟨opened, .regionStart⟩ :: region ∧
        ∀ b ∈ region, b.value.opens? = none) ∧
    (∀ first opened region line after,
      d.blocks = (first ++ ⟨opened, .regionStart⟩ :: region) ++ ⟨line, .regionEnd⟩ :: after →
      (∀ b ∈ region, b.value.opens? = none) → ∀ options frame,
      let before := first ++ ⟨opened, .regionStart⟩ :: region
      let contours := regionContours (first.map Located.value ++ [.regionStart])
        (region.map Located.value)
      ((∃ reason, drawTo options frame d.apertures before = .error (.unrenderable reason)) ∨
        ∃ s drawing, drawTo options frame d.apertures before = .ok (s, drawing) ∧
          drawing.contours.toList = contours ∧
          d.draw options frame =
            drawFrom options frame d.lastLine (s.after .regionEnd)
              { drawing.mark s.polarity (.region contours) with contours := .empty } after) ∧
      let filled := contours.filter (3 ≤ ·.length)
      ∀ cutHoles, (Mark.region contours).figures frame cutHoles =
        if Figure.isPath filled.flatten then
          [.ofContours (filled.map fun c => c.map frame.toPixels)]
        else []) ∧
    ∀ [Analytic ℝ], Analytic.Accurate (0 : ℝ) → ∀ (start finish center : ℂ) clockwise arc,
      Arc.ofPoints? (.ofComplex start) (.ofComplex finish) (.ofComplex center) clockwise =
        some arc → arc.points.head? = some (.ofComplex start) := by
  refine ⟨fun before line after hsplit => ?_, ?_, ?_⟩
  · rw [hsplit] at haccepted
    obtain ⟨s, next, hs, hnext, -⟩ := Outcome.exists_of_foldlM_split haccepted
    have hregion : s.inRegion = true := (State.apply_eq_ok_iff.mp hnext).1
    exact exists_open_of_inside ((State.tracks_of_foldlM hs).inRegion.mp hregion)
  · intro first opened region line after hsplit hplain options frame before contours
    refine ⟨?_, fun _ => rfl⟩
    rw [hsplit] at haccepted
    obtain ⟨s, next, hs, hnext, -⟩ := Outcome.exists_of_foldlM_split haccepted
    cases hdraw : drawTo options frame d.apertures before with
    | error fault =>
        obtain ⟨reason, rfl⟩ := exists_unrenderable_of_drawTo hs hdraw
        exact .inl ⟨reason, rfl⟩
    | ok made =>
        obtain ⟨s', drawing⟩ := made
        cases (foldlM_apply_of_drawStep hdraw).symm.trans hs
        obtain ⟨⟨s₀, d₀⟩, ⟨s₁, d₁⟩, hfirst, hopen, hregion⟩ :=
          Outcome.exists_of_foldlM_split hdraw
        obtain ⟨hmade, -, rfl⟩ := drawStep_eq_ok.mp hopen
        cases hmade
        have hfollows : s₀.Follows (first.map Located.value) := by
          rw [State.eq_afterAll_of_foldlM (foldlM_apply_of_drawStep hfirst)]
          exact (State.Follows.start d.apertures).afterAll first
        have hcontours : drawing.contours.toList = contours :=
          (contours_of_region (hfollows.after .regionStart) rfl hplain hregion).trans
            (congrArg (· ++ _) (foldl_extend_pathsOf _))
        refine .inr ⟨s, drawing, rfl, hcontours, ?_⟩
        rw [Document.draw, hsplit, drawFrom_append hdraw, ← hcontours]
        exact drawFrom_regionEnd (State.apply_eq_ok_iff.mp hnext).1 after
  · intro _ haccurate start finish center clockwise arc harc
    exact Arc.head?_points_real haccurate harc

section Pieces

deriving instance DecidableEq for Point

local instance : Analytic ℚ := coarse

/-- Two pieces of a region, one before its move and one behind it. The second one has too few points
to be filled. -/
theorem Document.regions_collected_pieces :
    let region : List (Located (Block (Exact ℚ))) :=
      [⟨2, .interpolate .linear ⟨1.0, 0.0⟩ none⟩, ⟨3, .interpolate .linear ⟨1.0, 1.0⟩ none⟩,
        ⟨4, .move ⟨4.0, 0.0⟩⟩, ⟨5, .polarity .clear⟩, ⟨6, .interpolate .linear ⟨5.0, 0.0⟩ none⟩]
    let before : List (Located (Block (Exact ℚ))) := ⟨1, .regionStart⟩ :: region
    let d : Document (Exact ℚ) := ⟨before ++ [⟨7, .regionEnd⟩], .empty⟩
    let frame : Frame (Exact ℚ) := ⟨1.0, 0.0, 0.0⟩
    (d.blocks.foldlM State.apply (.start d.apertures)).isOk = true ∧
    ∃ s drawing, drawTo .default frame d.apertures before = .ok (s, drawing) ∧
      drawing.contours.toList =
        [[⟨0.0, 0.0⟩, ⟨1.0, 0.0⟩, ⟨1.0, 1.0⟩], [⟨4.0, 0.0⟩, ⟨5.0, 0.0⟩]] ∧
      ∀ cutHoles, (Mark.region drawing.contours.toList).figures frame cutHoles =
        [.ofContours [[⟨0.0, 0.0⟩, ⟨1.0, 0.0⟩, ⟨1.0, 1.0⟩].map frame.toPixels]] := by
  intro region before d frame
  obtain ⟨-, hregions, -⟩ := Document.regions_collected (d := d) rfl
  have hplain : ∀ b ∈ region, b.value.opens? = none := by simp [region, Block.opens?]
  obtain ⟨hdrawn, hfigures⟩ := hregions [] 1 region 7 [] rfl hplain .default frame
  rcases hdrawn with ⟨reason, hfault⟩ | ⟨s, drawing, hdrawing, hcontours, -⟩
  · cases hfault
  · have hpieces : regionContours [.regionStart] (region.map Located.value) =
        [[⟨0.0, 0.0⟩, ⟨1.0, 0.0⟩, ⟨1.0, 1.0⟩], [⟨4.0, 0.0⟩, ⟨5.0, 0.0⟩]] := by
      decide +kernel
    refine ⟨rfl, s, drawing, hdrawing, hcontours.trans hpieces, fun cutHoles => ?_⟩
    rw [hcontours]
    refine (hfigures cutHoles).trans ?_
    rw [List.map_nil, List.nil_append, hpieces]
    exact if_pos (by decide +kernel)

end Pieces

/-! ## A contour that begins elsewhere -/

/-- An arc from the origin around a center that is so far away that the circle has no finite
radius. -/
def farArc : Block Float := .interpolate .clockwise ⟨0.0, 100.0⟩ (some ⟨1e200, 0.0⟩)

def farContour : List (Located (Block Float)) :=
  [⟨2, farArc⟩, ⟨3, .interpolate .linear ⟨1.0, 100.0⟩ none⟩]

theorem isFinite_pointAt_far {arc : Arc Float}
    (hcenter : arc.center = Units.millimeters.pointToMm ⟨1e200, 0.0⟩)
    (hradius : Scalar.infinity ≤ arc.radius) (angle : Float) :
    Scalar.isFinite (arc.pointAt angle).x = false := by
  have hx : (arc.pointAt angle).x =
      (Units.millimeters.pointToMm (⟨1e200, 0.0⟩ : Point Float)).x +
        arc.radius * Scalar.cos angle := by
    rw [Arc.pointAt, hcenter]
  -- Whatever the cosine is, the product is one of three.
  rw [hx]
  rcases Double.infinity_mul hradius (Scalar.cos angle) with h | ⟨sign, h⟩
  · rw [h]
    decide +kernel
  · rw [h]
    cases sign <;> decide +kernel

theorem exists_path?_farArc :
    ∃ p q rest, farArc.path? [.regionStart] = some (p :: q :: rest) ∧
      Scalar.isFinite p.x = false := by
  let start : Point Float := Units.millimeters.pointToMm ⟨0.0, 0.0⟩
  let center : Point Float := Units.millimeters.pointToMm ⟨1e200, 0.0⟩
  have hsome : ¬ Scalar.sqrt (Scalar.sq (start.x - center.x) + Scalar.sq (start.y - center.y)) <
      1e-9 := by
    decide +kernel
  have hinfinite : Scalar.infinity ≤
      Scalar.sqrt (Scalar.sq (start.x - center.x) + Scalar.sq (start.y - center.y)) := by
    decide +kernel
  obtain ⟨arc, harc, hcenter, hradius⟩ :=
    Arc.exists_ofPoints? hsome (Units.millimeters.pointToMm ⟨0.0, 100.0⟩) true
  obtain ⟨p, q, rest, hpoints⟩ := arc.exists_points_eq
  have hfirst := hpoints ▸ arc.head?_points
  refine ⟨p, q, rest, ?_, ?_⟩
  · rw [farArc, Block.path?_of_ofPoints? [.regionStart] harc, hpoints]
  · rw [Option.some.inj hfirst]
    exact isFinite_pointAt_far hcenter (hradius ▸ hinfinite) _

/-- A contour without a move does not begin at the current point, which is the origin, but at the
first point of its arc. It has three points and more, but as the first of them is not finite nothing
is filled. -/
theorem Document.contour_begins_elsewhere :
    let before : List (Located (Block Float)) := ⟨1, .regionStart⟩ :: farContour
    let d : Document Float := ⟨before ++ [⟨4, .regionEnd⟩], .empty⟩
    let cursor : Point Float := Units.millimeters.pointToMm (cursorAfter [.regionStart])
    (∃ last, d.blocks.foldlM State.apply (.start d.apertures) = .ok last ∧
      last.finish d.lastLine = .ok ()) ∧
    cursor = ⟨0.0, 0.0⟩ ∧
    ∀ options frame, ∃ s drawing p rest,
      drawTo options frame d.apertures before = .ok (s, drawing) ∧
      drawing.contours.toList = [p :: rest] ∧ Scalar.isFinite p.x = false ∧ p ≠ cursor ∧
      3 ≤ (p :: rest).length ∧
      ∀ cutHoles, (Mark.region [p :: rest]).figures frame cutHoles = [] := by
  intro before d cursor
  refine ⟨⟨_, rfl, rfl⟩, rfl, fun options frame => ?_⟩
  obtain ⟨p, q, rest, hpath, hp⟩ := exists_path?_farArc
  let opened : State Float := (State.start .empty).after .regionStart
  obtain ⟨s, drawing, hdrawn⟩ : ∃ s drawing,
      farContour.foldlM (drawStep options frame) (opened, .start) = .ok (s, drawing) :=
    ⟨_, _, rfl⟩
  have hfollows : opened.Follows [.regionStart] := (State.Follows.start .empty).after .regionStart
  have hplain : ∀ b ∈ farContour, b.value.opens? = none := by
    simp [farContour, farArc, Block.opens?]
  have hcontours := contours_of_region hfollows rfl hplain hdrawn
  have hpaths : pathsOf (cutAtMoves (visitsFrom [.regionStart] (farContour.map Located.value))).1 =
      (p :: q :: rest) ::
        pathsOf [([.regionStart, farArc], .interpolate .linear ⟨1.0, 100.0⟩ none)] :=
    (pathsOf_cons _ _ _).trans (congrArg (·.toList ++ _) hpath)
  rw [Drawing.start, foldl_extend_pathsOf, hpaths] at hcontours
  have hthree : 3 ≤ (p :: (q :: rest ++ List.flatMap List.tail
      (pathsOf [([.regionStart, farArc], .interpolate .linear ⟨1.0, 100.0⟩ none)]))).length := by
    have hlast := List.length_pos_iff.mpr (show List.flatMap List.tail (pathsOf
      [([.regionStart, farArc], .interpolate .linear ⟨1.0, 100.0⟩ none)]) ≠ [] from
        List.cons_ne_nil _ _)
    rw [List.length_cons, List.length_append, List.length_cons]
    omega
  refine ⟨s, drawing, p, _, hdrawn, hcontours, hp, ?_, hthree, fun cutHoles => ?_⟩
  · intro hsame
    have hfinite : Scalar.isFinite cursor.x = true := by decide +kernel
    rw [hsame, hfinite] at hp
    cases hp
  · exact Mark.figures_region_of_not_finite hthree fun h => Bool.false_ne_true (hp.symm.trans h.x)

end Gerber

end BoardMill
