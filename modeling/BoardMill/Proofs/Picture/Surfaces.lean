import BoardMill.Proofs.Box.Contains
import BoardMill.Proofs.Gerber.Agreement
import BoardMill.Proofs.Gerber.Placement
import BoardMill.Proofs.Scalar.Angle
import BoardMill.Proofs.Scalar.IntegerPart

/-! # Surfaces and what they show

In exact arithmetic a surface shows the points of its box inside of its margin: the size is rounded
up, the second axis is turned over, and the anchor of the box comes to lie in the lower left corner
of the inner part. With doubles a surface has sides within the limit, or there is none.
-/

namespace BoardMill

/-! ## Numbers out of sums and products -/

namespace Exact

variable {K : Type} [Field K] [LinearOrder K] [FloorRing K] [Analytic K] {a b : Exact K} {z : K}

theorem exists_numbers_of_add (h : a + b = number z) :
    ∃ x y, a = number x ∧ b = number y ∧ x + y = z := by
  cases a <;> cases b <;> first | exact ⟨_, _, rfl, rfl, number.inj h⟩ | cases h

theorem exists_numbers_of_sub (h : a - b = number z) :
    ∃ x y, a = number x ∧ b = number y ∧ x - y = z := by
  obtain ⟨x, y, rfl, hy, rfl⟩ := exists_numbers_of_add (b := -b) h
  cases b with
  | number w =>
      cases hy
      exact ⟨x, w, rfl, rfl, sub_eq_add_neg x w⟩
  | _ => cases hy

omit [Field K] [LinearOrder K] [FloorRing K] [Analytic K] in
theorem ofSign_ne_number (s : SignType) : (ofSign s : Exact K) ≠ number z := by
  cases s <;> nofun

theorem exists_numbers_of_mul (h : a * b = number z) :
    ∃ x y, a = number x ∧ b = number y ∧ x * y = z := by
  cases a <;> cases b <;>
    first
      | exact ⟨_, _, rfl, rfl, number.inj h⟩
      | exact absurd h (ofSign_ne_number _)
      | cases h

theorem exists_number_between {x y : K} (hx : number x ≤ a) (hy : a ≤ number y) :
    ∃ z, a = number z ∧ x ≤ z ∧ z ≤ y := by
  cases a with
  | number z => exact ⟨z, rfl, number_le_number.mp hx, number_le_number.mp hy⟩
  | above => cases hy
  | below => cases hx
  | undefined => cases hx

end Exact

namespace Surface

/-- The sides of a surface are at least one pixel, and within the limit. -/
structure Bounded {α : Type} (s : Surface α) : Prop where
  width : 1 ≤ s.width ∧ s.width ≤ 32768
  height : 1 ≤ s.height ∧ s.height ≤ 32768

/-- A surface shows the points of a box inside of a margin: the first axis to the right, the
second one upward, and the corner of the least coordinates at the left and the bottom. -/
structure Shows {α : Type} [Scalar α] (s : Surface α) (box : Box α) (margin : Nat) : Prop where
  left : ∀ p, box.Holds p → Scalar.ofNat margin ≤ (s.frame.toPixels p).x
  right : ∀ p, box.Holds p →
    (s.frame.toPixels p).x ≤ Scalar.ofNat s.width - Scalar.ofNat margin
  top : ∀ p, box.Holds p → Scalar.ofNat margin ≤ (s.frame.toPixels p).y
  bottom : ∀ p, box.Holds p →
    (s.frame.toPixels p).y ≤ Scalar.ofNat s.height - Scalar.ofNat margin
  rightward : ∀ p q, box.Holds p → box.Holds q → p.x < q.x →
    (s.frame.toPixels p).x < (s.frame.toPixels q).x
  upward : ∀ p q, box.Holds p → box.Holds q → p.y < q.y →
    (s.frame.toPixels q).y < (s.frame.toPixels p).y
  corner : s.frame.toPixels box.minCorner =
    ⟨Scalar.ofNat margin, Scalar.ofNat s.height - Scalar.ofNat margin⟩

section Sizes

variable {α : Type} [Numeral α] {box : Box α} {options : PictureOptions α} {s : Surface α}

/-- There is a surface if the margin can be doubled and both sides are within the limit. -/
theorem ofBox_eq_ok (h : ofBox box options = .ok s) :
    2 * options.margin.toNat < 2 ^ 32 ∧
      side? (box.width * options.scale) (2 * options.margin.toNat) = some s.width ∧
      side? (box.height * options.scale) (2 * options.margin.toNat) = some s.height ∧
      s.frame = frameOf box options s.height := by
  unfold ofBox at h
  split at h
  next width height hsize =>
    cases h
    obtain ⟨padding, hpadding, hsides⟩ := Option.bind_eq_some_iff.mp hsize
    obtain ⟨w, hwidth, hsides⟩ := Option.bind_eq_some_iff.mp hsides
    obtain ⟨v, hheight, hsides⟩ := Option.bind_eq_some_iff.mp hsides
    cases hsides
    obtain ⟨hmargin, hpadding⟩ := Option.ite_none_right_eq_some.mp hpadding
    cases hpadding
    exact ⟨hmargin, hwidth, hheight, rfl⟩
  next => cases h

end Sizes

/-! ## Exact arithmetic -/

section Exactly

variable {K : Type} [Field K] [LinearOrder K] [IsStrictOrderedRing K] [FloorRing K] [Analytic K]

omit [IsStrictOrderedRing K] in
theorem sideLimit_exact : (sideLimit : Exact K) = .number 32768 := by
  change Exact.number (32768.0 : K) = _
  norm_num

theorem toNat_exact {z : ℤ} (h : z ≤ 32768) :
    Scalar.toNat (Exact.number (z : K)) = z.toNat := by
  change Nat.min ⌊(z : K)⌋.toNat (2 ^ 64 - 1) = _
  rw [Int.floor_intCast]
  exact Nat.min_eq_left (by omega)

/-- A side of so many pixels shows a length with padding: the length is rounded up, and there is one
pixel at least. -/
structure IsSide (x : K) (padding n : Nat) : Prop where
  within : ⌈x⌉ + (padding : ℤ) ≤ 32768
  pixels : (n : ℤ) = max (⌈x⌉ + padding) 1

namespace IsSide

variable {x : K} {padding n : Nat} (h : IsSide x padding n)

include h

omit [IsStrictOrderedRing K] [Analytic K] in
theorem bounded : 1 ≤ n ∧ n ≤ 32768 := by
  have hwithin := h.within
  have hpixels := h.pixels
  omega

omit [Analytic K] in
theorem length_le : x ≤ n - padding := by
  have hceil : ((⌈x⌉ + padding : ℤ) : K) ≤ n := by
    exact_mod_cast (le_max_left _ _).trans h.pixels.ge
  push_cast at hceil
  linarith [Int.le_ceil x]

end IsSide

theorem isSide_of_side? {length : Exact K} {padding n : Nat} (h : side? length padding = some n) :
    ∃ x : K, length = .number x ∧ IsSide x padding n := by
  obtain ⟨hside, hn⟩ := Option.ite_none_right_eq_some.mp h
  obtain ⟨hfinite, hlimit⟩ := (Bool.and_eq_true _ _).mp hside
  obtain ⟨total, htotal⟩ := Exact.exists_number hfinite
  obtain ⟨rounded, -, hrounded, -⟩ := Exact.exists_numbers_of_add htotal
  cases length with
  | number x =>
      have hsum : Scalar.ceil (Exact.number x) + Scalar.ofNat padding =
          .number ((⌈x⌉ + padding : ℤ) : K) := by
        rw [Exact.ofNat_eq]
        push_cast
        rfl
      have hle : ⌈x⌉ + (padding : ℤ) ≤ 32768 := by
        have hnumber := of_decide_eq_true hlimit
        rw [hsum, sideLimit_exact, Exact.number_le_number] at hnumber
        exact_mod_cast hnumber
      have hmax : Scalar.max (Exact.number ((⌈x⌉ + padding : ℤ) : K)) 1.0 =
          .number ((max (⌈x⌉ + padding) 1 : ℤ) : K) := by
        rw [Exact.one_eq, Exact.max_number]
        push_cast
        rfl
      rw [hsum, hmax, toNat_exact (max_le hle (by decide))] at hn
      have hn : (max (⌈x⌉ + padding) 1).toNat = n := Option.some.inj hn
      exact ⟨x, rfl, hle, by omega⟩
  | _ => cases hrounded

/-- The numbers of a box that is not empty, and of the surface that shows it. -/
structure Numbers (box : Box (Exact K)) (options : PictureOptions (Exact K))
    (s : Surface (Exact K)) (l r b t k : K) : Prop where
  xMin : box.xMin = .number l
  xMax : box.xMax = .number r
  yMin : box.yMin = .number b
  yMax : box.yMax = .number t
  anchor : box.anchor = box.minCorner
  scale : options.scale = .number k
  positive : 0 < k
  width : IsSide ((r - l) * k) (2 * options.margin.toNat) s.width
  height : IsSide ((t - b) * k) (2 * options.margin.toNat) s.height
  frame : s.frame = frameOf box options s.height

variable {box : Box (Exact K)} {options : PictureOptions (Exact K)} {s : Surface (Exact K)}

theorem exists_numbers (hbox : box.isEmpty = false) (hscale : 0.0 < options.scale)
    (h : ofBox box options = .ok s) : ∃ l r b t k, Numbers box options s l r b t k := by
  obtain ⟨-, hwidth, hheight, hframe⟩ := ofBox_eq_ok h
  obtain ⟨x, hx, hwidth⟩ := isSide_of_side? hwidth
  obtain ⟨y, hy, hheight⟩ := isSide_of_side? hheight
  have hboxWidth : box.width = box.xMax - box.xMin := by simp [Box.width, hbox]
  have hboxHeight : box.height = box.yMax - box.yMin := by simp [Box.height, hbox]
  have hanchor : box.anchor = box.minCorner := by simp [Box.anchor, hbox]
  obtain ⟨w, k, hw, hk, rfl⟩ := Exact.exists_numbers_of_mul hx
  obtain ⟨v, k', hv, hk', rfl⟩ := Exact.exists_numbers_of_mul hy
  obtain rfl := Exact.number.inj (hk.symm.trans hk')
  obtain ⟨r, l, hr, hl, rfl⟩ := Exact.exists_numbers_of_sub (hboxWidth.symm.trans hw)
  obtain ⟨t, b, ht, hb, rfl⟩ := Exact.exists_numbers_of_sub (hboxHeight.symm.trans hv)
  rw [hk, Exact.zero_eq, Exact.number_lt_number] at hscale
  exact ⟨l, r, b, t, k, hl, hr, hb, ht, hanchor, hk, hscale, hwidth, hheight, hframe⟩

namespace Numbers

variable {l r b t k : K} (h : Numbers box options s l r b t k)

include h

omit [IsStrictOrderedRing K] in
theorem bounded : s.Bounded := ⟨h.width.bounded, h.height.bounded⟩

omit [IsStrictOrderedRing K] in
theorem toPixels (x y : K) : s.frame.toPixels ⟨.number x, .number y⟩ =
    ⟨.number (options.margin.toNat + (x - l) * k),
      .number (s.height - options.margin.toNat - (y - b) * k)⟩ := by
  have hx : s.frame.scale * .number x + s.frame.left =
      .number (options.margin.toNat + (x - l) * k) := by
    rw [h.frame]
    change options.scale * .number x +
      (Scalar.ofNat options.margin.toNat - box.anchor.x * options.scale) = _
    rw [h.anchor, Box.minCorner, h.xMin, h.scale, Exact.ofNat_eq, Exact.number_mul,
      Exact.number_mul, Exact.number_sub, Exact.number_add]
    congr 1
    ring
  have hy : -s.frame.scale * .number y + s.frame.base =
      .number (s.height - options.margin.toNat - (y - b) * k) := by
    rw [h.frame]
    change -options.scale * .number y +
      (Scalar.ofNat s.height - Scalar.ofNat options.margin.toNat +
        box.anchor.y * options.scale) = _
    rw [h.anchor, Box.minCorner, h.yMin, h.scale, Exact.ofNat_eq, Exact.ofNat_eq,
      Exact.neg_number, Exact.number_mul, Exact.number_mul, Exact.number_sub, Exact.number_add,
      Exact.number_add]
    congr 1
    ring
  exact congrArg₂ Point.mk hx hy

omit [IsStrictOrderedRing K] in
theorem exists_point {p : Point (Exact K)} (hp : box.Holds p) :
    ∃ x y, p = ⟨.number x, .number y⟩ ∧ (l ≤ x ∧ x ≤ r) ∧ b ≤ y ∧ y ≤ t := by
  obtain ⟨px, py⟩ := p
  obtain ⟨x, rfl, hx⟩ := Exact.exists_number_between (h.xMin ▸ hp.xMin) (h.xMax ▸ hp.xMax)
  obtain ⟨y, rfl, hy⟩ := Exact.exists_number_between (h.yMin ▸ hp.yMin) (h.yMax ▸ hp.yMax)
  exact ⟨x, y, rfl, hx, hy⟩

theorem shows : s.Shows box options.margin.toNat := by
  have hwidth := h.width.length_le
  have hheight := h.height.length_le
  push_cast at hwidth hheight
  -- A place on an axis lies between the sides of the box, also when it is scaled.
  have hscaled {u v : K} (huv : u ≤ v) : u * k ≤ v * k :=
    mul_le_mul_of_nonneg_right huv h.positive.le
  constructor
  case corner =>
    rw [Box.minCorner, h.xMin, h.yMin, h.toPixels, sub_self, sub_self, zero_mul, add_zero, sub_zero,
      Exact.ofNat_eq, Exact.ofNat_eq, Exact.number_sub]
  case rightward =>
    intro p q hp hq hlt
    obtain ⟨x, y, rfl, -⟩ := h.exists_point hp
    obtain ⟨x', y', rfl, -⟩ := h.exists_point hq
    rw [Exact.number_lt_number] at hlt
    rw [h.toPixels, h.toPixels, Exact.number_lt_number]
    linarith [mul_lt_mul_of_pos_right hlt h.positive]
  case upward =>
    intro p q hp hq hlt
    obtain ⟨x, y, rfl, -⟩ := h.exists_point hp
    obtain ⟨x', y', rfl, -⟩ := h.exists_point hq
    rw [Exact.number_lt_number] at hlt
    rw [h.toPixels, h.toPixels, Exact.number_lt_number]
    linarith [mul_lt_mul_of_pos_right hlt h.positive]
  all_goals
    intro p hp
    obtain ⟨x, y, rfl, hx, hy⟩ := h.exists_point hp
    rw [h.toPixels]
    simp only [Exact.ofNat_eq, Exact.number_sub, Exact.number_le_number]
  case left => linarith [hscaled hx.1]
  case right => linarith [hscaled hx.2]
  case top => linarith [hscaled hy.2]
  case bottom => linarith [hscaled hy.1]

end Numbers

end Exactly

/-! ## Doubles -/

theorem side?_bounded {length : Float} {padding n : Nat} (h : side? length padding = some n) :
    1 ≤ n ∧ n ≤ 32768 := by
  obtain ⟨hside, hn⟩ := Option.ite_none_right_eq_some.mp h
  obtain ⟨-, hlimit⟩ := (Bool.and_eq_true _ _).mp hside
  have hone : Scalar.isNaN (1.0 : Float) = false := by decide +kernel
  have hle : Scalar.max (Scalar.ceil length + Scalar.ofNat padding) 1.0 ≤ (32768.0 : Float) :=
    Scalar.max_le (of_decide_eq_true hlimit) (by decide +kernel)
  have hlower := Double.toNat_mono
    (Scalar.le_max_right (a := Scalar.ceil length + Scalar.ofNat padding) hone)
  have hupper := Double.toNat_mono hle
  rw [Option.some.inj hn] at hlower hupper
  have hfirst : Scalar.toNat (1.0 : Float) = 1 := by decide +kernel
  have hlast : Scalar.toNat (32768.0 : Float) = 32768 := by decide +kernel
  rw [hfirst] at hlower
  rw [hlast] at hupper
  exact ⟨hlower, hupper⟩

theorem bounded_of_ofBox {box : Box Float} {options : PictureOptions Float} {s : Surface Float}
    (h : ofBox box options = .ok s) : s.Bounded := by
  obtain ⟨-, hwidth, hheight, -⟩ := ofBox_eq_ok h
  exact ⟨side?_bounded hwidth, side?_bounded hheight⟩

end Surface

/-! ## Running -/

theorem Running.makeDirectory_run (directory : String) (tree : FileTree) :
    ((makeDirectory directory : Running (StateM FileTree) Unit).run.run tree).1 =
      ((Files.makeDirectories directory : StateM FileTree _).run tree).1.mapError
        fun error => .ofFault (.ofFile error) := by
  unfold makeDirectory
  rw [ExceptT.run_bind, ExceptT.run_liftM, bind_map_left, StateT.run_bind]
  rcases (Files.makeDirectories directory : StateM FileTree _).run tree with ⟨_ | _, _⟩ <;> rfl

/-- How making a surface ends: with that of the box, with its fault, or with that of the directory
for stamps. -/
theorem Running.surface_cases (box : Box Float) (stampDirectory : Option String)
    (options : PictureOptions Float) (tree : FileTree) :
    let ending :=
      ((surface box stampDirectory options : Running (StateM FileTree) _).run.run tree).1
    (∃ s, Surface.ofBox box options = .ok s ∧ ending = .ok s) ∨
    (∃ fault, Surface.ofBox box options = .error fault ∧ ending = .error (.ofFault fault)) ∨
    stampDirectory.isSome ∧ ∃ reason, ending = .error (.ofFault (.fileAccess reason)) := by
  intro ending
  cases hmade : Surface.ofBox box options with
  | error fault =>
      have hrun : ending = .error (.ofFault fault) := by
        simp only [ending, surface, hmade, ofFault_error_bind]
        rfl
      exact .inr (.inl ⟨fault, rfl, hrun⟩)
  | ok s =>
      cases stampDirectory with
      | none =>
          have hrun : ending = .ok s := by
            simp only [ending, surface, hmade]
            rfl
          exact .inl ⟨s, rfl, hrun⟩
      | some directory =>
          let made : Running (StateM FileTree) Unit := makeDirectory directory
          have hrun : ending = (made.run.run tree).1.map fun _ => s := by
            simp only [ending, surface, hmade]
            change ((made >>= fun _ => Pure.pure s).run.run tree).1 = _
            rw [ExceptT.run_bind, StateT.run_bind]
            rcases made.run.run tree with ⟨_ | _, _⟩ <;> rfl
          rw [makeDirectory_run] at hrun
          cases hresult : ((Files.makeDirectories directory : StateM FileTree _).run tree).1 with
          | ok _ =>
              rw [hresult] at hrun
              exact .inl ⟨s, rfl, hrun⟩
          | error error =>
              rw [hresult] at hrun
              exact .inr (.inr ⟨rfl, _, hrun⟩)

/-! ## Surfaces -/

variable {K : Type} [Field K] [LinearOrder K] [IsStrictOrderedRing K] [FloorRing K] [Analytic K]

/-- In exact arithmetic a surface for a box that is not empty, with a positive scale, has sides
within the limit and shows the box inside of its margin. With doubles any surface has such sides,
and there is none only because the drawing is too large, or because a directory for stamps cannot
be made. The margin is only doubled where a word holds the double, and the pixels have no more
bytes than words count. -/
theorem Surface.shows_box :
    (∀ (box : Box (Exact K)) (options : PictureOptions (Exact K)) (s : Surface (Exact K)),
      box.isEmpty = false → 0.0 < options.scale → ofBox box options = .ok s →
        s.Bounded ∧ s.Shows box options.margin.toNat) ∧
    ∀ (box : Box Float) (options : PictureOptions Float),
      (∀ s, ofBox box options = .ok s → s.Bounded ∧
        (2 * options.margin).toNat = 2 * options.margin.toNat ∧
        s.width * s.height * 4 ≤ 2 ^ 32) ∧
      (2 ^ 32 ≤ 2 * options.margin.toNat →
        ∃ reason, ofBox box options = .error (.unrenderable reason)) ∧
      ∀ stampDirectory tree,
        match ((Running.surface box stampDirectory options :
          Running (StateM FileTree) _).run.run tree).1 with
        | .ok s => s.Bounded ∧ ofBox box options = .ok s
        | .error failure => ∃ reason, failure = .ofFault (.unrenderable reason) ∨
            stampDirectory.isSome ∧ failure = .ofFault (.fileAccess reason) := by
  refine ⟨fun box options s hbox hscale h => ?_, fun box options => ⟨fun s h => ?_, fun h => ?_,
    fun stampDirectory tree => ?_⟩⟩
  · obtain ⟨l, r, b, t, k, hnumbers⟩ := exists_numbers hbox hscale h
    exact ⟨hnumbers.bounded, hnumbers.shows⟩
  · obtain ⟨hmargin, -⟩ := ofBox_eq_ok h
    have hbounded := bounded_of_ofBox h
    refine ⟨hbounded, ?_, ?_⟩
    · rw [UInt32.toNat_mul]
      exact Nat.mod_eq_of_lt hmargin
    · exact Nat.mul_le_mul_right 4 (Nat.mul_le_mul hbounded.width.2 hbounded.height.2)
  · cases hmade : ofBox box options with
    | ok s => exact absurd (ofBox_eq_ok hmade).1 (not_lt.mpr h)
    | error fault =>
        obtain ⟨reason, rfl⟩ := Gerber.Document.exists_unrenderable_of_surface hmade
        exact ⟨reason, rfl⟩
  · rcases Running.surface_cases box stampDirectory options tree with
      ⟨s, hmade, hrun⟩ | ⟨fault, hmade, hrun⟩ | ⟨hdirectory, reason, hrun⟩
    · rw [hrun]
      exact ⟨bounded_of_ofBox hmade, hmade⟩
    · obtain ⟨reason, rfl⟩ := Gerber.Document.exists_unrenderable_of_surface hmade
      rw [hrun]
      exact ⟨reason, .inl rfl⟩
    · rw [hrun]
      exact ⟨reason, .inr ⟨hdirectory, rfl⟩⟩

namespace Surface

section Plate

local instance : Analytic ℚ := Gerber.coarse

/-- A plate that is two wide and one high, with ten pixels for each unit and a margin of four. Its
upper right corner is four pixels away from the edges. The greatest margin gives no surface. -/
theorem shows_box_plate :
    let box : Box (Exact ℚ) := ⟨1.0, 3.0, 0.0, 1.0⟩
    let options : PictureOptions (Exact ℚ) := ⟨10.0, 4, true⟩
    box.isEmpty = false ∧ 0.0 < options.scale ∧
    (∃ s, ofBox box options = .ok s ∧ s.width = 28 ∧ s.height = 18 ∧
      s.frame.toPixels box.minCorner = ⟨Scalar.ofNat 4, Scalar.ofNat 18 - Scalar.ofNat 4⟩ ∧
      (s.frame.toPixels ⟨3.0, 1.0⟩).x ≤ Scalar.ofNat 28 - Scalar.ofNat 4) ∧
    let greatest : PictureOptions Float := ⟨10.0, 0xFFFFFFFF, true⟩
    ∃ reason, ofBox (.ofPoint ⟨0.0, 0.0⟩) greatest = .error (.unrenderable reason) := by
  intro box options
  obtain ⟨hexact, hdouble⟩ := shows_box (K := ℚ)
  have hbox : box.isEmpty = false := by decide +kernel
  have hscale : 0.0 < options.scale := by decide +kernel
  have hmade : (ofBox box options).toOption.any
      (fun s => s.width == 28 && s.height == 18) = true := by
    decide +kernel
  obtain ⟨s, hs, hsides⟩ := Outcome.exists_of_any_toOption hmade
  obtain ⟨hwidth, hheight⟩ := (Bool.and_eq_true _ _).mp hsides
  have hwidth : s.width = 28 := eq_of_beq hwidth
  have hheight : s.height = 18 := eq_of_beq hheight
  obtain ⟨-, hshows⟩ := hexact box options s hbox hscale hs
  have hcorner : box.Holds ⟨3.0, 1.0⟩ := by constructor <;> decide +kernel
  refine ⟨hbox, hscale, ⟨s, hs, hwidth, hheight, ?_, ?_⟩, (hdouble _ _).2.1 (by decide)⟩
  · rw [← hheight]
    exact hshows.corner
  · rw [← hwidth]
    exact hshows.right _ hcorner

end Plate

end Surface

end BoardMill
