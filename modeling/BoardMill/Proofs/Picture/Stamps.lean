import BoardMill.Picture
import BoardMill.Proofs.GCode.Path
import BoardMill.Proofs.Gerber.Placement

/-! # Stamps that are used again

A stamp is kept under the number of its aperture, but it also depends on the units. Every flash
therefore puts down the stamp that its aperture had at its first flash. A picture is the one
with all stamps made anew, each for the units at the first flash of its aperture.
-/

namespace BoardMill

namespace Gerber

variable {α : Type}

/-! ## Flashes and what stands before them -/

def Block.isFlash : Block α → Bool
  | flash _ => true
  | _ => false

def Block.selected? : Block α → Option Nat
  | select number => some number
  | _ => none

/-- The number of the aperture that some blocks leave selected: that of the last one that
selects any. -/
def selectedAfter? (before : List (Block α)) : Option Nat :=
  (before.filterMap Block.selected?).getLast?

theorem selectedAfter?_append (before : List (Block α)) (b : Block α) :
    selectedAfter? (before ++ [b]) = b.selected?.or (selectedAfter? before) := by
  unfold selectedAfter?
  cases h : b.selected? <;> simp [h]

theorem State.after_selected (s : State α) (b : Block α) :
    (s.after b).selected = b.selected?.or s.selected := by
  cases b <;> rfl

/-- Whether a block flashes the aperture of a number, given the blocks before it. -/
def Block.flashes (number : Nat) (before : List (Block α)) (b : Block α) : Bool :=
  b.isFlash && selectedAfter? before == some number

/-- The blocks before the first flash of an aperture. -/
def beforeFlash? (number : Nat) (blocks : List (Block α)) : Option (List (Block α)) :=
  ((visitsFrom [] blocks).find? fun (before, b) => b.flashes number before).map Prod.fst

theorem beforeFlash?_append (number : Nat) (before : List (Block α)) (b : Block α) :
    beforeFlash? number (before ++ [b]) =
      (beforeFlash? number before).or (if b.flashes number before then some before else none) := by
  rw [beforeFlash?, visitsFrom_append, List.find?_append, beforeFlash?, Option.map_or]
  congr 1
  cases h : b.flashes number before <;> simp [visitsFrom, h]

theorem beforeFlash?_append_still {number : Nat} {before : List (Block α)} {b : Block α}
    (h : b.flashes number before = false) :
    beforeFlash? number (before ++ [b]) = beforeFlash? number before := by
  rw [beforeFlash?_append, h, if_neg Bool.false_ne_true, Option.or_none]

/-- The units at the first flash of the selected aperture, those that apply now if it was not
flashed yet. -/
def stampUnits (before : List (Block α)) : Units :=
  unitsAfter (((selectedAfter? before).bind (beforeFlash? · before)).getD before)

end Gerber

/-! ## Stamps made anew -/

/-- What was drawn, without the stamps to use again. -/
def Drawing.withoutStock {α : Type} (d : Drawing α) : Drawing α :=
  { d with stamps := [], renders := 0, reuses := 0 }

namespace Gerber

variable {α : Type} [Numeral α] (options : PictureOptions α) (frame : Frame α)

/-- Draws a block. A stamp is made anew, for some units. -/
def Block.drawAnew (units : Units) (b : Block α) (line : Nat) (s : State α) (d : Drawing α) :
    Except Fault (Drawing α) :=
  match b with
  | .flash target => do
    let stamp ← Stamp.ofAperture (← s.require line) options.scale units.scale
    return { d with flashes := d.flashes + 1 }.put s.polarity stamp
      (frame.toPixels (s.pointToMm target))
  | b => b.draw options frame line s d

/-- Draws blocks from a state on. Stamps are made anew, for units that the blocks before them
call for. -/
def drawAnewFrom (lastLine : Nat) (unitsAt : List (Block α) → Units) (before : List (Block α))
    (s : State α) (d : Drawing α) : List (Located (Block α)) → Drawing α × Except Fault Unit
  | [] => (d, s.finish lastLine)
  | b :: rest =>
    match b.value.drawAnew options frame (unitsAt before) b.line s d with
    | .error fault => (d, .error fault)
    | .ok d =>
      match s.apply b with
      | .error fault => (d, .error fault)
      | .ok s => drawAnewFrom lastLine unitsAt (before ++ [b.value]) s d rest

/-- Draws a document, with all stamps made anew. -/
def Document.drawAnew (unitsAt : List (Block α) → Units) (d : Document α) :
    Drawing α × Except Fault Unit :=
  drawAnewFrom options frame d.lastLine unitsAt [] (.start d.apertures) .start d.blocks

theorem drawAnewFrom_congr {lastLine : Nat} {first second : List (Block α) → Units}
    {before : List (Block α)} {s : State α} {d : Drawing α} {blocks : List (Located (Block α))}
    (h : ∀ visit ∈ visitsFrom before (blocks.map Located.value), visit.2.isFlash = true →
      first visit.1 = second visit.1) :
    drawAnewFrom options frame lastLine first before s d blocks =
      drawAnewFrom options frame lastLine second before s d blocks := by
  induction blocks generalizing before s d with
  | nil => rfl
  | cons b rest ih =>
      rw [List.map_cons, visitsFrom, List.forall_mem_cons] at h
      obtain ⟨hfirst, hrest⟩ := h
      have hblock : b.value.drawAnew options frame (first before) b.line s d =
          b.value.drawAnew options frame (second before) b.line s d := by
        cases hb : b.value with
        | flash target => rw [hfirst (by rw [hb]; rfl)]
        | _ => rfl
      rw [drawAnewFrom, drawAnewFrom, hblock]
      cases b.value.drawAnew options frame (second before) b.line s d with
      | error fault => rfl
      | ok next =>
          cases s.apply b with
          | error fault => rfl
          | ok s' => exact ih hrest

end Gerber

/-! ## The stock of stamps -/

section Stock

variable {α : Type} [Numeral α]

theorem Stamp.number_of_ofAperture {a : Aperture α} {pixelsPerMm unitScale : α} {stamp : Stamp α}
    (h : ofAperture a pixelsPerMm unitScale = .ok stamp) : stamp.number = a.number := by
  unfold ofAperture at h
  dsimp only at h
  split at h
  · cases h
    rfl
  · cases h

namespace Drawing

variable (d : Drawing α) (a : Aperture α) (pixelsPerMm unitScale : α) (polarity : Gerber.Polarity)
  (place : Point α)

/-- A stamp that is in stock is used. -/
theorem flash_of_stamp? {stamp : Stamp α} (h : d.stamp? a.number = some stamp) :
    d.flash a pixelsPerMm unitScale polarity place =
      .ok ({ d with flashes := d.flashes + 1, reuses := d.reuses + 1 }.put polarity stamp
        place) := by
  unfold stamp? at h
  simp only [flash, stamp?, h]
  rfl

/-- A stamp that is not in stock is made and kept. -/
theorem flash_of_stamp?_eq_none (h : d.stamp? a.number = none) :
    d.flash a pixelsPerMm unitScale polarity place =
      (Stamp.ofAperture a pixelsPerMm unitScale).map fun stamp =>
        { d with
            stamps := d.stamps ++ [stamp]
            renders := d.renders + 1
            flashes := d.flashes + 1 }.put polarity stamp place := by
  unfold stamp? at h
  simp only [flash, stamp?, h]
  cases Stamp.ofAperture a pixelsPerMm unitScale <;> rfl

end Drawing

end Stock

namespace Gerber

theorem State.number_of_current? {α : Type} {s : State α} {a : Aperture α}
    (h : s.current? = some a) :
    s.selected = some a.number ∧ s.apertures.get? a.number = some a := by
  obtain ⟨number, hselected, hget⟩ := Option.bind_eq_some_iff.mp h
  have hnumber : a.number = number := by simpa using List.find?_some hget
  exact ⟨by rw [hselected, hnumber], by rw [hnumber, hget]⟩

variable {α : Type} [Numeral α]

theorem Block.draw_still {b : Block α} (h : b.isFlash = false) (options : PictureOptions α)
    (frame : Frame α) (line : Nat) (s : State α) (d : Drawing α) :
    b.draw options frame line s d.withoutStock =
        (b.draw options frame line s d).map Drawing.withoutStock ∧
      ∀ next, b.draw options frame line s d = .ok next → next.stamps = d.stamps := by
  cases b with
  | flash target => cases h
  | interpolate mode target center =>
      unfold draw
      cases s.inRegion with
      | true => exact ⟨rfl, fun next hnext => by cases hnext; rfl⟩
      | false =>
          cases s.require line with
          | error fault => exact ⟨rfl, fun next hnext => by cases hnext⟩
          | ok a => exact ⟨rfl, fun next hnext => by cases hnext; rfl⟩
  | move target =>
      unfold draw
      cases s.inRegion <;> exact ⟨rfl, fun next hnext => by cases hnext; rfl⟩
  | _ => exact ⟨rfl, fun next hnext => by cases hnext; rfl⟩

/-- The stock of a drawing has the stamps of the apertures that were flashed so far, each for
the units at its first flash. -/
structure Stocked (options : PictureOptions α) (before : List (Block α)) (s : State α)
    (d : Drawing α) : Prop where
  units : s.units = unitsAfter before
  selected : s.selected = selectedAfter? before
  unmade : ∀ number, beforeFlash? number before = none → d.stamp? number = none
  made : ∀ number past, beforeFlash? number before = some past →
    ∃ a stamp, s.apertures.get? number = some a ∧
      Stamp.ofAperture a options.scale (unitsAfter past).scale = .ok stamp ∧
      d.stamp? number = some stamp

namespace Stocked

variable {options : PictureOptions α} {frame : Frame α} {before : List (Block α)} {s : State α}
  {d next : Drawing α} {b : Block α} {line : Nat}

theorem start (apertures : ApertureTable α) :
    Stocked options [] (.start apertures) Drawing.start where
  units := rfl
  selected := rfl
  unmade _ _ := rfl
  made _ _ h := by cases h

/-- A block leaves the stock alone if it is no first flash. -/
theorem after_still (h : Stocked options before s d)
    (hbefore : ∀ number, beforeFlash? number (before ++ [b]) = beforeFlash? number before)
    (hstamps : next.stamps = d.stamps) : Stocked options (before ++ [b]) (s.after b) next := by
  have hstamp (number : Nat) : next.stamp? number = d.stamp? number := by
    rw [Drawing.stamp?, hstamps, Drawing.stamp?]
  constructor
  · rw [State.after_units, unitsAfter_append, h.units]
  · rw [State.after_selected, selectedAfter?_append, h.selected]
  · intro number hnone
    rw [hstamp]
    exact h.unmade number (by rwa [← hbefore])
  · intro number past hsome
    rw [State.after_apertures, hstamp]
    exact h.made number past (by rwa [← hbefore])

/-- A stamp that a flash makes is put in stock. -/
theorem after_made {target : Point α} {a : Aperture α} {stamp : Stamp α}
    (h : Stocked options before s d) (ha : s.current? = some a)
    (hmade : Stamp.ofAperture a options.scale s.units.scale = .ok stamp)
    (hstamps : next.stamps = d.stamps ++ [stamp]) :
    Stocked options (before ++ [.flash target]) (s.after (.flash target)) next := by
  obtain ⟨hselected, hget⟩ := State.number_of_current? ha
  have hnumber : stamp.number = a.number := Stamp.number_of_ofAperture hmade
  have hflashes (number : Nat) :
      (Block.flash target).flashes number before = (a.number == number) := by
    rw [Block.flashes, ← h.selected, hselected]
    rfl
  have hstamp (number : Nat) : next.stamp? number =
      (d.stamp? number).or (if a.number == number then some stamp else none) := by
    rw [Drawing.stamp?, hstamps, List.find?_append, Drawing.stamp?]
    congr 1
    cases heq : a.number == number <;> simp [hnumber, heq]
  constructor
  · rw [State.after_units, unitsAfter_append, h.units]
  · rw [State.after_selected, selectedAfter?_append, h.selected]
  · intro number hnone
    rw [beforeFlash?_append, hflashes, Option.or_eq_none_iff] at hnone
    obtain ⟨hbefore, hother⟩ := hnone
    rw [hstamp, h.unmade number hbefore, Option.none_or]
    cases heq : a.number == number with
    | false => rfl
    | true => simp [heq] at hother
  · intro number past hsome
    rw [State.after_apertures, hstamp]
    rw [beforeFlash?_append, hflashes] at hsome
    cases hbefore : beforeFlash? number before with
    | some earlier =>
        rw [hbefore, Option.some_or] at hsome
        obtain ⟨a', stamp', hget', hmade', hstamp'⟩ := h.made number earlier hbefore
        cases hsome
        exact ⟨a', stamp', hget', hmade', by rw [hstamp', Option.some_or]⟩
    | none =>
        rw [hbefore, Option.none_or] at hsome
        cases heq : a.number == number with
        | false => simp [heq] at hsome
        | true =>
            rw [heq, if_pos rfl] at hsome
            cases hsome
            cases beq_iff_eq.mp heq
            refine ⟨a, stamp, hget, by rw [← h.units]; exact hmade, ?_⟩
            rw [h.unmade _ hbefore, Option.none_or, if_pos rfl]

/-- A flash puts down the stamp of the aperture for the units at its first flash, and the stock
is kept. -/
theorem flash {target : Point α} (h : Stocked options before s d) :
    (Block.flash target).drawAnew options frame (stampUnits before) line s d.withoutStock =
        ((Block.flash target).draw options frame line s d).map Drawing.withoutStock ∧
      ∀ next, (Block.flash target).draw options frame line s d = .ok next →
        Stocked options (before ++ [.flash target]) (s.after (.flash target)) next := by
  unfold Block.drawAnew Block.draw
  cases hcurrent : s.current? with
  | none =>
      unfold State.require
      rw [hcurrent]
      exact ⟨rfl, fun next hnext => by cases hnext⟩
  | some a =>
      obtain ⟨hselected, hget⟩ := State.number_of_current? hcurrent
      have hunits : stampUnits before = unitsAfter ((beforeFlash? a.number before).getD before) := by
        rw [stampUnits, ← h.selected, hselected]
        rfl
      rw [State.require_of_current? hcurrent, hunits]
      cases hfirst : beforeFlash? a.number before with
      | some past =>
          obtain ⟨a', stamp, hget', hmade, hstamp⟩ := h.made _ _ hfirst
          -- The table of apertures stays as it is, so the stamp is one of the selected aperture.
          cases hget.symm.trans hget'
          have hbefore (number : Nat) :
              beforeFlash? number (before ++ [.flash target]) = beforeFlash? number before := by
            rw [beforeFlash?_append]
            cases hflash : (Block.flash target).flashes number before with
            | false => exact Option.or_none
            | true =>
                have heq : a.number = number := by
                  simpa [Block.flashes, Block.isFlash, ← h.selected, hselected] using hflash
                rw [← heq, hfirst, Option.some_or]
          simp only [Option.getD_some, bind, Except.bind, pure, Except.pure, hmade,
            d.flash_of_stamp? a _ _ _ _ hstamp]
          exact ⟨rfl, fun next hnext => h.after_still hbefore (by cases hnext; rfl)⟩
      | none =>
          simp only [Option.getD_none, bind, Except.bind, pure, Except.pure,
            d.flash_of_stamp?_eq_none a _ _ _ _ (h.unmade _ hfirst), ← h.units]
          cases hmade : Stamp.ofAperture a options.scale s.units.scale with
          | error fault => exact ⟨rfl, fun next hnext => by cases hnext⟩
          | ok stamp =>
              refine ⟨rfl, fun next hnext => h.after_made hcurrent hmade ?_⟩
              cases hnext
              rfl

/-- Whatever a block draws, it draws with the stamp made anew for the units at the first flash
of the selected aperture, and the stock is kept. -/
theorem step (h : Stocked options before s d) (frame : Frame α) (line : Nat) (b : Block α) :
    b.drawAnew options frame (stampUnits before) line s d.withoutStock =
        (b.draw options frame line s d).map Drawing.withoutStock ∧
      ∀ next, b.draw options frame line s d = .ok next →
        Stocked options (before ++ [b]) (s.after b) next := by
  cases hflash : b.isFlash with
  | true =>
      cases b with
      | flash target => exact h.flash
      | _ => cases hflash
  | false =>
      obtain ⟨hdraw, hstamps⟩ := Block.draw_still hflash options frame line s d
      have hbefore (number : Nat) :
          beforeFlash? number (before ++ [b]) = beforeFlash? number before :=
        beforeFlash?_append_still (by rw [Block.flashes, hflash, Bool.false_and])
      refine ⟨?_, fun next hnext => h.after_still hbefore (hstamps next hnext)⟩
      rw [← hdraw]
      cases b with
      | flash target => cases hflash
      | _ => rfl

end Stocked

theorem drawAnewFrom_stampUnits {options : PictureOptions α} {frame : Frame α} {lastLine : Nat}
    {before : List (Block α)} {s : State α} {d : Drawing α} {blocks : List (Located (Block α))}
    (h : Stocked options before s d) :
    drawAnewFrom options frame lastLine stampUnits before s d.withoutStock blocks =
      (drawFrom options frame lastLine s d blocks).map Drawing.withoutStock id := by
  induction blocks generalizing before s d with
  | nil => rfl
  | cons b rest ih =>
      obtain ⟨hdraw, hnext⟩ := h.step frame b.line b.value
      rw [drawAnewFrom, drawFrom, hdraw]
      cases hresult : b.value.draw options frame b.line s d with
      | error fault => rfl
      | ok next =>
          cases happly : s.apply b with
          | error fault => rfl
          | ok s' =>
              cases State.eq_after_of_apply happly
              exact ih (hnext next hresult)

/-- A document is drawn as with all stamps made anew, each for the units at the first flash of
its aperture. -/
theorem Document.drawAnew_stampUnits (options : PictureOptions α) (frame : Frame α)
    (d : Document α) :
    d.drawAnew options frame stampUnits = (d.draw options frame).map Drawing.withoutStock id :=
  drawAnewFrom_stampUnits (.start d.apertures)

end Gerber

/-! ## The picture -/

namespace Picture

variable {α : Type}

/-- A picture, without the stamps to use again. -/
def withoutStock (p : Picture α) : Picture α := { p with drawing := p.drawing.withoutStock }

variable [Scalar α] (p : Picture α)

@[simp] theorem rows_withoutStock : p.withoutStock.rows = p.rows := rfl

@[simp] theorem pixel?_withoutStock (x y : Nat) : p.withoutStock.pixel? x y = p.pixel? x y := rfl

end Picture

namespace Gerber.Document

section

variable {α : Type} [Numeral α]

/-- The picture of a document, with all stamps made anew. -/
def pictureAnew (options : PictureOptions α) (unitsAt : List (Block α) → Units)
    (d : Document α) : Except Fault (Picture α) := do
  let bounds ← d.bounds
  let surface ← Surface.ofBox bounds options
  match d.drawAnew options surface.frame unitsAt with
  | (drawing, .ok _) => return { bounds, surface, cutHoles := options.cutHoles, drawing }
  | (_, .error fault) => throw fault

theorem pictureAnew_stampUnits (options : PictureOptions α) (d : Document α) :
    d.pictureAnew options stampUnits = (d.picture options).map Picture.withoutStock := by
  unfold pictureAnew picture
  cases d.bounds with
  | error fault => rfl
  | ok bounds =>
      cases hsurface : Surface.ofBox bounds options with
      | error fault => simp only [hsurface, bind, Except.bind]; rfl
      | ok surface =>
          simp only [hsurface, bind, Except.bind, drawAnew_stampUnits]
          cases d.draw options surface.frame with
          | mk drawing ending => cases ending <;> rfl

/-- Every flash of an aperture finds the units of its first flash. -/
def KeepsUnits (d : Document α) : Prop :=
  ∀ visit ∈ visitsFrom [] (d.blocks.map Located.value), visit.2.isFlash = true →
    stampUnits visit.1 = unitsAfter visit.1

/-- Drawing with stamps that are used again is drawing with all stamps made anew, each for the
units at the first flash of its aperture. If every flash of an aperture finds the same units,
it is drawing with all stamps made anew for the units at hand. The results are the same too,
and so are the pictures. -/
theorem draw_reuses_first_stamps (options : PictureOptions α) (d : Document α) :
    let plain (frame : Frame α) := (d.draw options frame).map Drawing.withoutStock id
    let shown := (d.picture options).map Picture.withoutStock
    ((∀ frame, d.drawAnew options frame stampUnits = plain frame) ∧
      d.pictureAnew options stampUnits = shown) ∧
    (d.KeepsUnits →
      (∀ frame, d.drawAnew options frame unitsAfter = plain frame) ∧
        d.pictureAnew options unitsAfter = shown) := by
  intro plain shown
  have hplain (frame : Frame α) : d.drawAnew options frame stampUnits = plain frame :=
    d.drawAnew_stampUnits options frame
  have hshown : d.pictureAnew options stampUnits = shown := d.pictureAnew_stampUnits options
  refine ⟨⟨hplain, hshown⟩, fun hkeeps => ?_⟩
  have hsame (frame : Frame α) :
      d.drawAnew options frame unitsAfter = d.drawAnew options frame stampUnits :=
    (drawAnewFrom_congr options frame hkeeps).symm
  refine ⟨fun frame => (hsame frame).trans (hplain frame), ?_⟩
  rw [← hshown, pictureAnew, pictureAnew]
  simp only [hsame]

end

/-- A square that is flashed twice in inches is the same with a stamp made anew. -/
theorem draw_reuses_first_stamps_inches :
    let d : Document Float :=
      { blocks := [⟨1, .units .inches⟩, ⟨2, .select 10⟩, ⟨3, .flash ⟨0.0, 0.0⟩⟩,
          ⟨4, .units .inches⟩, ⟨5, .flash ⟨2.0, 0.0⟩⟩]
        apertures := ⟨[⟨10, .rectangle 1.0 1.0, none⟩]⟩ }
    d.KeepsUnits ∧ d.pictureAnew .default unitsAfter =
      (d.picture .default).map Picture.withoutStock := by
  intro d
  have hkeeps : d.KeepsUnits := by
    unfold KeepsUnits
    decide +kernel
  exact ⟨hkeeps, ((draw_reuses_first_stamps .default d).2 hkeeps).2⟩

local instance : Analytic ℚ := coarse

/-- A square of a millimetre is flashed, and again behind a change to inches. The second flash
puts down the stamp of the first one, where the square of an inch is as wide as the document
says. -/
theorem draw_stale_stamp :
    let d : Document (Exact ℚ) :=
      { blocks := [⟨1, .select 10⟩, ⟨2, .flash ⟨0.0, 0.0⟩⟩, ⟨3, .units .inches⟩,
          ⟨4, .flash ⟨2.0, 0.0⟩⟩]
        apertures := ⟨[⟨10, .rectangle 1.0 1.0, none⟩]⟩ }
    let widths (p : Picture (Exact ℚ)) : List Nat :=
      p.drawing.marks.filterMap fun (_, mark) =>
        match mark with
        | .stamp s _ _ => some s.surface.width
        | _ => none
    ((d.picture .default).map widths).toOption = some [42, 42] ∧
      ((d.pictureAnew .default unitsAfter).map widths).toOption = some [1018, 42] := by
  decide +kernel

end Gerber.Document

end BoardMill
