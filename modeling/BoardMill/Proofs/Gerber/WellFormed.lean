import BoardMill.Proofs.Gerber.Ready
import BoardMill.Proofs.Gerber.Steps
import BoardMill.Proofs.Outcome
import Mathlib.Data.List.Chain
import Mathlib.Data.List.Induction

/-! # Well-formed documents

Which documents come through the graphics state can be told from the blocks alone: apertures
are selected from the table and before they are needed, regions open and close in turn, and
nothing is flashed inside of one. Any other document stops at its first block that offends
against this, or behind its last block if only a region was left open.
-/

namespace BoardMill

variable {α : Type}

/-- A table has an aperture of a number. -/
def ApertureTable.Has (table : ApertureTable α) (number : Nat) : Prop :=
  ∃ a ∈ table.entries, a.number = number

theorem ApertureTable.has_iff {table : ApertureTable α} {number : Nat} :
    table.Has number ↔ (table.get? number).isSome := by
  rw [get?, List.find?_isSome]
  simp [Has]

end BoardMill

namespace BoardMill.Gerber

open Outcome

variable {α : Type} {table : ApertureTable α} {before blocks : List (Block α)}

/-! ## Regions and apertures told from the blocks -/

/-- Whether a block opens or closes a region. -/
def Block.opens? : Block α → Option Bool
  | regionStart => some true
  | regionEnd => some false
  | _ => none

/-- The starts and ends of regions. -/
def markers (blocks : List (Block α)) : List Bool := blocks.filterMap Block.opens?

/-- A place is inside a region if the last marker before it is a start. -/
def Inside (before : List (Block α)) : Prop := (markers before).getLast? = some true

/-- What a document must be like to come through the graphics state. -/
structure WellFormed (table : ApertureTable α) (blocks : List (Block α)) : Prop where
  selects : ∀ number, .select number ∈ blocks → table.Has number
  alternating : (markers blocks).IsChain (· ≠ ·)
  opened : (markers blocks).head? ≠ some false
  closed : ¬ Inside blocks
  flashes_outside : ∀ before target after, blocks = before ++ .flash target :: after →
    ¬ Inside before
  flashes : ∀ before target after, blocks = before ++ .flash target :: after →
    ∃ number, .select number ∈ before
  strokes : ∀ before mode target center after,
    blocks = before ++ .interpolate mode target center :: after → ¬ Inside before →
      ∃ number, .select number ∈ before

/-- What is wrong with a block behind others. The fault is that of the line of the block. -/
inductive Block.Offends (table : ApertureTable α) (before : List (Block α)) :
    Block α → (Nat → Fault) → Prop where
  | unknown {number : Nat} : ¬ table.Has number →
      Offends table before (.select number) (.unknownAperture number)
  -- A flash inside a region is refused for its place, with or without an aperture.
  | flashInside {target : Point α} : Inside before →
      Offends table before (.flash target) (.invalidRegion · "flash inside a region")
  | flashBare {target : Point α} : ¬ Inside before → (∀ number, .select number ∉ before) →
      Offends table before (.flash target) .noApertureSelected
  | strokeBare {mode : Interpolation} {target : Point α} {center : Option (Point α)} :
      ¬ Inside before → (∀ number, .select number ∉ before) →
      Offends table before (.interpolate mode target center) .noApertureSelected
  | startInside : Inside before →
      Offends table before .regionStart (.invalidRegion · "G36 inside a region")
  | endOutside : ¬ Inside before →
      Offends table before .regionEnd (.invalidRegion · "G37 without G36")

def Clean (table : ApertureTable α) (blocks : List (Block α)) : Prop :=
  ∀ before b after, blocks = before ++ b :: after → ∀ offence, ¬ b.Offends table before offence

theorem clean_concat {b : Block α} :
    Clean table (blocks ++ [b]) ↔
      Clean table blocks ∧ ∀ offence, ¬ b.Offends table blocks offence :=
  forall_split_concat

theorem markers_concat (b : Block α) : markers (before ++ [b]) = markers before ++ b.opens?.toList := by
  rw [markers, List.filterMap_append]
  cases h : b.opens? <;> simp [markers, h]

theorem inside_concat {b : Block α} :
    Inside (before ++ [b]) ↔ b.opens?.elim (Inside before) (· = true) := by
  rw [Inside, markers_concat]
  cases b.opens? <;> simp [Inside]

/-! ## Clean documents -/

theorem alternates_concat {front : List Bool} {last : Bool} :
    ((front ++ [last]).IsChain (· ≠ ·) ∧ (front ++ [last]).head? ≠ some false) ↔
      (front.IsChain (· ≠ ·) ∧ front.head? ≠ some false) ∧
        (last = true ↔ front.getLast? ≠ some true) := by
  rw [List.isChain_append]
  rcases List.eq_nil_or_concat front with rfl | ⟨front, marker, rfl⟩
  · simp
  · cases marker <;> cases last <;> simp

/-- Markers alternate if no region opens inside of another one, and none closes outside. -/
theorem alternates_iff :
    ((markers blocks).IsChain (· ≠ ·) ∧ (markers blocks).head? ≠ some false) ↔
      ∀ before b after, blocks = before ++ b :: after →
        ∀ marker, b.opens? = some marker → (marker = true ↔ ¬ Inside before) := by
  -- The last block only has to fit the markers before it.
  induction blocks using List.reverseRecOn with
  | nil => simp [markers]
  | append_singleton front b ih =>
      rw [forall_split_concat, ← ih, markers_concat]
      cases h : b.opens? with
      | none => simp
      | some marker =>
          rw [Option.toList_some, alternates_concat]
          simp [Inside]

theorem wellFormed_iff : WellFormed table blocks ↔ Clean table blocks ∧ ¬ Inside blocks := by
  constructor
  · intro h
    refine ⟨fun before b after hsplit offence hoffends => ?_, h.closed⟩
    have halternates := alternates_iff.mp ⟨h.alternating, h.opened⟩ before b after hsplit
    cases hoffends with
    | unknown hnot => exact hnot (h.selects _ (by simp [hsplit]))
    | flashInside hinside => exact h.flashes_outside _ _ _ hsplit hinside
    | flashBare hinside hnone =>
        obtain ⟨number, hmem⟩ := h.flashes _ _ _ hsplit
        exact hnone number hmem
    | strokeBare hinside hnone =>
        obtain ⟨number, hmem⟩ := h.strokes _ _ _ _ _ hsplit hinside
        exact hnone number hmem
    | startInside hinside => exact (halternates true rfl).mp rfl hinside
    | endOutside hinside => exact absurd ((halternates false rfl).mpr hinside) Bool.false_ne_true
  · rintro ⟨hclean, hclosed⟩
    have hflashes (before : List (Block α)) (target : Point α) (after : List (Block α))
        (hsplit : blocks = before ++ .flash target :: after) : ¬ Inside before :=
      fun hinside => hclean _ _ _ hsplit _ (.flashInside hinside)
    have halternates : ∀ before b after, blocks = before ++ b :: after →
        ∀ marker, b.opens? = some marker → (marker = true ↔ ¬ Inside before) := by
      intro before b after hsplit marker hmarker
      have hnot := hclean before b after hsplit
      cases b with
      | regionStart =>
          obtain rfl := Option.some.inj hmarker
          exact iff_of_true rfl fun hinside => hnot _ (.startInside hinside)
      | regionEnd =>
          obtain rfl := Option.some.inj hmarker
          exact iff_of_false Bool.false_ne_true fun hinside => hnot _ (.endOutside hinside)
      | _ => cases hmarker
    obtain ⟨halternating, hopened⟩ := alternates_iff.mpr halternates
    refine ⟨?_, halternating, hopened, hclosed, hflashes, ?_, ?_⟩
    · intro number hmem
      obtain ⟨before, after, hsplit⟩ := List.append_of_mem hmem
      by_contra hnot
      exact hclean _ _ _ hsplit _ (.unknown hnot)
    · intro before target after hsplit
      by_contra hnone
      exact hclean _ _ _ hsplit _ (.flashBare (hflashes _ _ _ hsplit) (not_exists.mp hnone))
    · intro before mode target center after hsplit hinside
      by_contra hnone
      exact hclean _ _ _ hsplit _ (.strokeBare hinside (not_exists.mp hnone))

/-! ## States of clean documents -/

namespace State

/-- A state is what some blocks from the start of a document lead to, as far as checks are
concerned. -/
structure Tracks (s : State α) (table : ApertureTable α) (before : List (Block α)) : Prop where
  apertures : s.apertures = table
  inRegion : s.inRegion = true ↔ Inside before
  selected : s.selected.isSome ↔ ∃ number, .select number ∈ before
  known : ∀ number, s.selected = some number → table.Has number

theorem Tracks.start [Scalar α] : (State.start table).Tracks table [] where
  apertures := rfl
  inRegion := by simp [State.start, Inside, markers]
  selected := by simp [State.start]
  known _ h := by cases h

variable {s next last : State α} {b : Located (Block α)}

theorem Tracks.inRegion_eq_false_iff (h : s.Tracks table before) :
    s.inRegion = false ↔ ¬ Inside before := by
  rw [← h.inRegion, Bool.not_eq_true]

theorem Tracks.isSome_current?_iff (h : s.Tracks table before) :
    s.current?.isSome ↔ ∃ number, .select number ∈ before := by
  rw [← h.selected, State.current?, h.apertures]
  cases hselected : s.selected with
  | none => simp
  | some number =>
      have hget := ApertureTable.has_iff.mp (h.known number hselected)
      simpa using hget

theorem Tracks.apply_eq_error (h : s.Tracks table before) {offence : Nat → Fault}
    (hoffends : b.value.Offends table before offence) : s.apply b = .error (offence b.line) := by
  obtain ⟨line, b⟩ := b
  have hcurrent (hnone : ∀ number, Block.select number ∉ before) : s.current? = none := by
    rw [← Option.not_isSome_iff_eq_none, h.isSome_current?_iff]
    exact not_exists.mpr hnone
  cases hoffends with
  | unknown hnot =>
      rw [ApertureTable.has_iff, Option.not_isSome_iff_eq_none, ← h.apertures] at hnot
      simp [State.apply, hnot, throw, throwThe, MonadExceptOf.throw]
  | flashInside hinside =>
      rw [← h.inRegion] at hinside
      simp [State.apply, hinside, throw, throwThe, MonadExceptOf.throw, bind, Except.bind]
  | flashBare hinside hnone =>
      rw [← h.inRegion_eq_false_iff] at hinside
      simp [State.apply, hinside, require_of_no_current (hcurrent hnone), bind,
        Except.bind]
  | strokeBare hinside hnone =>
      rw [← h.inRegion_eq_false_iff] at hinside
      simp [State.apply, hinside, require_of_no_current (hcurrent hnone), bind,
        Except.bind]
  | startInside hinside =>
      rw [← h.inRegion] at hinside
      simp [State.apply, hinside, throw, throwThe, MonadExceptOf.throw]
  | endOutside hinside =>
      rw [← h.inRegion_eq_false_iff] at hinside
      simp [State.apply, hinside, throw, throwThe, MonadExceptOf.throw]

theorem Tracks.admitted (h : s.Tracks table before) {b : Block α}
    (hnone : ∀ offence, ¬ b.Offends table before offence) : b.Admitted s := by
  cases b with
  | select number =>
      change (s.apertures.get? number).isSome
      rw [h.apertures, ← ApertureTable.has_iff]
      by_contra hnot
      exact hnone _ (.unknown hnot)
  | flash target =>
      have hinside : ¬ Inside before := fun hinside => hnone _ (.flashInside hinside)
      refine ⟨h.inRegion_eq_false_iff.mpr hinside, h.isSome_current?_iff.mpr ?_⟩
      by_contra hbare
      exact hnone _ (.flashBare hinside (not_exists.mp hbare))
  | interpolate mode target center =>
      change s.inRegion = true ∨ _
      rw [h.inRegion, h.isSome_current?_iff]
      by_contra hneither
      obtain ⟨hinside, hbare⟩ := not_or.mp hneither
      exact hnone _ (.strokeBare hinside (not_exists.mp hbare))
  | regionStart =>
      change s.inRegion = false
      rw [h.inRegion_eq_false_iff]
      exact fun hinside => hnone _ (.startInside hinside)
  | regionEnd =>
      change s.inRegion = true
      rw [h.inRegion]
      by_contra hinside
      exact hnone _ (.endOutside hinside)
  | _ => trivial

/-- A block is refused exactly if it offends, and with what is wrong with it. -/
theorem Tracks.apply_eq_error_iff (h : s.Tracks table before) {fault : Fault} :
    s.apply b = .error fault ↔
      ∃ offence, b.value.Offends table before offence ∧ fault = offence b.line := by
  constructor
  · intro hfault
    by_contra hnone
    have hadmitted : b.value.Admitted s := h.admitted fun offence hoffends =>
      hnone ⟨offence, hoffends, Except.error.inj (hfault.symm.trans (h.apply_eq_error hoffends))⟩
    rw [apply_eq_ok_iff.mpr ⟨hadmitted, rfl⟩] at hfault
    cases hfault
  · rintro ⟨offence, hoffends, rfl⟩
    exact h.apply_eq_error hoffends

theorem Tracks.after (h : s.Tracks table before) {b : Block α} (hadmitted : b.Admitted s) :
    (s.after b).Tracks table (before ++ [b]) where
  apertures := by rw [after_apertures, h.apertures]
  inRegion := by
    rw [inside_concat, ← h.inRegion]
    cases b <;> simp [State.after, Block.opens?]
  selected := by
    have hselected := h.selected
    cases b <;> simp [State.after, hselected]
  known number hnumber := by
    cases b with
    | select chosen =>
        obtain rfl := Option.some.inj hnumber
        rw [ApertureTable.has_iff, ← h.apertures]
        exact hadmitted
    | _ => exact h.known number hnumber

theorem Tracks.foldlM {blocks : List (Located (Block α))} (h : s.Tracks table before)
    (hlast : blocks.foldlM State.apply s = .ok last) :
    last.Tracks table (before ++ blocks.map Located.value) := by
  induction blocks generalizing s before with
  | nil =>
      cases hlast
      simpa using h
  | cons b rest ih =>
      rw [List.foldlM_cons] at hlast
      obtain ⟨next, hnext, hlast⟩ := bind_eq_ok.mp hlast
      obtain ⟨hadmitted, rfl⟩ := apply_eq_ok_iff.mp hnext
      simpa using ih (h.after hadmitted) hlast

theorem tracks_of_foldlM [Scalar α] {blocks : List (Located (Block α))}
    (h : blocks.foldlM State.apply (.start table) = .ok s) :
    s.Tracks table (blocks.map Located.value) := by
  simpa using Tracks.start.foldlM h

/-- Exactly the clean blocks are all carried out. -/
theorem exists_foldlM_iff_clean [Scalar α] {blocks : List (Located (Block α))} :
    (∃ s, blocks.foldlM State.apply (.start table) = .ok s) ↔
      Clean table (blocks.map Located.value) := by
  induction blocks using List.reverseRecOn with
  | nil => exact iff_of_true ⟨_, rfl⟩ (by simp [Clean])
  | append_singleton front b ih =>
      rw [List.map_append, List.map_singleton, clean_concat, ← ih]
      simp only [List.foldlM_append, List.foldlM_cons, List.foldlM_nil, bind_pure]
      constructor
      · rintro ⟨s, hs⟩
        obtain ⟨middle, hmiddle, hs⟩ := bind_eq_ok.mp hs
        refine ⟨⟨middle, hmiddle⟩, fun offence hoffends => ?_⟩
        rw [(tracks_of_foldlM hmiddle).apply_eq_error hoffends] at hs
        cases hs
      · rintro ⟨⟨middle, hmiddle⟩, hnone⟩
        have hadmitted := (tracks_of_foldlM hmiddle).admitted hnone
        exact ⟨_, bind_eq_ok.mpr ⟨middle, hmiddle, apply_eq_ok_iff.mpr ⟨hadmitted, rfl⟩⟩⟩

theorem finish_eq_error_iff {lastLine : Nat} {fault : Fault} :
    s.finish lastLine = .error fault ↔ s.inRegion = true ∧
      fault = .invalidRegion lastLine "region not closed before end of file" := by
  rw [finish]
  split
  next hregion => simp [hregion, throw, throwThe, MonadExceptOf.throw, eq_comm]
  next hregion => simp [hregion, pure, Except.pure]

theorem finish_eq_ok_iff {lastLine : Nat} : s.finish lastLine = .ok () ↔ s.inRegion = false := by
  rw [finish]
  split
  next hregion => simp [hregion, throw, throwThe, MonadExceptOf.throw]
  next hregion => simp [hregion, pure, Except.pure]

end State

/-- Carrying out all blocks and then checking the end succeeds exactly for well-formed blocks.
Otherwise it fails with what is wrong with the first block that offends, on the line of that
block, or on the last line if a region is left open. An aperture that is selected in any state
on the way is one of the table. -/
theorem State.passes_iff_wellFormed [Scalar α] (table : ApertureTable α)
    (blocks : List (Located (Block α))) (lastLine : Nat) :
    let outcome := blocks.foldlM State.apply (.start table) >>= (·.finish lastLine)
    let values := blocks.map Located.value
    (outcome = .ok () ↔ WellFormed table values) ∧
    (∀ fault, outcome = .error fault ↔
      (∃ before b after offence, blocks = before ++ b :: after ∧
        Clean table (before.map Located.value) ∧
        b.value.Offends table (before.map Located.value) offence ∧ fault = offence b.line) ∨
      (Clean table values ∧ Inside values ∧
        fault = .invalidRegion lastLine "region not closed before end of file")) ∧
    ∀ before s, before <+: blocks → before.foldlM State.apply (.start table) = .ok s →
      ∀ number, s.selected = some number → table.Has number := by
  intro outcome values
  refine ⟨?_, fun fault => ?_, ?_⟩
  · rw [wellFormed_iff, ← exists_foldlM_iff_clean, bind_eq_ok]
    constructor
    · rintro ⟨s, hs, hfinish⟩
      have htracks := tracks_of_foldlM hs
      exact ⟨⟨s, hs⟩, htracks.inRegion_eq_false_iff.mp (finish_eq_ok_iff.mp hfinish)⟩
    · rintro ⟨⟨s, hs⟩, houtside⟩
      have htracks := tracks_of_foldlM hs
      exact ⟨s, hs, finish_eq_ok_iff.mpr (htracks.inRegion_eq_false_iff.mpr houtside)⟩
  · rw [bind_eq_error, foldlM_eq_error_iff, ← exists_foldlM_iff_clean]
    apply or_congr
    · constructor
      · rintro ⟨before, b, after, s, hsplit, hs, hfault⟩
        obtain ⟨offence, hoffends, hfault⟩ := (tracks_of_foldlM hs).apply_eq_error_iff.mp hfault
        exact ⟨before, b, after, offence, hsplit, exists_foldlM_iff_clean.mp ⟨s, hs⟩, hoffends, hfault⟩
      · rintro ⟨before, b, after, offence, hsplit, hclean, hoffends, hfault⟩
        obtain ⟨s, hs⟩ := exists_foldlM_iff_clean.mpr hclean
        refine ⟨before, b, after, s, hsplit, hs, ?_⟩
        exact (tracks_of_foldlM hs).apply_eq_error_iff.mpr ⟨offence, hoffends, hfault⟩
    · constructor
      · rintro ⟨s, hs, hfinish⟩
        obtain ⟨hregion, hfault⟩ := finish_eq_error_iff.mp hfinish
        exact ⟨⟨s, hs⟩, (tracks_of_foldlM hs).inRegion.mp hregion, hfault⟩
      · rintro ⟨⟨s, hs⟩, hinside, hfault⟩
        have hregion := (tracks_of_foldlM hs).inRegion.mpr hinside
        exact ⟨s, hs, finish_eq_error_iff.mpr ⟨hregion, hfault⟩⟩
  · intro before s _ hs
    exact (tracks_of_foldlM hs).known

/-- A contour needs no aperture, a flash behind it does. The same flash inside the region is
refused. -/
theorem State.passes_iff_wellFormed_contour :
    let table : ApertureTable Float := ⟨[⟨10, .circle 1.0, none⟩]⟩
    let edge : Block Float := .interpolate .linear ⟨1.0, 0.0⟩ none
    let flash : Block Float := .flash ⟨0.0, 0.0⟩
    let contour : List (Located (Block Float)) :=
      [⟨1, .regionStart⟩, ⟨2, edge⟩, ⟨3, .regionEnd⟩, ⟨4, .select 10⟩]
    let inside : List (Located (Block Float)) := [⟨1, .regionStart⟩, ⟨2, flash⟩]
    WellFormed table [.regionStart, edge, .regionEnd, .select 10, flash] ∧
    (∃ s, contour.foldlM State.apply (.start table) = .ok s ∧ s.selected = some 10 ∧
      table.Has 10) ∧
    ∃ before b after offence, inside = before ++ b :: after ∧
      Clean table (before.map Located.value) ∧
      b.value.Offends table (before.map Located.value) offence ∧
      offence b.line = .invalidRegion 2 "flash inside a region" := by
  intro table edge flash contour inside
  obtain ⟨hok, -, hknown⟩ := passes_iff_wellFormed table (contour ++ [⟨5, flash⟩]) 6
  obtain ⟨-, herror, -⟩ := passes_iff_wellFormed table inside 3
  refine ⟨hok.mp rfl, ?_, ?_⟩
  · exact ⟨_, rfl, rfl, hknown contour _ ⟨[⟨5, flash⟩], rfl⟩ rfl 10 rfl⟩
  · rcases (herror (.invalidRegion 2 "flash inside a region")).mp rfl with
      ⟨before, b, after, offence, hsplit, hclean, hoffends, hfault⟩ | ⟨-, -, hfault⟩
    · exact ⟨before, b, after, offence, hsplit, hclean, hoffends, hfault.symm⟩
    · cases hfault

end BoardMill.Gerber
