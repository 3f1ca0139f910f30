import BoardMill.Proofs.Decimal.Marks
import BoardMill.Proofs.Files.Recorded
import BoardMill.Proofs.Picture.Progress
import BoardMill.Proofs.Picture.Stamps
import Mathlib.Data.Finset.Dedup

/-! # What a picture counts

The counts of a picture are those of its document: its flashes, and the different apertures that
are selected at some flash. For each of these one stamp is made, and written if there is a
directory for stamps, and no other file is.
-/

namespace BoardMill

namespace Gerber

variable {α : Type}

/-- The number of the aperture that a block flashes, given the blocks before it. -/
def Block.flashed? (before : List (Block α)) (b : Block α) : Option Nat :=
  if b.isFlash then selectedAfter? before else none

/-- The numbers of the apertures that are flashed, flash by flash. -/
def flashedNumbers (blocks : List (Block α)) : List Nat :=
  (visitsFrom [] blocks).filterMap fun (before, b) => b.flashed? before

theorem flashedNumbers_append (before : List (Block α)) (b : Block α) :
    flashedNumbers (before ++ [b]) = flashedNumbers before ++ (b.flashed? before).toList := by
  rw [flashedNumbers, visitsFrom_append, List.filterMap_append, flashedNumbers]
  cases h : b.flashed? before <;> simp [visitsFrom, h]

theorem mem_flashedNumbers {blocks : List (Block α)} {number : Nat} :
    number ∈ flashedNumbers blocks ↔
      ∃ before target after, blocks = before ++ .flash target :: after ∧
        selectedAfter? before = some number := by
  rw [flashedNumbers, List.mem_filterMap]
  constructor
  · rintro ⟨⟨before, b⟩, hvisit, hb⟩
    obtain ⟨first, after, rfl, rfl⟩ := exists_split_of_mem_visitsFrom hvisit
    cases b with
    | flash target => exact ⟨before, target, after, rfl, hb⟩
    | _ => cases hb
  · rintro ⟨before, target, after, rfl, hnumber⟩
    refine ⟨(before, .flash target), ?_, hnumber⟩
    simp [visitsFrom_append, visitsFrom]

theorem State.current?_of_require {s : State α} {line : Nat} {a : Aperture α}
    (h : s.require line = .ok a) : s.current? = some a := by
  unfold require at h
  split at h
  next b hb =>
    cases h
    exact hb
  next => cases h

variable [Numeral α]

/-- Only a flash counts. -/
theorem Block.draw_uncounted {b : Block α} (h : b.isFlash = false) {options : PictureOptions α}
    {frame : Frame α} {line : Nat} {s : State α} {d next : Drawing α}
    (hdraw : b.draw options frame line s d = .ok next) :
    next.stamps = d.stamps ∧ next.renders = d.renders ∧ next.flashes = d.flashes ∧
      next.reuses = d.reuses := by
  cases b with
  | flash target => cases h
  | interpolate mode target center =>
      unfold draw at hdraw
      cases hregion : s.inRegion with
      | true =>
          rw [hregion] at hdraw
          cases hdraw
          exact ⟨rfl, rfl, rfl, rfl⟩
      | false =>
          rw [hregion] at hdraw
          obtain ⟨a, -, hdraw⟩ := Outcome.bind_eq_ok.mp hdraw
          cases hdraw
          exact ⟨rfl, rfl, rfl, rfl⟩
  | move target =>
      cases hdraw
      cases s.inRegion <;> exact ⟨rfl, rfl, rfl, rfl⟩
  | _ =>
      cases hdraw
      exact ⟨rfl, rfl, rfl, rfl⟩

/-- What was drawn counts the flashes so far and the stamps that were made, and has one stamp for
each aperture among the flashes. -/
structure Counted (before : List (Block α)) (s : State α) (d : Drawing α) : Prop where
  selected : s.selected = selectedAfter? before
  distinct : (d.stamps.map (·.number)).Nodup
  numbers : ∀ number, number ∈ d.stamps.map (·.number) ↔ number ∈ flashedNumbers before
  renders : d.renders = d.stamps.length
  flashes : d.flashes = before.countP Block.isFlash
  uses : d.reuses + d.renders = d.flashes

namespace Counted

variable {options : PictureOptions α} {frame : Frame α} {before : List (Block α)} {s : State α}
  {d next : Drawing α} {line : Nat}

theorem start (apertures : ApertureTable α) :
    Counted [] (.start apertures) (.start : Drawing α) :=
  ⟨rfl, List.nodup_nil, fun _ => .rfl, rfl, rfl, rfl⟩

omit [Numeral α] in
theorem stamp?_eq_none (h : Counted before s d) {number : Nat} :
    d.stamp? number = none ↔ number ∉ flashedNumbers before := by
  rw [← h.numbers, Drawing.stamp?, List.find?_eq_none]
  simp

omit [Numeral α] in
theorem selected_after (h : Counted before s d) (b : Block α) :
    (s.after b).selected = selectedAfter? (before ++ [b]) := by
  rw [State.after_selected, selectedAfter?_append, h.selected]

/-- A flash is counted, and its aperture has a stamp from then on. -/
theorem flash (h : Counted before s d) {target : Point α}
    (hdraw : (Block.flash target).draw options frame line s d = .ok next) :
    Counted (before ++ [.flash target]) (s.after (.flash target)) next := by
  obtain ⟨a, ha, hdraw⟩ := Outcome.bind_eq_ok.mp hdraw
  have hnumber : selectedAfter? before = some a.number := by
    rw [← h.selected]
    exact (State.number_of_current? (State.current?_of_require ha)).1
  have hcount : (before ++ [Block.flash target]).countP Block.isFlash = d.flashes + 1 := by
    rw [List.countP_append, h.flashes]
    rfl
  have hflashed : flashedNumbers (before ++ [.flash target]) =
      flashedNumbers before ++ [a.number] := by
    rw [flashedNumbers_append]
    exact congrArg (flashedNumbers before ++ Option.toList ·) hnumber
  have huses := h.uses
  cases hstamp : d.stamp? a.number with
  | some stamp =>
    have hold : a.number ∈ flashedNumbers before := by
      by_contra hnew
      rw [h.stamp?_eq_none.mpr hnew] at hstamp
      cases hstamp
    rw [Drawing.flash_of_stamp? _ _ _ _ _ _ hstamp] at hdraw
    cases hdraw
    refine ⟨h.selected_after _, h.distinct, fun number => ?_, h.renders, hcount.symm, ?_⟩
    · rw [hflashed, List.mem_append, List.mem_singleton, ← h.numbers]
      exact ⟨.inl, fun hmem => hmem.elim id fun heq => heq ▸ (h.numbers _).mpr hold⟩
    · change d.reuses + 1 + d.renders = d.flashes + 1
      omega
  | none =>
    rw [Drawing.flash_of_stamp?_eq_none _ _ _ _ _ _ hstamp] at hdraw
    cases hmade : Stamp.ofAperture a options.scale s.units.scale with
    | error fault =>
      rw [hmade] at hdraw
      cases hdraw
    | ok stamp =>
      rw [hmade] at hdraw
      cases hdraw
      have hnew : a.number ∉ d.stamps.map (·.number) := by
        rw [h.numbers]
        exact h.stamp?_eq_none.mp hstamp
      have hstamps : (d.stamps ++ [stamp]).map (·.number) =
          d.stamps.map (·.number) ++ [a.number] := by
        rw [List.map_append, ← Stamp.number_of_ofAperture hmade]
        rfl
      refine ⟨h.selected_after _, ?_, fun number => ?_, ?_, hcount.symm, ?_⟩
      · change ((d.stamps ++ [stamp]).map (·.number)).Nodup
        rw [hstamps, ← List.concat_eq_append]
        exact h.distinct.concat hnew
      · change number ∈ (d.stamps ++ [stamp]).map (·.number) ↔ _
        rw [hstamps, hflashed, List.mem_append, List.mem_append, h.numbers]
      · change d.renders + 1 = (d.stamps ++ [stamp]).length
        rw [List.length_append, List.length_singleton, h.renders]
      · change d.reuses + (d.renders + 1) = d.flashes + 1
        omega

theorem step (h : Counted before s d) {b : Block α}
    (hdraw : b.draw options frame line s d = .ok next) :
    Counted (before ++ [b]) (s.after b) next := by
  cases hflash : b.isFlash with
  | true =>
    cases b with
    | flash target => exact h.flash hdraw
    | _ => cases hflash
  | false =>
    obtain ⟨hstamps, hrenders, hflashes, hreuses⟩ := Block.draw_uncounted hflash hdraw
    refine ⟨h.selected_after b, by rw [hstamps]; exact h.distinct, fun number => ?_, ?_, ?_, ?_⟩
    · rw [hstamps, h.numbers, flashedNumbers_append, Block.flashed?, hflash]
      simp
    · rw [hrenders, hstamps, h.renders]
    · rw [hflashes, h.flashes, List.countP_append]
      simp [hflash]
    · rw [hreuses, hrenders, hflashes, h.uses]

end Counted

/-- What a complete drawing counts. -/
theorem Document.counted_of_draw {d : Document α} {options : PictureOptions α} {frame : Frame α}
    {drawing : Drawing α} (h : d.draw options frame = (drawing, .ok ())) :
    ∃ s, Counted (d.blocks.map Located.value) s drawing := by
  obtain ⟨s, hdraw, -⟩ := draw_eq_ok.mp h
  exact ⟨s, drawTo_keeps (P := Counted) (.start d.apertures)
    (fun _ _ _ _ _ hcounted _ hb => hcounted.step hb) hdraw⟩

end Gerber

/-! ## Pictures and their stamps -/

theorem Path.join_injective (directory : List Char) : Function.Injective (Path.join directory) := by
  intro first second h
  unfold Path.join at h
  split at h
  · exact h
  · exact List.append_cancel_left h
  · exact (List.cons.inj (List.append_cancel_left h)).2

namespace Running

/-- Stamps of different numbers have different files. -/
theorem stampPath_injective (directory : String) : Function.Injective (stampPath directory) := by
  intro first second h
  have hname := Path.join_injective _ (String.ofList_injective h)
  simp only [String.toList_append, List.append_cancel_left_eq, List.append_cancel_right_eq] at hname
  refine Decimal.eq_of_toDigits ?_
  change Nat.toDigits 10 first = Nat.toDigits 10 second
  simpa using hname

variable {α : Type} [Numeral α]

open Gerber Recorded

/-- What a picture writes: one file for each of its stamps, if there is a directory for them. -/
def stampFiles (stampDirectory : Option String) (stamps : List (Stamp α)) : Record :=
  match stampDirectory with
  | none => []
  | some directory => stamps.map fun s => (stampPath directory s.number, stampBytes s)

theorem outputStamps_records (directory : String) (stamps : List (Stamp α)) :
    TaskRecords (fun _ new => new = stampFiles (some directory) stamps)
      (outputStamps directory stamps) (outputStamps directory stamps) := by
  have h := TaskRecords.forM
    (fun s : Stamp α => TaskRecords.outputPicture (stampPath directory s.number) (stampBytes s))
    stamps
  refine h.mono fun result new hnew value hvalue => ?_
  rw [hnew value hvalue]
  exact (List.map_eq_flatMap ..).symm

theorem surface_records (box : Box α) (stampDirectory : Option String)
    (options : PictureOptions α) :
    TaskRecords (fun _ new => new = []) (surface box stampDirectory options)
      (surface box stampDirectory options) := by
  refine TaskRecords.bind (.ofFault _) ?_
  rintro made new ⟨-, rfl⟩
  have hmade : TaskRecords (fun _ new => new = [])
      (stampDirectory.forM makeDirectory : Running (Recorded (StateM FileTree)) Unit)
      (stampDirectory.forM makeDirectory) := by
    cases stampDirectory with
    | none => exact .pure rfl
    | some directory => exact .makeDirectory directory
  refine TaskRecords.bind hmade ?_
  rintro _ new rfl
  exact .pure rfl

/-- A picture that is made comes of a complete drawing, and files of its stamps are all that is
written. -/
theorem picture_records (document : Document α) (stampDirectory : Option String)
    (options : PictureOptions α) :
    TaskRecords
      (fun p new => (∃ frame, document.draw options frame = (p.drawing, .ok ())) ∧
        new = stampFiles stampDirectory p.drawing.stamps)
      (picture document stampDirectory options) (picture document stampDirectory options) := by
  refine TaskRecords.bind (.ofFault _) ?_
  rintro bounds new ⟨-, rfl⟩
  refine TaskRecords.bind (surface_records bounds stampDirectory options) ?_
  rintro surface new rfl
  rcases hdraw : document.draw options surface.frame with ⟨drawing, ending⟩
  have hwritten : TaskRecords (fun _ new => new = stampFiles stampDirectory drawing.stamps)
      (stampDirectory.forM fun directory => outputStamps directory drawing.stamps :
        Running (Recorded (StateM FileTree)) Unit)
      (stampDirectory.forM fun directory => outputStamps directory drawing.stamps) := by
    cases stampDirectory with
    | none => exact .pure rfl
    | some directory => exact outputStamps_records directory drawing.stamps
  refine TaskRecords.bind hwritten ?_
  rintro _ new rfl
  refine TaskRecords.bind (.ofFault ending) ?_
  rintro _ new ⟨rfl, rfl⟩
  exact .pure ⟨⟨surface.frame, hdraw⟩, by simp⟩

/-- A picture counts the flashes of its document, and makes one stamp for each of the apertures
that are selected at some flash. With a directory for stamps one file is written for each of these,
and no other; without one no file is written. -/
theorem picture_counts (document : Document α) (stampDirectory : Option String)
    (options : PictureOptions α) {tree after : FileTree} {p : Picture α}
    (h : (picture document stampDirectory options : Running (StateM FileTree) _).run.run tree =
      (.ok p, after)) :
    let blocks := document.blocks.map Located.value
    ∃ (numbers : Finset Nat) (written : Record),
      (∀ number, number ∈ numbers ↔ ∃ before target rest,
        blocks = before ++ .flash target :: rest ∧ selectedAfter? before = some number) ∧
      p.drawing.flashes = blocks.countP Block.isFlash ∧
      p.renders = numbers.card ∧
      p.renders ≤ p.drawing.flashes ∧ p.drawing.reuses = p.drawing.flashes - p.renders ∧
      ((picture document stampDirectory options :
          Running (Recorded (StateM FileTree)) _).run.run []).run tree =
        ((.ok p, written), after) ∧
      match stampDirectory with
      | none => written = []
      | some directory =>
        (∀ number ∈ numbers, (written.map Prod.fst).count (stampPath directory number) = 1) ∧
        ∀ path ∈ written.map Prod.fst, ∃ number ∈ numbers, path = stampPath directory number := by
  intro blocks
  obtain ⟨result, written, later, hrecorded, hplain, hwritten⟩ :=
    picture_records document stampDirectory options [] tree
  cases hplain.symm.trans h
  obtain ⟨⟨frame, hdraw⟩, rfl⟩ := hwritten p rfl
  obtain ⟨s, hcounted⟩ := Document.counted_of_draw hdraw
  have huses := hcounted.uses
  refine ⟨(p.drawing.stamps.map (·.number)).toFinset, _, fun number => ?_, hcounted.flashes, ?_,
    ?_, ?_, hrecorded, ?_⟩
  · rw [List.mem_toFinset, hcounted.numbers]
    exact mem_flashedNumbers
  · rw [List.toFinset_card_of_nodup hcounted.distinct, List.length_map]
    exact hcounted.renders
  · change p.drawing.renders ≤ _
    omega
  · change _ = _ - p.drawing.renders
    omega
  · cases stampDirectory with
    | none => rfl
    | some directory =>
      have hpaths : (stampFiles (some directory) p.drawing.stamps).map Prod.fst =
          (p.drawing.stamps.map (·.number)).map (stampPath directory) := by
        simp [stampFiles]
      simp only [List.nil_append, hpaths]
      refine ⟨fun number hnumber => ?_, fun path hpath => ?_⟩
      · refine List.count_eq_one_of_mem (hcounted.distinct.map (stampPath_injective directory)) ?_
        exact List.mem_map_of_mem (List.mem_toFinset.mp hnumber)
      · obtain ⟨number, hnumber, rfl⟩ := List.mem_map.mp hpath
        exact ⟨number, List.mem_toFinset.mpr hnumber, rfl⟩

local instance : Analytic ℚ := Gerber.coarse

/-- Three flashes of two apertures, and a third one that is selected only. The stamps of the two
are written. -/
theorem picture_counts_pads :
    let document : Document (Exact ℚ) :=
      { blocks := [⟨1, .select 10⟩, ⟨2, .flash ⟨0.0, 0.0⟩⟩, ⟨3, .select 11⟩,
          ⟨4, .flash ⟨2.0, 0.0⟩⟩, ⟨5, .select 12⟩, ⟨6, .select 10⟩, ⟨7, .flash ⟨4.0, 0.0⟩⟩]
        apertures := ⟨[⟨10, .rectangle 1.0 1.0, none⟩, ⟨11, .rectangle 1.0 0.5, none⟩,
          ⟨12, .rectangle 0.5 0.5, none⟩]⟩ }
    let task : Running (StateM FileTree) _ := picture document (some "stamps") .default
    ∃ p after, task.run.run .empty = (.ok p, after) ∧ p.drawing.flashes = 3 ∧ p.renders = 2 ∧
      p.drawing.reuses = 1 ∧ ∃ written : Record,
        (written.map Prod.fst).count "stamps/aperture-10.png" = 1 ∧
        (written.map Prod.fst).count "stamps/aperture-11.png" = 1 := by
  intro document task
  have hrun : (task.run.run .empty).1.toOption.map (fun p => p.renders) = some 2 := by
    decide +kernel
  obtain ⟨p, hp, hrenders⟩ := Option.map_eq_some_iff.mp hrun
  have htask : task.run.run .empty = (.ok p, (task.run.run .empty).2) :=
    Prod.ext (Outcome.toOption_eq_some_iff.mp hp) rfl
  obtain ⟨numbers, written, hnumbers, hflashes, -, -, hreuses, -, hfiles, -⟩ :=
    picture_counts document (some "stamps") .default htask
  have hthree : p.drawing.flashes = 3 := hflashes
  refine ⟨p, _, htask, hthree, hrenders, by rw [hreuses, hthree, hrenders], written, ?_, ?_⟩
  · exact hfiles 10 ((hnumbers 10).mpr ⟨[.select 10], _, _, rfl, rfl⟩)
  · exact hfiles 11 ((hnumbers 11).mpr
      ⟨[.select 10, .flash ⟨0.0, 0.0⟩, .select 11], _, _, rfl, rfl⟩)

end Running

end BoardMill
