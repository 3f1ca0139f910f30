import BoardMill.Files.Tree
import BoardMill.Proofs.CommandLine.Running
import BoardMill.Proofs.Gerber.Pass

/-! # Agreement of the passes

Bounds and programs refuse the same documents. A document that they accept has a picture
unless it is too large, or the stamps cannot be stored.
-/

namespace BoardMill.Gerber

open Outcome

variable {α : Type} [Numeral α]

/-- Stamps only fail when they are too large. -/
theorem exists_unrenderable_of_flash {d : Drawing α} {a : Aperture α} {scale unitScale : α}
    {polarity : Polarity} {target : Point α} {fault : Fault}
    (h : d.flash a scale unitScale polarity target = .error fault) :
    ∃ reason, fault = .unrenderable reason := by
  unfold Drawing.flash at h
  dsimp only at h
  split at h
  next => cases h
  next =>
    unfold Stamp.ofAperture at h
    dsimp only at h
    split at h
    · cases h
    · cases h
      exact ⟨_, rfl⟩

/-- A ready block can be drawn unless its stamp is too large. -/
theorem exists_unrenderable_of_draw {options : PictureOptions α} {frame : Frame α} {b : Block α}
    {line : Nat} {s : State α} {d : Drawing α} {fault : Fault} (hready : b.ready line s = .ok ())
    (h : b.draw options frame line s d = .error fault) : ∃ reason, fault = .unrenderable reason := by
  cases b with
  | flash target =>
      unfold Block.ready at hready
      unfold Block.draw at h
      cases hrequire : s.require line with
      | error fault =>
          rw [hrequire] at hready
          cases hready
      | ok a =>
          rw [hrequire] at h
          exact exists_unrenderable_of_flash h
  | interpolate mode target center =>
      unfold Block.ready at hready
      unfold Block.draw at h
      cases hregion : s.inRegion with
      | true =>
          rw [hregion] at h
          cases h
      | false =>
          cases hrequire : s.require line with
          | error fault =>
              rw [hregion, hrequire] at hready
              cases hready
          | ok a =>
              rw [hregion, hrequire] at h
              cases h
  | _ => cases h

/-- A document that passes the checks can be drawn unless a stamp is too large. -/
theorem exists_unrenderable_of_drawFrom {options : PictureOptions α} {frame : Frame α}
    {lastLine : Nat} {s : State α} {d : Drawing α} {blocks : List (Located (Block α))} {fault : Fault}
    (hstop : stopFrom? checking lastLine s () blocks = none)
    (h : (drawFrom options frame lastLine s d blocks).2 = .error fault) :
    ∃ reason, fault = .unrenderable reason := by
  -- What was drawn so far has no influence on the checks.
  induction blocks generalizing s d with
  | nil =>
      rw [stopFrom?] at hstop
      change s.finish lastLine = .error fault at h
      rw [h] at hstop
      cases hstop
  | cons b rest ih =>
      rw [stopFrom?, checking] at hstop
      rw [drawFrom] at h
      cases hready : b.value.ready b.line s with
      | error fault =>
          rw [hready] at hstop
          cases hstop
      | ok _ =>
          rw [hready] at hstop
          cases hdraw : b.value.draw options frame b.line s d with
          | error fault =>
              rw [hdraw] at h
              cases h
              exact exists_unrenderable_of_draw hready hdraw
          | ok d =>
              rw [hdraw] at h
              cases hnext : s.apply b with
              | error fault =>
                  rw [hnext] at hstop
                  cases hstop
              | ok next =>
                  rw [hnext] at hstop h
                  exact ih (Option.map_eq_none_iff.mp hstop) h

namespace Document

/-- On a tape with room for everything a document program ends as its pass does. -/
theorem failure?_document (machine : Machine α) (place : Point α → Point α) (title : String)
    (d : Document α) :
    failure? ((GCode.Sink.start machine place none).document d title).1 =
      (d.stop? (moving machine place) false).map Prod.snd := by
  have hending : ((GCode.Sink.start machine place none).document d title).1 =
      (d.body machine place false title).ending :=
    (GCode.Sink.complete_tape _ _).2
  rw [hending]
  exact failure?_runFrom machine place _ _ _ _

/-- A document that has bounds can be drawn unless a stamp is too large. -/
theorem exists_unrenderable_of_draw {d : Document α} {box : Box α} (hbounds : d.bounds = .ok box)
    {options : PictureOptions α} {frame : Frame α} {fault : Fault}
    (h : (d.draw options frame).2 = .error fault) : ∃ reason, fault = .unrenderable reason := by
  have hfailure := failure?_bounds d
  rw [hbounds] at hfailure
  have hstop : d.stop? growing .empty = none := Option.map_eq_none_iff.mp hfailure.symm
  rw [stop?, stopFrom?_growing] at hstop
  exact exists_unrenderable_of_drawFrom hstop h

/-- Surfaces only fail when they are too large. -/
theorem exists_unrenderable_of_surface {box : Box α} {options : PictureOptions α} {fault : Fault}
    (h : Surface.ofBox box options = .error fault) : ∃ reason, fault = .unrenderable reason := by
  unfold Surface.ofBox at h
  split at h
  · cases h
  · cases h
    exact ⟨_, rfl⟩

theorem picture_of_bounds_error {d : Document α} {fault : Fault} (h : d.bounds = .error fault)
    (options : PictureOptions α) : d.picture options = .error fault := by
  rw [picture, h]
  rfl

/-- The picture of a document that has bounds fails only if something is too large. -/
theorem exists_unrenderable_of_picture {d : Document α} {box : Box α} (hbounds : d.bounds = .ok box)
    {options : PictureOptions α} {fault : Fault} (h : d.picture options = .error fault) :
    ∃ reason, fault = .unrenderable reason := by
  rw [picture, hbounds] at h
  cases hsurface : Surface.ofBox box options with
  | error other =>
      obtain ⟨reason, rfl⟩ := exists_unrenderable_of_surface hsurface
      simp only [hsurface, bind, Except.bind] at h
      cases h
      exact ⟨reason, rfl⟩
  | ok surface =>
      cases hdraw : d.draw options surface.frame with
      | mk drawing ending =>
          simp only [hsurface, hdraw, bind, Except.bind] at h
          cases ending with
          | ok _ => cases h
          | error other =>
              cases h
              exact exists_unrenderable_of_draw hbounds (congrArg Prod.snd hdraw)

end Document

end BoardMill.Gerber

namespace BoardMill

open Gerber Outcome

section Stamps

variable {m : Type → Type} [Monad m] [LawfulMonad m] [Files m]
  (stampDirectory : Option String) (options : PictureOptions Float)

theorem Running.picture_of_bounds_error {d : Document Float} {fault : Fault}
    (h : d.bounds = .error fault) :
    (picture d stampDirectory options : Running m (Picture Float)) = throw (.ofFault fault) := by
  rw [picture, h]
  exact ofFault_error_bind fault _

/-- A surface is refused only if it would be too large, or if the directory for stamps cannot be
made. -/
theorem Running.surface_failsOnly {α : Type} [Numeral α] (box : Box α)
    (stampDirectory : Option String) (options : PictureOptions α) :
    FailsOnly (fun failure => ∃ reason, failure = .ofFault (.unrenderable reason) ∨
        failure = .ofFault (.fileAccess reason))
      (surface box stampDirectory options : Running m (Surface α)) := by
  unfold surface
  refine (FailsOnly.ofFault fun fault h => ?_).bind fun surface => ?_
  · obtain ⟨reason, rfl⟩ := Document.exists_unrenderable_of_surface h
    exact ⟨reason, .inl rfl⟩
  refine (FailsOnly.optionForM fun directory => ?_).bind fun _ => .pure _
  exact makeDirectory_failsOnly directory fun reason => ⟨reason, .inr rfl⟩

/-- The picture of a document that has bounds fails only if something is too large, or if a
stamp or the directory for it cannot be stored. -/
theorem Running.picture_failsOnly {d : Document Float} {box : Box Float}
    (hbounds : d.bounds = .ok box) :
    FailsOnly (fun failure => ∃ reason, failure = .ofFault (.unrenderable reason) ∨
        failure = .ofFault (.fileAccess reason))
      (picture d stampDirectory options : Running m (Picture Float)) := by
  unfold picture
  rw [hbounds]
  refine (FailsOnly.ofFault nofun).bind fun bounds => ?_
  refine (surface_failsOnly bounds stampDirectory options).bind fun surface => ?_
  refine (FailsOnly.optionForM fun directory => FailsOnly.forM fun stamp => ?_).bind fun _ => ?_
  · exact outputPicture_failsOnly _ _ fun reason => ⟨reason, .inl rfl⟩
  refine (FailsOnly.ofFault fun fault h => ?_).bind fun _ => .pure _
  obtain ⟨reason, rfl⟩ := Document.exists_unrenderable_of_draw hbounds h
  exact ⟨reason, .inl rfl⟩

end Stamps

/-- Bounds, programs on a tape with room for everything, and pictures refuse the same
documents with the same fault, at the same block. A picture can be refused otherwise only
because something is too large or cannot be stored. Carrying out the blocks alone stops at
the same block, too, and for the same reason unless that is a flash inside a region with no
aperture selected. -/
theorem Gerber.Document.passes_agree {m : Type → Type} [Monad m] [LawfulMonad m] [Files m]
    (d : Document Float) (machine : Machine Float) (place : Point Float → Point Float)
    (title : String) (options : PictureOptions Float) (stampDirectory : Option String) :
    let program := ((GCode.Sink.start machine place none).document d title).1
    let alone := d.blocks.foldlM State.apply (.start d.apertures) >>= fun s => s.finish d.lastLine
    let stop := d.stop? growing .empty
    let stopAlone := d.stop? trusting ()
    (∀ fault, d.bounds = .error fault ↔ program = .error fault) ∧
    failure? d.bounds = stop.map Prod.snd ∧
    failure? program = (d.stop? (moving machine place) false).map Prod.snd ∧
    d.stop? (moving machine place) false = stop ∧
    (∀ fault, d.bounds = .error fault →
      d.picture options = .error fault ∧
        (Running.picture d stampDirectory options : Running m (Picture Float)) =
          throw (.ofFault fault)) ∧
    (∀ box, d.bounds = .ok box →
      (∀ fault, d.picture options = .error fault → ∃ reason, fault = .unrenderable reason) ∧
        Running.FailsOnly
          (fun failure => ∃ reason, failure = .ofFault (.unrenderable reason) ∨
            failure = .ofFault (.fileAccess reason))
          (Running.picture d stampDirectory options : Running m (Picture Float))) ∧
    failure? alone = stopAlone.map Prod.snd ∧
    Option.Rel
      (fun passed carried => passed.1 = carried.1 ∧
        (passed.2 = carried.2 ∨
          BareFlash (.start d.apertures) d.blocks passed.1 passed.2 carried.2))
      stop stopAlone := by
  intro program alone stop stopAlone
  have hbounds : failure? d.bounds = stop.map Prod.snd := d.failure?_bounds
  have hprogram := d.failure?_document machine place title
  have hstop : d.stop? (moving machine place) false = stop := by
    change stopFrom? _ _ _ _ _ = stopFrom? _ _ _ _ _
    rw [stopFrom?_moving, stopFrom?_growing]
  refine ⟨fun fault => ?_, hbounds, hprogram, hstop, fun fault h => ?_, fun box h => ?_,
    failure?_foldlM_apply _ _ _, ?_⟩
  · rw [← failure?_eq_some, ← failure?_eq_some, hbounds, hprogram, hstop]
  · exact ⟨picture_of_bounds_error h options,
      Running.picture_of_bounds_error stampDirectory options h⟩
  · exact ⟨fun fault => exists_unrenderable_of_picture h,
      Running.picture_failsOnly stampDirectory options h⟩
  · change Option.Rel _ (stopFrom? growing _ _ _ _) (stopFrom? trusting _ _ _ _)
    rw [stopFrom?_growing]
    exact stopFrom?_checking_trusting _ _ _

/-- A flash inside a region with no aperture selected is refused for its aperture by the
passes and for its region when it is carried out alone. -/
theorem Gerber.Document.passes_agree_bareFlash :
    let d : Document Float := ⟨[⟨1, .regionStart⟩, ⟨2, .flash ⟨0.0, 0.0⟩⟩], .empty⟩
    LawfulMonad (StateM FileTree) ∧
      (d.bounds = .error (.noApertureSelected 2) ↔
        ((GCode.Sink.start (.default : Machine Float) id none).document d "job").1 =
          .error (.noApertureSelected 2)) ∧
      d.stop? growing .empty = some (1, .noApertureSelected 2) ∧
      d.stop? trusting () = some (1, .invalidRegion 2 "flash inside a region") := by
  intro d
  have hagree := Gerber.Document.passes_agree (m := StateM FileTree) d .default id "job" .default none
  exact ⟨inferInstance, hagree.1 _, rfl, rfl⟩

end BoardMill
