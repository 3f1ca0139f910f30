import BoardMill.Picture
import BoardMill.Proofs.GCode.Writing
import BoardMill.Proofs.Gerber.Ready
import BoardMill.Proofs.Outcome

/-! # Passes over a document

Bounds, programs and pictures come from passes of one shape: every block is looked at and
then carried out, and in the end the state is checked. Two passes that refuse the same
blocks in the same states stop at the same block with the same fault, whatever else they
compute.
-/

namespace BoardMill.Gerber

open Outcome

variable {α : Type} {σ τ : Type}

/-- What a pass makes of a block, given the state before it. -/
abbrev Look (α σ : Type) := σ → Located (Block α) → State α → Except Fault σ

variable [Scalar α]

/-- Where a pass stops and why, if it does not come through: at a block, counted from zero on,
or behind all of them. -/
def stopFrom? (look : Look α σ) (lastLine : Nat) (s : State α) (x : σ) :
    List (Located (Block α)) → Option (Nat × Fault)
  | [] => (failure? (s.finish lastLine)).map (0, ·)
  | b :: rest =>
    match look x b s with
    | .error fault => some (0, fault)
    | .ok x =>
      match s.apply b with
      | .error fault => some (0, fault)
      | .ok s => (stopFrom? look lastLine s x rest).map fun (count, fault) => (count + 1, fault)

/-- Where a pass over a document stops and why. -/
def Document.stop? (look : Look α σ) (x : σ) (d : Document α) : Option (Nat × Fault) :=
  stopFrom? look d.lastLine (.start d.apertures) x d.blocks

omit [Scalar α] in
/-- Passes that refuse the same blocks stop at the same block with the same fault. -/
theorem stopFrom?_congr {look : Look α σ} {other : Look α τ}
    (hlook : ∀ x y b s, failure? (look x b s) = failure? (other y b s)) (lastLine : Nat)
    (s : State α) (x : σ) (y : τ) (blocks : List (Located (Block α))) :
    stopFrom? look lastLine s x blocks = stopFrom? other lastLine s y blocks := by
  induction blocks generalizing s x y with
  | nil => rfl
  | cons b rest ih =>
      -- What the looks compute may differ, only their failures are compared.
      have hfailure := hlook x y b s
      unfold stopFrom?
      cases hx : look x b s with
      | error fault =>
          rw [hx, failure?_error, eq_comm, failure?_eq_some] at hfailure
          rw [hfailure]
      | ok x =>
          cases hy : other y b s with
          | error fault =>
              rw [hx, hy] at hfailure
              cases hfailure
          | ok y =>
              cases s.apply b with
              | error fault => rfl
              | ok s =>
                  dsimp only
                  rw [ih s x y]

/-! ## The passes -/

/-- A look that only checks. -/
def checking : Look α Unit := fun _ b s => b.value.ready b.line s

/-- A look that takes every block as it is. -/
def trusting : Look α Unit := fun _ _ _ => .ok ()

def growing : Look α (Box α) := fun box b s => b.value.grow b.line s box

def moving (machine : Machine α) (place : Point α → Point α) : Look α Bool :=
  fun engaged b s =>
    (b.value.commands machine place engaged b.line s).map (GCode.engagedAfter engaged)

theorem failure?_growFrom (lastLine : Nat) (s : State α) (box : Box α)
    (blocks : List (Located (Block α))) :
    failure? (Document.growFrom lastLine s box blocks) =
      (stopFrom? growing lastLine s box blocks).map Prod.snd := by
  induction blocks generalizing s box with
  | nil =>
      rw [Document.growFrom, stopFrom?]
      cases s.finish lastLine <;> rfl
  | cons b rest ih =>
      rw [Document.growFrom, stopFrom?, growing]
      cases b.value.grow b.line s box with
      | error fault => rfl
      | ok box =>
          cases s.apply b with
          | error fault => rfl
          | ok s =>
              dsimp only
              rw [Option.map_map]
              exact ih s box

theorem failure?_runFrom (machine : Machine α) (place : Point α → Point α) (lastLine : Nat)
    (engaged : Bool) (s : State α) (blocks : List (Located (Block α))) :
    failure? (Document.runFrom machine place lastLine engaged s blocks).ending =
      (stopFrom? (moving machine place) lastLine s engaged blocks).map Prod.snd := by
  induction blocks generalizing s engaged with
  | nil =>
      rw [Document.runFrom, stopFrom?]
      cases s.finish lastLine <;> rfl
  | cons b rest ih =>
      rw [Document.runFrom, stopFrom?, moving]
      cases b.value.commands machine place engaged b.line s with
      | error fault => rfl
      | ok commands =>
          dsimp only [Except.map]
          cases s.apply b with
          | error fault => rfl
          | ok s =>
              dsimp only
              rw [Option.map_map]
              exact ih (GCode.engagedAfter engaged commands) s

omit [Scalar α] in
/-- Carrying out the blocks alone fails as the trusting pass does. -/
theorem failure?_foldlM_apply (lastLine : Nat) (s : State α) (blocks : List (Located (Block α))) :
    failure? (blocks.foldlM State.apply s >>= fun s => s.finish lastLine) =
      (stopFrom? trusting lastLine s () blocks).map Prod.snd := by
  induction blocks generalizing s with
  | nil =>
      rw [stopFrom?, Option.map_map]
      exact (congrFun Option.map_id (failure? (s.finish lastLine))).symm
  | cons b rest ih =>
      rw [stopFrom?, trusting, List.foldlM_cons]
      cases s.apply b with
      | error fault => rfl
      | ok s =>
          dsimp only
          rw [Option.map_map]
          exact ih s

theorem stopFrom?_growing (lastLine : Nat) (s : State α) (box : Box α)
    (blocks : List (Located (Block α))) :
    stopFrom? growing lastLine s box blocks = stopFrom? checking lastLine s () blocks := by
  apply stopFrom?_congr
  intro box _ b s
  rw [growing, Block.grow_eq, failure?_map, checking]

theorem stopFrom?_moving (machine : Machine α) (place : Point α → Point α) (lastLine : Nat)
    (engaged : Bool) (s : State α) (blocks : List (Located (Block α))) :
    stopFrom? (moving machine place) lastLine s engaged blocks =
      stopFrom? checking lastLine s () blocks := by
  apply stopFrom?_congr
  intro engaged _ b s
  rw [moving, Block.commands_eq, failure?_map, failure?_map, checking]

namespace Document

theorem failure?_bounds (d : Document α) :
    failure? d.bounds = (d.stop? growing .empty).map Prod.snd :=
  failure?_growFrom _ _ _ _

/-- The run of a document fails as its bounds do. -/
theorem failure?_body (machine : Machine α) (place : Point α → Point α) (engaged : Bool)
    (title : String) (d : Document α) :
    failure? (d.body machine place engaged title).ending = failure? d.bounds := by
  have hrun := failure?_runFrom machine place d.lastLine engaged (.start d.apertures) d.blocks
  rw [stopFrom?_moving] at hrun
  rw [failure?_bounds, stop?, stopFrom?_growing]
  exact hrun

/-- The run of a document that has bounds ends well. -/
theorem ending_of_bounds {d : Document α} {box : Box α} (h : d.bounds = .ok box)
    (machine : Machine α) (place : Point α → Point α) (engaged : Bool) (title : String) :
    (d.body machine place engaged title).ending = .ok () := by
  rw [← failure?_eq_none, failure?_body, h]
  rfl

end Document

/-! ## Carrying out blocks unseen -/

/-- A block of some blocks is a flash inside a region with no aperture selected, in the state
that the blocks before it lead to. The two faults are for its aperture and its region. -/
structure BareFlash (s : State α) (blocks : List (Located (Block α))) (count : Nat)
    (forAperture forRegion : Fault) : Prop where
  is_flash : ∃ line target, blocks[count]? = some ⟨line, .flash target⟩ ∧
    forAperture = .noApertureSelected line ∧
    forRegion = .invalidRegion line "flash inside a region"
  is_bare : ∃ s', (blocks.take count).foldlM State.apply s = .ok s' ∧
    s'.inRegion = true ∧ s'.current? = none

omit [Scalar α] in
theorem BareFlash.cons {s next : State α} {b : Located (Block α)}
    {blocks : List (Located (Block α))} {count : Nat} {forAperture forRegion : Fault}
    (h : BareFlash next blocks count forAperture forRegion) (hnext : s.apply b = .ok next) :
    BareFlash s (b :: blocks) (count + 1) forAperture forRegion where
  is_flash := h.is_flash
  is_bare := by
    obtain ⟨s', hs', hbare⟩ := h.is_bare
    refine ⟨s', ?_, hbare⟩
    rw [List.take_succ_cons, List.foldlM_cons, hnext]
    exact hs'

omit [Scalar α] in
/-- A block that is not ready is refused when it is carried out. A flash may be refused for
its region instead of its aperture. -/
theorem apply_of_not_ready {s : State α} {b : Located (Block α)} {fault : Fault}
    (h : b.value.ready b.line s = .error fault) (rest : List (Located (Block α))) :
    ∃ other, s.apply b = .error other ∧
      (fault = other ∨ BareFlash s (b :: rest) 0 fault other) := by
  obtain ⟨line, b⟩ := b
  rcases b.ready_cases line s with hready | ⟨hready, hcurrent⟩
  · rw [hready] at h
    cases h
  · have hrequire := State.require_of_no_current hcurrent line
    rw [hready] at h
    cases h
    cases b with
    | flash target =>
        -- Carrying out a flash looks at the region first, the passes look at the aperture.
        by_cases hregion : s.inRegion = true
        · refine ⟨.invalidRegion line "flash inside a region", ?_, .inr ?_⟩
          · rw [State.apply]
            simp only [hregion]
            rfl
          · exact ⟨⟨line, target, rfl, rfl, rfl⟩, ⟨s, rfl, hregion, hcurrent⟩⟩
        · refine ⟨.noApertureSelected line, ?_, .inl rfl⟩
          rw [State.apply]
          simp only [hregion, hrequire]
          rfl
    | interpolate mode target center =>
        by_cases hregion : s.inRegion = true
        · rw [Block.ready, if_pos hregion] at hready
          cases hready
        · refine ⟨.noApertureSelected line, ?_, .inl rfl⟩
          rw [State.apply]
          simp only [hregion, hrequire]
          rfl
    | _ => cases hready

omit [Scalar α] in
/-- Checking passes stop where carrying out the blocks alone does, and for the same reason
unless that is a flash inside a region with no aperture selected. -/
theorem stopFrom?_checking_trusting (lastLine : Nat) (s : State α)
    (blocks : List (Located (Block α))) :
    Option.Rel (fun checked trusted => checked.1 = trusted.1 ∧
        (checked.2 = trusted.2 ∨ BareFlash s blocks checked.1 checked.2 trusted.2))
      (stopFrom? checking lastLine s () blocks) (stopFrom? trusting lastLine s () blocks) := by
  induction blocks generalizing s with
  | nil =>
      rw [stopFrom?, stopFrom?]
      cases s.finish lastLine with
      | ok _ => exact .none
      | error fault => exact .some ⟨rfl, .inl rfl⟩
  | cons b rest ih =>
      rw [stopFrom?, stopFrom?, checking, trusting]
      cases hready : b.value.ready b.line s with
      | error fault =>
          obtain ⟨other, hother, hfault⟩ := apply_of_not_ready hready rest
          rw [hother]
          exact .some ⟨rfl, hfault⟩
      | ok _ =>
          dsimp only
          cases hnext : s.apply b with
          | error fault => exact .some ⟨rfl, .inl rfl⟩
          | ok next =>
              dsimp only
              have hrest := ih next
              revert hrest
              cases stopFrom? checking lastLine next () rest <;>
                cases stopFrom? trusting lastLine next () rest
              · exact fun _ => .none
              · exact nofun
              · exact nofun
              · rintro ⟨hcount, hfault⟩
                exact .some ⟨congrArg (· + 1) hcount, hfault.imp id fun h => h.cons hnext⟩

end BoardMill.Gerber
