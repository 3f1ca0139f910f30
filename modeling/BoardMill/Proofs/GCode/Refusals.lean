import BoardMill.Proofs.GCode.Reuse

/-! # What a refused block leaves

A block is turned into commands before it is carried out. If it is refused on that, its commands are
already written. A missing aperture is noticed in time, but what does not fit the regions is not: a
flash inside of one is milled, and a start or an end that is out of place leaves its comment.
-/

namespace BoardMill.Gerber

open GCode

variable {α : Type} [Scalar α] (machine : Machine α) (place : Point α → Point α)

/-- Why a block is refused in a state, and the commands that it was turned into before. -/
inductive Block.Refused (engaged : Bool) (s : State α) :
    Located (Block α) → Fault → List (Command α) → Prop
  | unknown {line number : Nat} (h : s.apertures.get? number = none) :
    Refused engaged s ⟨line, .select number⟩ (.unknownAperture number line) []
  | bareFlash {line : Nat} {target : Point α} (h : s.current? = none) :
    Refused engaged s ⟨line, .flash target⟩ (.noApertureSelected line) []
  | bareStroke {line : Nat} {mode : Interpolation} {target : Point α} {center : Option (Point α)}
    (houtside : s.inRegion = false) (h : s.current? = none) :
    Refused engaged s ⟨line, .interpolate mode target center⟩ (.noApertureSelected line) []
  | flashInside {line : Nat} {target : Point α} (hinside : s.inRegion = true)
    (h : s.current?.isSome) :
    Refused engaged s ⟨line, .flash target⟩ (.invalidRegion line "flash inside a region")
      ((Motion.stamp (s.pointToMm target)).commands machine place engaged)
  | startInside {line : Nat} (h : s.inRegion = true) :
    Refused engaged s ⟨line, .regionStart⟩ (.invalidRegion line "G36 inside a region")
      [.comment .regionStart]
  | endOutside {line : Nat} (h : s.inRegion = false) :
    Refused engaged s ⟨line, .regionEnd⟩ (.invalidRegion line "G37 without G36")
      [.comment .regionEnd]

variable {machine place} {engaged : Bool} {s : State α} {b : Located (Block α)} {fault : Fault}
  {left : List (Command α)}

/-- Nothing is left behind unless the block does not fit the regions. -/
theorem Block.Refused.left_eq_nil_iff (h : Refused machine place engaged s b fault left) :
    left = [] ↔ ∀ reason, fault ≠ .invalidRegion b.line reason := by
  cases h with
  | unknown | bareFlash | bareStroke =>
      refine iff_of_true rfl fun reason hfault => ?_
      cases hfault
  | flashInside => exact iff_of_false (by simp [Motion.commands]) fun h => h _ rfl
  | startInside | endOutside =>
      exact iff_of_false (List.cons_ne_nil _ _) fun h => h _ rfl

/-- A block that cannot be turned into commands has left none. -/
theorem Block.refused_of_commands
    (h : b.value.commands machine place engaged b.line s = .error fault) :
    Refused machine place engaged s b fault [] := by
  obtain ⟨line, b⟩ := b
  rw [commands_eq] at h
  rcases b.ready_cases line s with hready | ⟨hready, hcurrent⟩
  · rw [hready] at h
    cases h
  · rw [hready] at h
    cases h
    cases b with
    | flash target => exact .bareFlash hcurrent
    | interpolate mode target center =>
        cases hregion : s.inRegion with
        | true =>
            rw [ready, if_pos hregion] at hready
            cases hready
        | false => exact .bareStroke hregion hcurrent
    | _ => cases hready

theorem Block.ready_of_commands {b : Block α} {line : Nat}
    (h : b.commands machine place engaged line s = .ok left) :
    b.ready line s = .ok () ∧
      left = ((b.goal? s).map (·.commands machine place engaged)).getD [] := by
  rw [commands_eq] at h
  rcases b.ready_cases line s with hready | ⟨hready, -⟩
  · rw [hready] at h
    exact ⟨hready, (Except.ok.inj h).symm⟩
  · rw [hready] at h
    cases h

omit [Scalar α] in
theorem Block.isSome_current?_of_ready {line : Nat} {target : Point α}
    (h : (flash target).ready line s = .ok ()) : s.current?.isSome := by
  by_contra hnone
  rw [ready, State.require_of_no_current (Option.not_isSome_iff_eq_none.mp hnone)] at h
  cases h

omit [Scalar α] in
theorem Block.admitted_of_ready {line : Nat} {mode : Interpolation} {target : Point α}
    {center : Option (Point α)} (h : (interpolate mode target center).ready line s = .ok ()) :
    (interpolate mode target center).Admitted s := by
  by_contra hneither
  obtain ⟨hregion, hnone⟩ := not_or.mp hneither
  rw [ready, if_neg hregion,
    State.require_of_no_current (Option.not_isSome_iff_eq_none.mp hnone)] at h
  cases h

/-- A block that is turned into commands, but not carried out, leaves these. -/
theorem Block.refused_of_apply
    (hcommands : b.value.commands machine place engaged b.line s = .ok left)
    (h : s.apply b = .error fault) : Refused machine place engaged s b fault left := by
  have hnot : ¬ b.value.Admitted s := by
    intro hadmitted
    rw [State.apply_eq_ok_iff.mpr ⟨hadmitted, rfl⟩] at h
    cases h
  obtain ⟨line, b⟩ := b
  obtain ⟨hready, rfl⟩ := ready_of_commands hcommands
  unfold State.apply at h
  cases b with
  | select number =>
      have hget : s.apertures.get? number = none := Option.not_isSome_iff_eq_none.mp hnot
      simp only [hget] at h
      cases h
      simp only [goal?, hget, Option.map_none, Option.getD_none]
      exact .unknown hget
  | flash target =>
      have hcurrent := isSome_current?_of_ready hready
      have hregion : s.inRegion = true := by
        by_contra houtside
        exact hnot ⟨Bool.eq_false_iff.mpr houtside, hcurrent⟩
      simp only [hregion] at h
      cases h
      exact .flashInside hregion hcurrent
  | interpolate mode target center => exact absurd (admitted_of_ready hready) hnot
  | regionStart =>
      have hregion : s.inRegion = true := Bool.of_not_eq_false hnot
      simp only [hregion] at h
      cases h
      exact .startInside hregion
  | regionEnd =>
      have hregion : s.inRegion = false := Bool.of_not_eq_true hnot
      simp only [hregion] at h
      cases h
      exact .endOutside hregion
  | _ => exact absurd trivial hnot

namespace Document

theorem runFrom_commands_lastLine (lastLine otherLine : Nat) (blocks : List (Located (Block α))) :
    (runFrom machine place lastLine engaged s blocks).commands =
      (runFrom machine place otherLine engaged s blocks).commands := by
  induction blocks generalizing engaged s with
  | nil => rfl
  | cons b rest ih =>
      rw [runFrom, runFrom]
      cases b.value.commands machine place engaged b.line s with
      | error fault => rfl
      | ok commands =>
          cases s.apply b with
          | error fault => rfl
          | ok next => exact congrArg (commands ++ ·) ih

/-- A run goes on behind a block that is carried out. -/
theorem runFrom_cons {next : State α} {commands : List (Command α)}
    (hcommands : b.value.commands machine place engaged b.line s = .ok commands)
    (hnext : s.apply b = .ok next) (lastLine : Nat) (rest : List (Located (Block α))) :
    let later := runFrom machine place lastLine (engagedAfter engaged commands) next rest
    runFrom machine place lastLine engaged s (b :: rest) =
      ⟨commands ++ later.commands, later.ending⟩ := by
  simp only [runFrom, hcommands, hnext]
  rfl

/-- A run that fails has written the commands of the blocks that were carried out, and what the
refused one left behind. Without one, a region was left open. -/
theorem exists_refused_of_runFrom {lastLine : Nat} {blocks : List (Located (Block α))}
    (h : (runFrom machine place lastLine engaged s blocks).ending = .error fault) :
    (∃ before b after middle left, blocks = before ++ b :: after ∧
      before.foldlM State.apply s = .ok middle ∧
      let commands := (runFrom machine place lastLine engaged s before).commands
      Block.Refused machine place (engagedAfter engaged commands) middle b fault left ∧
      (runFrom machine place lastLine engaged s blocks).commands = commands ++ left) ∨
    ∃ last, blocks.foldlM State.apply s = .ok last ∧ last.finish lastLine = .error fault := by
  induction blocks generalizing engaged s with
  | nil => exact .inr ⟨s, rfl, h⟩
  | cons b rest ih =>
      cases hcommands : b.value.commands machine place engaged b.line s with
      | error other =>
          simp only [runFrom, hcommands] at h ⊢
          cases h
          exact .inl ⟨[], b, rest, s, [], rfl, rfl, Block.refused_of_commands hcommands, rfl⟩
      | ok commands =>
          cases hnext : s.apply b with
          | error other =>
              simp only [runFrom, hcommands, hnext] at h ⊢
              cases h
              exact .inl ⟨[], b, rest, s, commands, rfl, rfl,
                Block.refused_of_apply hcommands hnext, rfl⟩
          | ok next =>
              rw [runFrom_cons hcommands hnext] at h ⊢
              rcases ih h with ⟨before, refused, after, middle, left, rfl, hmiddle, hrefused, hrest⟩ |
                ⟨last, hlast, hfinish⟩
              · refine .inl ⟨b :: before, refused, after, middle, left, rfl, ?_, ?_, ?_⟩
                · rw [List.foldlM_cons, hnext]
                  exact hmiddle
                · rwa [runFrom_cons hcommands hnext, engagedAfter_append]
                · rw [runFrom_cons hcommands hnext, hrest, List.append_assoc]
              · refine .inr ⟨last, ?_, hfinish⟩
                rw [List.foldlM_cons, hnext]
                exact hlast

end Document

end BoardMill.Gerber

namespace BoardMill.GCode.Sink

open Gerber (Block Document Located State)

variable {α : Type} [Numeral α] (machine : Machine α) (place : Point α → Point α)

/-- A program that fails at a block consists of the preamble, the line for the width of the tool,
what the blocks before it write, and what the refused block left behind, which is nothing exactly
if the block was not refused for its region. Otherwise a region is left open at the end, and all
blocks are written. -/
theorem document_keeps_refused (d : Document α) (title : String) {fault : Fault}
    (h : ((start machine place none).document d title).1 = .error fault) :
    let written := ((start machine place none).document d title).2.tape.bytes.toList
    (∃ before b after s left, d.blocks = before ++ b :: after ∧
      before.foldlM State.apply (.start d.apertures) = .ok s ∧
      let accepted := ((⟨before, d.apertures⟩ : Document α).body machine place false title).commands
      Block.Refused machine place (engagedAfter false accepted) s b fault left ∧
      written = programBytes accepted ++ programBytes left ∧
      (written = programBytes accepted ↔ ∀ reason, fault ≠ .invalidRegion b.line reason)) ∨
    ∃ last, d.blocks.foldlM State.apply (.start d.apertures) = .ok last ∧
      last.finish d.lastLine = .error fault ∧
      written = programBytes (d.body machine place false title).commands := by
  intro written
  have hending : (d.body machine place false title).ending = .error fault := by
    rw [document, complete_endless rfl] at h
    exact h
  have hwritten : written = programBytes (d.body machine place false title).commands := by
    have hprogram : (d.body machine place false title).program machine =
        (d.body machine place false title).commands := by rw [Run.program, hending]
    rw [← hprogram]
    exact toList_document_endless rfl d title
  rcases Document.exists_refused_of_runFrom hending with
    ⟨before, b, after, s, left, hsplit, hs, hrefused, hcommands⟩ | ⟨last, hlast, hfinish⟩
  · refine .inl ⟨before, b, after, s, left, hsplit, hs, ?_⟩
    intro accepted
    let opening : List (Command α) :=
      preamble machine title ++ [.comment (.toolWidth machine.toolWidth)]
    let cut : Document α := ⟨before, d.apertures⟩
    have haccepted : accepted = opening ++
        (Document.runFrom machine place d.lastLine false (.start d.apertures) before).commands :=
      congrArg (opening ++ ·) (Document.runFrom_commands_lastLine cut.lastLine d.lastLine before)
    have hbody : (d.body machine place false title).commands = accepted ++ left := by
      rw [haccepted, List.append_assoc, ← hcommands]
      rfl
    have hbytes : written = programBytes accepted ++ programBytes left := by
      rw [hwritten, hbody, programBytes_append]
    refine ⟨?_, hbytes, ?_⟩
    · rw [haccepted, engagedAfter_append]
      exact hrefused
    · rw [hbytes, List.append_right_eq_self, ← hrefused.left_eq_nil_iff]
      exact ⟨fun hnil => by_contra fun hne => programBytes_ne_nil hne hnil, fun hnil => hnil ▸ rfl⟩
  · exact .inr ⟨last, hlast, hfinish, hwritten⟩

/-- An aperture that is not there leaves nothing. -/
theorem document_keeps_refused_select :
    let blocks : List (Located (Block Float)) := [⟨1, .move ⟨1.0, 0.0⟩⟩, ⟨2, .select 10⟩]
    let result := (start (.default : Machine Float) id none).document ⟨blocks, .empty⟩ "job"
    let accepted : Document Float := ⟨[⟨1, .move ⟨1.0, 0.0⟩⟩], .empty⟩
    result.1 = .error (.unknownAperture 10 2) ∧
      result.2.tape.bytes.toList = programBytes (accepted.body .default id false "job").commands := by
  intro blocks result accepted
  have hfailed : result.1 = .error (.unknownAperture 10 2) := by
    change ((start (.default : Machine Float) id none).document _ _).1 = _
    rw [document, complete_endless rfl]
    decide +kernel
  refine ⟨hfailed, ?_⟩
  rcases document_keeps_refused .default id ⟨blocks, .empty⟩ "job" hfailed with
    ⟨before, b, after, s, left, hsplit, -, hrefused, -, hwritten⟩ | ⟨last, -, hfinish, -⟩
  · cases hrefused with
    | unknown hget =>
        rcases List.cons_eq_append_iff.mp hsplit with ⟨rfl, hmove⟩ | ⟨front, rfl, hselect⟩
        · cases hmove
        · rcases List.cons_eq_append_iff.mp hselect with ⟨rfl, -⟩ | ⟨_, -, hnone⟩
          · refine hwritten.mpr fun reason hfault => ?_
            cases hfault
          · simp at hnone
  · rw [State.finish] at hfinish
    split at hfinish <;> cases hfinish

/-- A flash inside a region is refused, but milled. -/
theorem document_mills_refused :
    let table : ApertureTable Float := ⟨[⟨10, .circle 0.2, none⟩]⟩
    let accepted : List (Located (Block Float)) := [⟨1, .select 10⟩, ⟨1, .regionStart⟩]
    let blocks : List (Located (Block Float)) :=
      accepted ++ [⟨1, .flash ⟨1.0, 0.0⟩⟩, ⟨1, .regionEnd⟩]
    let text := "; job\nG90 G40 G17 G21\nG00 Z1.0000\n; tool width 0.2000\n" ++
      "; aperture D10 width 0.2000\n; region start\n"
    let left := "G00 Z1.0000\nG00 X1.0000 Y0.0000\nM3 S10\nG01 Z-0.1000 F100\nG00 Z1.0000\nM5\n"
    let result := (start (.default : Machine Float) id none).document ⟨blocks, table⟩ "job"
    result.1 = .error (.invalidRegion 1 "flash inside a region") ∧
      result.2.tape.bytes.toList = Utf8.encode (text ++ left).toList ∧
      programBytes (Document.body .default id false "job" ⟨accepted, table⟩).commands =
        Utf8.encode text.toList := by
  intro table accepted blocks text left result
  refine ⟨?_, ?_, ?_⟩
  · change ((start (.default : Machine Float) id none).document _ _).1 = _
    rw [document, complete_endless rfl]
    decide +kernel
  · change ((start (.default : Machine Float) id none).document _ _).2.tape.bytes.toList = _
    rw [toList_document_endless rfl]
    decide +kernel
  · decide +kernel

end BoardMill.GCode.Sink
