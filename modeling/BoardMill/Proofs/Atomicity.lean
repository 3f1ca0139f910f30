import BoardMill.Gerber.InPlace
import BoardMill.GCode.InPlace
import BoardMill.Proofs.Changing
import BoardMill.Proofs.GCode.Endless
import BoardMill.Proofs.GCode.Room
import BoardMill.Proofs.GCode.Safety

/-! # Steps that fail leave no trace

Blocks and drill steps are checked before anything is changed. Carried out in place, they
come to what the library tells of them at once, and a step that fails for another reason
than a file leaves everything as it was. A sequence of steps may thus go on after faults.
-/

namespace BoardMill

open Changing

/-! ## Graphics state and box -/

namespace Gerber

variable {α : Type}

/-- Carried out in place, a block changes the state as it does at once. -/
theorem State.carryOut_outcome (b : Located (Block α)) (s : State α) :
    (carryOut b).outcome s = settle s (s.apply b) := by
  obtain ⟨line, block⟩ := b
  unfold carryOut apply moveTo
  cases block with
  | select number =>
    cases hget : s.apertures.get? number <;> simp [outcome_bind, hget, settle] <;> rfl
  | flash target =>
    cases hregion : s.inRegion <;> cases hrequire : s.require line <;>
      simp [outcome_bind, hregion, hrequire, settle] <;> rfl
  | interpolate mode target center =>
    cases hregion : s.inRegion <;> cases hrequire : s.require line <;>
      simp [outcome_bind, hregion, hrequire, settle] <;> rfl
  | regionStart => cases hregion : s.inRegion <;> simp [outcome_bind, hregion, settle] <;> rfl
  | regionEnd => cases hregion : s.inRegion <;> simp [outcome_bind, hregion, settle] <;> rfl
  | _ => rfl

variable [Scalar α]

/-- Grown in place, a box covers what it covers at once. -/
theorem Block.enlarge_outcome (b : Block α) (line : Nat) (s : State α) (box : Box α) :
    (b.enlarge line s).outcome box = settle box (b.grow line s box) := by
  unfold enlarge grow footprints coverBox
  cases b with
  | flash target =>
    cases s.require line <;> simp [outcome_bind, settle]
  | interpolate mode target center =>
    cases s.reach line with
    | error fault => simp [outcome_bind, settle]
    | ok reach =>
      cases harc : s.arc? mode target center with
      | none => simp [outcome_bind, harc, settle]
      | some arc => simp [outcome_bind, harc, settle, outcome_forM_modify, List.foldl_map]
  | _ => rfl

end Gerber

/-! ## Lines of a block -/

namespace GCode

theorem Tape.write_eq_error {t : Tape} {bytes : List UInt8} {fault : Fault}
    (h : (t.write bytes).1 = .error fault) : fault = fullFault := by
  unfold write at h
  cases hroom : t.room with
  | none =>
    rw [hroom] at h
    cases h
  | some room =>
    rw [hroom] at h
    dsimp only at h
    split at h
    · cases h
    · exact (Except.error.inj h).symm

variable {α : Type} [Numeral α]

namespace Sink

theorem put_outcome (c : Command α) (s : Sink α) :
    (put c).outcome s =
      ((s.tape.write (lineBytes c)).1,
        { s with lines := s.lines + 1, tape := (s.tape.write (lineBytes c)).2 }) := by
  unfold put
  simp only [outcome_bind, outcome_modify, outcome_get]
  rcases s.tape.write (lineBytes c) with ⟨_ | _, tape⟩ <;> rfl

theorem emit_singleton (c : Command α) (s : Sink α) : s.emit [c] = s.write c := by
  rw [emit]
  rcases s.write c with ⟨_ | _, later⟩ <;> rfl

/-- Writing fails for want of room only. -/
theorem emit_eq_error {s : Sink α} {commands : List (Command α)} {fault : Fault}
    (h : (s.emit commands).1 = .error fault) : fault = Tape.fullFault := by
  have htape := congrArg Prod.fst (emit_tape s commands)
  exact Tape.write_eq_error (htape.symm.trans h)

theorem emit_eq_ok {s later : Sink α} {commands : List (Command α)}
    (h : s.emit commands = (.ok (), later)) :
    later.machine = s.machine ∧ later.place = s.place ∧
      later.engaged = engagedAfter s.engaged commands := by
  induction commands generalizing s with
  | nil =>
      cases h
      exact ⟨rfl, rfl, rfl⟩
  | cons c rest ih =>
      rw [emit, write] at h
      generalize s.tape.write (lineBytes c) = written at h
      rcases written with ⟨_ | _, tape⟩
      · cases h
      · exact ih h

/-- Some work writes commands that are told by the machine, the placement and whether the tool
is in the board. -/
def Writes (work : Changing (Sink α) Unit)
    (commands : Machine α → (Point α → Point α) → Bool → List (Command α)) : Prop :=
  ∀ s : Sink α, work.outcome s = s.emit (commands s.machine s.place s.engaged)

theorem Writes.andThen {first second : Changing (Sink α) Unit}
    {commands more : Machine α → (Point α → Point α) → Bool → List (Command α)}
    (hfirst : Writes first commands) (hsecond : Writes second more) :
    Writes (first >>= fun _ => second) fun machine place engaged =>
      commands machine place engaged ++
        more machine place (engagedAfter engaged (commands machine place engaged)) := by
  intro s
  rw [outcome_bind, hfirst s, emit_append]
  rcases hemit : s.emit (commands s.machine s.place s.engaged) with ⟨result, later⟩
  cases result with
  | error fault => rfl
  | ok _ =>
      obtain ⟨hmachine, hplace, hengaged⟩ := emit_eq_ok hemit
      dsimp only
      rw [hsecond later, hmachine, hplace, hengaged]

theorem writes_order {c : Machine α → (Point α → Point α) → Command α}
    (h : ∀ machine place engaged, (c machine place).engagedAfter engaged = engaged) :
    Writes (order c) fun machine place _ => [c machine place] := by
  intro s
  rw [order, outcome_get_bind, put_outcome, emit_singleton]
  unfold write
  rcases s.tape.write (lineBytes (c s.machine s.place)) with ⟨_ | _, tape⟩
  · rfl
  · simp only [h]

/-- Behind a command that moves the tool it is noted where the tool is. -/
theorem writes_order_noted {c : Machine α → (Point α → Point α) → Command α} {engaged : Bool}
    (h : ∀ machine place before, (c machine place).engagedAfter before = engaged) :
    Writes (order c >>= fun _ => setEngaged engaged) fun machine place _ => [c machine place] := by
  intro s
  rw [order, outcome_bind, outcome_get_bind, put_outcome, emit_singleton]
  unfold write
  rcases s.tape.write (lineBytes (c s.machine s.place)) with ⟨_ | _, tape⟩
  · rfl
  · simp only [h, setEngaged, outcome_modify]

theorem writes_climb : Writes (α := α) climb fun machine _ _ => [.rapidZ machine.safeZ] :=
  writes_order fun _ _ _ => rfl

theorem writes_lower : Writes (α := α) lower fun machine _ => engage machine := by
  intro s
  rw [lower, outcome_get_bind]
  cases s.engaged with
  | true => rfl
  | false =>
    have hspindle : Writes (α := α) (order fun machine _ => .spindleOn machine.power) _ :=
      writes_order fun _ _ _ => rfl
    exact hspindle.andThen (writes_order_noted fun _ _ _ => rfl) s

theorem writes_raise : Writes (α := α) raise fun machine _ => retract machine := by
  intro s
  rw [raise, outcome_get_bind]
  cases s.engaged with
  | false => rfl
  | true => exact writes_climb.andThen (writes_order_noted fun _ _ _ => rfl) s

theorem writes_travelTo (target : Point α) :
    Writes (travelTo target) fun _ place _ => [.rapid (place target)] :=
  writes_order fun _ _ _ => rfl

theorem writes_stampAt (target : Point α) :
    Writes (stampAt target) (Motion.commands · · · (.stamp target)) := by
  have h := writes_raise.andThen
    (writes_climb.andThen ((writes_travelTo target).andThen (writes_lower.andThen writes_raise)))
  intro s
  refine (h s).trans (congrArg s.emit ?_)
  have hstill : engagedAfter (engagedAfter false [.rapidZ s.machine.safeZ])
      [.rapid (s.place target)] = false := rfl
  simp only [Motion.commands, engagedAfter_retract, hstill, engagedAfter_engage,
    List.append_assoc, List.cons_append, List.nil_append]

theorem writes_cutTo (target : Point α) :
    Writes (cutTo target) (Motion.commands · · · (.cut target)) :=
  writes_lower.andThen (writes_order fun _ _ _ => rfl)

theorem writes_arcTo (clockwise : Bool) (start target center : Point α) :
    Writes (arcTo clockwise start target center)
      (Motion.commands · · · (.arc clockwise start target center)) :=
  writes_lower.andThen (writes_order fun _ _ _ => rfl)

theorem writes_note (remark : Remark α) :
    Writes (put (.comment remark)) (Motion.commands · · · (.note remark)) :=
  writes_order (c := fun _ _ => .comment remark) fun _ _ _ => rfl

theorem writes_travel (target : Point α) :
    Writes (raise >>= fun _ => travelTo target) (Motion.commands · · · (.travel target)) :=
  writes_raise.andThen (writes_travelTo target)

end Sink

end GCode

namespace Gerber

variable {α : Type} [Numeral α]

open GCode (Sink)

/-- Written in place, the lines of a block are those that it is turned into at once. -/
theorem Block.mill_outcome (b : Located (Block α)) (s : State α) (sink : Sink α) :
    (b.value.mill b.line s).outcome sink = sink.block b s := by
  obtain ⟨line, b⟩ := b
  unfold mill Sink.block commands motion?
  cases b with
  | select number =>
    dsimp only
    cases s.apertures.get? number with
    | none => rfl
    | some aperture => exact Sink.writes_note _ sink
  | flash target =>
    dsimp only
    cases s.require line with
    | error fault => rfl
    | ok aperture => exact Sink.writes_stampAt _ sink
  | move target => exact Sink.writes_travel _ sink
  | interpolate mode target center =>
    dsimp only
    generalize s.arc? mode target center = arc
    rcases arc with _ | arc <;> rcases center with _ | center
    case some.some =>
      cases s.inRegion with
      | true => exact Sink.writes_arcTo _ _ _ _ sink
      | false =>
        cases s.require line with
        | error fault => rfl
        | ok aperture => exact Sink.writes_arcTo _ _ _ _ sink
    all_goals
      cases s.inRegion with
      | true => exact Sink.writes_cutTo _ sink
      | false =>
        cases s.require line with
        | error fault => rfl
        | ok aperture => exact Sink.writes_cutTo _ sink
  | regionStart => exact Sink.writes_note _ sink
  | regionEnd => exact Sink.writes_note _ sink
  | polarity p => exact Sink.writes_note _ sink
  | _ => rfl

end Gerber

/-! ## Lines of a drill step -/

namespace Drill

variable {α : Type} [Numeral α]

open GCode (Sink Command)

theorem Station.put_outcome (c : Command α) (tool : Option (Tool α)) (sink : Sink α) :
    (put c).outcome ⟨tool, sink⟩ =
      ((sink.tape.write (Sink.lineBytes c)).1,
        ⟨tool, { sink with
          lines := sink.lines + 1, tape := (sink.tape.write (Sink.lineBytes c)).2 }⟩) := by
  unfold put
  rw [outcome_get_bind, Sink.put_outcome]
  rcases sink.tape.write (Sink.lineBytes c) with ⟨_ | _, tape⟩ <;> rfl

/-- Commands are written and counted as ever, and nothing else of a station changes. -/
theorem Station.puts_outcome (commands : List (Command α)) (tool : Option (Tool α))
    (sink : Sink α) (engaged : Bool) :
    (forM commands put : Changing (Station α) Unit).outcome ⟨tool, { sink with engaged }⟩ =
      ((sink.emit commands).1, ⟨tool, { (sink.emit commands).2 with engaged }⟩) := by
  induction commands generalizing sink with
  | nil => rfl
  | cons c rest ih =>
      rw [outcome_forM_cons, put_outcome, Sink.emit, Sink.write]
      rcases sink.tape.write (Sink.lineBytes c) with ⟨_ | _, tape⟩
      · rfl
      · exact ih { sink with
          engaged := c.engagedAfter sink.engaged, lines := sink.lines + 1, tape }

/-- The outcome of a step that is told at once: a fault leaves the station as it was, and else
the tool is loaded and the commands are written. -/
def Station.follow (station : Station α) :
    Except Fault (Option (Tool α) × List (Command α)) → Except Fault Unit × Station α
  | .ok (tool, commands) =>
    let written := station.sink.emit commands
    (written.1, ⟨tool, { written.2 with engaged := station.sink.engaged }⟩)
  | .error fault => (.error fault, station)

/-- Carried out in place, a step loads and writes what it does at once. -/
theorem Program.work_outcome (p : Program α) (step : Step α) (station : Station α) :
    (p.work step).outcome station =
      station.follow
        (p.step station.sink.machine station.sink.place station.loaded step) := by
  obtain ⟨loaded, sink⟩ := station
  unfold work Program.step
  cases step with
  | change number =>
    dsimp only
    cases p.tool number with
    | error fault => rfl
    | ok tool => exact Station.puts_outcome _ (some tool) sink sink.engaged
  | drill hole =>
    cases loaded with
    | none => rfl
    | some tool => exact Station.puts_outcome _ (some tool) sink sink.engaged
  | unload => exact Station.puts_outcome _ none sink sink.engaged

end Drill

/-! ## Faults that leave no trace -/

variable {α : Type} [Numeral α]

open Gerber (State Block Located)
open Drill (Program Step Station)
open GCode (Sink Tape)

theorem Gerber.Block.mill_eq_error {b : Block α} {line : Nat} {s : State α}
    {sink later : Sink α} {fault : Fault} (haccess : ∀ reason, fault ≠ .fileAccess reason)
    (h : (b.mill line s).outcome sink = (.error fault, later)) : later = sink := by
  rw [Block.mill_outcome ⟨line, b⟩, Sink.block] at h
  cases hcommands : b.commands sink.machine sink.place sink.engaged line s with
  | error own =>
    rw [hcommands] at h
    exact (congrArg Prod.snd h).symm
  | ok commands =>
    rw [hcommands] at h
    exact absurd (Sink.emit_eq_error (congrArg Prod.fst h)) (haccess _)

theorem Drill.Program.work_eq_error {p : Program α} {step : Step α} {station later : Station α}
    {fault : Fault} (haccess : ∀ reason, fault ≠ .fileAccess reason)
    (h : (p.work step).outcome station = (.error fault, later)) : later = station := by
  rw [Program.work_outcome] at h
  cases hstep : p.step station.sink.machine station.sink.place station.loaded step with
  | error own =>
    rw [hstep] at h
    exact (congrArg Prod.snd h).symm
  | ok done =>
    rw [hstep] at h
    exact absurd (Sink.emit_eq_error (congrArg Prod.fst h)) (haccess _)

/-- A step on a tape with room for all fails with no fault of a file, and leaves such a tape. -/
theorem Drill.Program.work_endless (p : Program α) (step : Step α) {station : Station α}
    (h : station.sink.tape.room = none) :
    ((p.work step).outcome station).2.sink.tape.room = none ∧
      ∀ fault later, (p.work step).outcome station = (.error fault, later) →
        later = station := by
  rw [Program.work_outcome]
  cases p.step station.sink.machine station.sink.place station.loaded step with
  | error own => exact ⟨h, fun fault later hfault => (congrArg Prod.snd hfault).symm⟩
  | ok done =>
    obtain ⟨tool, commands⟩ := done
    simp only [Station.follow, Sink.emit_endless h]
    exact ⟨h, nofun⟩

/-- A step that fails leaves no trace, apart from a fault of a file while lines are written: the
graphics state, the box, the sink and the station are as they were. So a state, and a station
whose tape has room for all, that go on after faults end as if the failing items had not been
there. -/
theorem steps_atomic :
    (∀ (b : Located (Block α)) (s later : State α) (fault : Fault),
      (State.carryOut b).outcome s = (.error fault, later) → later = s) ∧
    (∀ (b : Block α) (line : Nat) (s : State α) (box later : Box α) (fault : Fault),
      (b.enlarge line s).outcome box = (.error fault, later) → later = box) ∧
    (∀ (b : Block α) (line : Nat) (s : State α) (sink later : Sink α) (fault : Fault),
      (∀ reason, fault ≠ .fileAccess reason) →
      (b.mill line s).outcome sink = (.error fault, later) → later = sink) ∧
    (∀ (p : Program α) (step : Step α) (station later : Station α) (fault : Fault),
      (∀ reason, fault ≠ .fileAccess reason) →
      (p.work step).outcome station = (.error fault, later) → later = station) ∧
    (∀ (s : State α) (blocks : List (Located (Block α))),
      (forM (accepted State.carryOut s blocks) State.carryOut : Changing (State α) Unit).outcome s =
        (.ok (), persist State.carryOut s blocks)) ∧
    (∀ (p : Program α) (station : Station α) (steps : List (Step α)),
      station.sink.tape.room = none →
      (forM (accepted p.work station steps) p.work : Changing (Station α) Unit).outcome station =
        (.ok (), persist p.work station steps)) := by
  have hcarry : ∀ (b : Located (Block α)) (s : State α) (fault : Fault) (later : State α),
      (State.carryOut b).outcome s = (.error fault, later) → later = s := by
    intro b s fault later h
    rw [State.carryOut_outcome] at h
    exact settle_eq_error h
  refine ⟨fun b s later fault h => hcarry b s fault later h, ?_, ?_, ?_, ?_, ?_⟩
  · intro b line s box later fault h
    rw [Block.enlarge_outcome] at h
    exact settle_eq_error h
  · intro b line s sink later fault haccess h
    exact Block.mill_eq_error haccess h
  · intro p step station later fault haccess h
    exact Program.work_eq_error haccess h
  · intro s blocks
    exact outcome_accepted (P := fun _ => True) (fun _ _ _ => trivial)
      (fun b s fault later _ h => hcarry b s fault later h) trivial blocks
  · intro p station steps hroom
    exact outcome_accepted (P := fun station : Station α => station.sink.tape.room = none)
      (fun step _ h => (p.work_endless step h).1)
      (fun step _ fault later h => (p.work_endless step h).2 fault later) hroom steps

/-- A flash without an aperture leaves a full tape alone. A hole before the first tool and a tool
that no one knows leave no trace before the tool is put away. -/
theorem steps_atomic_slips :
    let sink : Sink Float := .start .default id (some 0)
    let milled := ((Block.flash ⟨1.0, 1.0⟩).mill 3 (State.start .empty)).outcome sink
    let p : Program Float := ⟨.millimeters, .empty, []⟩
    let station : Station Float := ⟨none, .start .default id none⟩
    let steps : List (Step Float) := [.drill ⟨2.0, 0.0⟩, .change 7, .unload]
    milled.1 = .error (.noApertureSelected 3) ∧ milled.2 = sink ∧
      accepted p.work station steps = [.unload] ∧
      (forM [.unload] p.work : Changing (Station Float) Unit).outcome station =
        (.ok (), persist p.work station steps) := by
  intro sink milled p station steps
  have hatomic := steps_atomic (α := Float)
  have hmilled : milled = (.error (.noApertureSelected 3), sink) := rfl
  have haccepted : accepted p.work station steps = [.unload] := rfl
  have haccess : ∀ reason, Fault.noApertureSelected 3 ≠ .fileAccess reason := nofun
  refine ⟨rfl, hatomic.2.2.1 (.flash ⟨1.0, 1.0⟩) 3 (.start .empty) sink _ _ haccess hmilled,
    haccepted, ?_⟩
  rw [← haccepted]
  exact hatomic.2.2.2.2.2 p station steps rfl

end BoardMill
