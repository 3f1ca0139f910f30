import BoardMill.Proofs.GCode.Endless
import BoardMill.Proofs.GCode.Path
import BoardMill.Proofs.Gerber.Placement
import BoardMill.Proofs.Gerber.Ready
import BoardMill.Proofs.Scalar.Exact

/-! # Jobs that lie elsewhere

Where a job lies on the machine shows in the points of the board that the tool is sent to and in
nothing else: in exact arithmetic, the program of a job that is shifted is the program of the job
with these points shifted. The center of an arc is written as a difference, from which a shift
cancels out, and what the tool does in between does not depend on points at all.
-/

namespace BoardMill

section Shifts

variable {α : Type} [Scalar α]

def Point.shifted (p v : Point α) : Point α := ⟨p.x + v.x, p.y + v.y⟩

namespace GCode

/-- The command with the point of the board that it goes to shifted. Offsets of centers, heights
and rates stay, and so does a travel to the origin of the machine. -/
def Command.shifted (v : Point α) : Command α → Command α
  | rapid target => rapid (target.shifted v)
  | cut target feed => cut (target.shifted v) feed
  | arc clockwise target offset feed => arc clockwise (target.shifted v) offset feed
  | c => c

def Run.shifted (v : Point α) (run : Run α) : Run α := ⟨run.commands.map (·.shifted v), run.ending⟩

/-- The sink of a machine on which every job lies elsewhere. -/
def Sink.shifted (v : Point α) (s : Sink α) : Sink α :=
  { s with place := fun p => (s.place p).shifted v }

variable (v : Point α)

/-- A command that is shifted leaves the tool in the board, or out of it, as before. -/
theorem engagedAfter_shifted (engaged : Bool) (commands : List (Command α)) :
    engagedAfter engaged (commands.map (·.shifted v)) = engagedAfter engaged commands := by
  have hcommand (engaged : Bool) (c : Command α) :
      (c.shifted v).engagedAfter engaged = c.engagedAfter engaged := by
    cases c <;> rfl
  rw [engagedAfter, List.foldl_map]
  exact List.foldl_ext _ _ _ fun engaged c _ => hcommand engaged c

theorem engage_shifted (machine : Machine α) (engaged : Bool) :
    (engage machine engaged).map (·.shifted v) = engage machine engaged := by
  cases engaged <;> rfl

theorem retract_shifted (machine : Machine α) (engaged : Bool) :
    (retract machine engaged).map (·.shifted v) = retract machine engaged := by
  cases engaged <;> rfl

theorem Run.andThen_shifted (first next : Run α) :
    (first.andThen next).shifted v = (first.shifted v).andThen (next.shifted v) := by
  obtain ⟨commands, ending⟩ := first
  cases ending with
  | ok _ => exact congrArg (Run.mk · _) List.map_append
  | error fault => rfl

/-- The trailer goes nowhere along the board. -/
theorem Run.program_shifted (machine : Machine α) (run : Run α) :
    (run.shifted v).program machine = (run.program machine).map (·.shifted v) := by
  obtain ⟨commands, ending⟩ := run
  cases ending with
  | ok _ =>
      change commands.map _ ++ (trailer machine).map (·.shifted v) = _
      exact List.map_append.symm
  | error fault => rfl

end GCode

namespace Drill.Program

open GCode (Run)

variable (v : Point α) (p : Program α) (machine : Machine α) (place : Point α → Point α)

theorem step_shifted (loaded : Option (Tool α)) (s : Step α) :
    p.step machine (fun q => (place q).shifted v) loaded s =
      (p.step machine place loaded s).map fun (loaded, commands) =>
        (loaded, commands.map (·.shifted v)) := by
  cases s with
  | change number =>
      rw [step, step]
      cases p.tool number <;> rfl
  | drill hole => cases loaded <;> rfl
  | unload => rfl

theorem runFrom_shifted (loaded : Option (Tool α)) (steps : List (Step α)) :
    p.runFrom machine (fun q => (place q).shifted v) loaded steps =
      (p.runFrom machine place loaded steps).shifted v := by
  induction steps generalizing loaded with
  | nil => rfl
  | cons s rest ih =>
      rw [runFrom, runFrom, step_shifted]
      cases p.step machine place loaded s with
      | error fault => rfl
      | ok next =>
          dsimp only [Except.map]
          rw [ih, Run.andThen_shifted]
          rfl

theorem body_shifted (title : String) :
    p.body machine (fun q => (place q).shifted v) title =
      (p.body machine place title).shifted v := by
  rw [body, body, runFrom_shifted, Run.andThen_shifted]
  rfl

end Drill.Program

end Shifts

section Exact

variable {K : Type} [Field K] [LinearOrder K] [FloorRing K] [Analytic K]

/-- A number cancels out of a difference, also of one with an infinity. -/
theorem Exact.add_sub_add_number (a b : Exact K) (x : K) :
    a + number x - (b + number x) = a - b := by
  cases a with
  | number y =>
      cases b with
      | number z => rw [number_add, number_add, number_sub, number_sub, add_sub_add_right_eq_sub]
      | _ => rfl
  | _ => cases b <;> rfl

variable {v : Point (Exact K)} (hv : v.Finite)
include hv

theorem Point.sub_shifted (p q : Point (Exact K)) :
    (p.shifted v).x - (q.shifted v).x = p.x - q.x ∧
      (p.shifted v).y - (q.shifted v).y = p.y - q.y := by
  obtain ⟨x, hx⟩ := Exact.exists_number hv.x
  obtain ⟨y, hy⟩ := Exact.exists_number hv.y
  simp only [shifted, hx, hy, Exact.add_sub_add_number, and_self]

variable (machine : Machine (Exact K)) (place : Point (Exact K) → Point (Exact K))

/-- A motion that is placed elsewhere takes the same commands, to points that are shifted. -/
theorem GCode.Motion.commands_shifted (engaged : Bool) (m : Motion (Exact K)) :
    m.commands machine (fun p => (place p).shifted v) engaged =
      (m.commands machine place engaged).map (·.shifted v) := by
  cases m with
  | note remark => rfl
  | travel target =>
      rw [commands, commands, List.map_append, retract_shifted]
      rfl
  | stamp target =>
      simp only [commands, List.map_append, retract_shifted, engage_shifted]
      rfl
  | cut target =>
      rw [commands, commands, List.map_append, engage_shifted]
      rfl
  | arc clockwise start target center =>
      simp only [commands, List.map_append, engage_shifted, Point.sub_shifted hv]
      rfl

namespace Gerber

open GCode (Run)

theorem Block.commands_shifted (engaged : Bool) (b : Block (Exact K)) (line : Nat)
    (s : State (Exact K)) :
    b.commands machine (fun p => (place p).shifted v) engaged line s =
      (b.commands machine place engaged line s).map (List.map (·.shifted v)) := by
  rw [commands_eq, commands_eq]
  cases b.ready line s with
  | error fault => rfl
  | ok _ =>
      cases b.goal? s with
      | none => rfl
      | some m => exact congrArg Except.ok (m.commands_shifted hv machine place engaged)

theorem Document.runFrom_shifted (lastLine : Nat) (engaged : Bool) (s : State (Exact K))
    (blocks : List (Located (Block (Exact K)))) :
    runFrom machine (fun p => (place p).shifted v) lastLine engaged s blocks =
      (runFrom machine place lastLine engaged s blocks).shifted v := by
  induction blocks generalizing engaged s with
  | nil => rfl
  | cons b rest ih =>
      rw [runFrom, runFrom, Block.commands_shifted hv]
      cases b.value.commands machine place engaged b.line s with
      | error fault => rfl
      | ok commands =>
          cases s.apply b with
          | error fault => rfl
          | ok next =>
              -- Behind the block the tool is in the board in both runs, or in none.
              dsimp only [Except.map]
              rw [GCode.engagedAfter_shifted, ih, Run.andThen_shifted]
              rfl

theorem Document.body_shifted (engaged : Bool) (title : String) (d : Document (Exact K)) :
    d.body machine (fun p => (place p).shifted v) engaged title =
      (d.body machine place engaged title).shifted v := by
  rw [body, body, runFrom_shifted hv, Run.andThen_shifted]
  rfl

end Gerber

end Exact

namespace GCode

/-- A word with a coordinate of the board. -/
def isPlaceWord (word : List Char) : Bool := word.head? = some 'X' || word.head? = some 'Y'

/-- In its other words a command that is shifted stays as it is. -/
theorem Command.words_shifted {α : Type} [Numeral α] (v : Point α) (c : Command α) :
    (c.shifted v).words.filter (!isPlaceWord ·) = c.words.filter (!isPlaceWord ·) := by
  cases c <;> rfl

/-- In exact arithmetic, a sink of a machine on which every job lies elsewhere takes the run of the
job with the points of the board shifted that it goes to. On a tape without end it comes to the
same result in as many lines, and a line keeps all words but those with a coordinate of the board,
which it keeps, too, if it goes to no point of the board. -/
theorem shift_moves_only_targets {K : Type} [Field K] [LinearOrder K] [FloorRing K] [Analytic K]
    {v : Point (Exact K)} (hv : v.Finite) (sink : Sink (Exact K)) (title : String) :
    (∀ d : Gerber.Document (Exact K),
      let run := d.body sink.machine sink.place sink.engaged title
      let program := run.program sink.machine
      (sink.shifted v).document d title = (sink.shifted v).complete (run.shifted v) ∧
        (sink.tape.room = none →
          sink.document d title = (run.ending, sink.behind program) ∧
            (sink.shifted v).document d title =
              (run.ending, (sink.shifted v).behind (program.map (·.shifted v))))) ∧
    (∀ p : Drill.Program (Exact K),
      let run := p.body sink.machine sink.place title
      let program := run.program sink.machine
      (sink.shifted v).drilling p title = (sink.shifted v).complete (run.shifted v) ∧
        (sink.tape.room = none →
          sink.drilling p title = (run.ending, sink.behind program) ∧
            (sink.shifted v).drilling p title =
              (run.ending, (sink.shifted v).behind (program.map (·.shifted v))))) ∧
    ∀ c : Command (Exact K),
      (c.shifted v).target? = c.target?.map (·.shifted v) ∧ (c.target? = none → c.shifted v = c) ∧
        (c.shifted v).words.filter (!isPlaceWord ·) = c.words.filter (!isPlaceWord ·) := by
  have hendless (run : Run (Exact K)) (hroom : sink.tape.room = none) :
      (sink.shifted v).complete (run.shifted v) = (run.ending,
        (sink.shifted v).behind ((run.program sink.machine).map (·.shifted v))) := by
    have hshifted : (sink.shifted v).tape.room = none := hroom
    rw [Sink.complete_endless hshifted, ← Run.program_shifted]
    rfl
  refine ⟨fun d => ?_, fun p => ?_, fun c => ⟨?_, ?_, c.words_shifted v⟩⟩
  · have hdocument : (sink.shifted v).document d title = (sink.shifted v).complete _ :=
      congrArg (sink.shifted v).complete
        (d.body_shifted hv sink.machine sink.place sink.engaged title)
    exact ⟨hdocument, fun hroom =>
      ⟨Sink.complete_endless hroom _, hdocument.trans (hendless _ hroom)⟩⟩
  · have hdrilling : (sink.shifted v).drilling p title = (sink.shifted v).complete _ :=
      congrArg (sink.shifted v).complete (p.body_shifted v sink.machine sink.place title)
    exact ⟨hdrilling, fun hroom =>
      ⟨Sink.complete_endless hroom _, hdrilling.trans (hendless _ hroom)⟩⟩
  · cases c <;> rfl
  · cases c <;> first | exact fun _ => rfl | exact nofun

section Rational

local instance : Analytic ℚ := Gerber.coarse

/-- The contour of a region with a bow in it, and a hole, are shifted by a vector. -/
theorem shift_moves_only_targets_bow :
    let v : Point (Exact ℚ) := ⟨1.5, -2.0⟩
    let bow : Gerber.Document (Exact ℚ) := ⟨[⟨1, .regionStart⟩,
      ⟨2, .interpolate .clockwise ⟨1.0, 1.0⟩ (some ⟨1.0, 0.0⟩)⟩, ⟨3, .regionEnd⟩], .empty⟩
    let hole : Drill.Program (Exact ℚ) :=
      ⟨.millimeters, ⟨[(1, ⟨'C', 0.5⟩)]⟩, [.change 1, .drill ⟨1.0, 2.0⟩]⟩
    let sink : Sink (Exact ℚ) := .start .default id none
    let contour := (bow.body .default id false "bow").program .default
    let drilling := (hole.body .default id "hole").program .default
    v.Finite ∧ sink.tape.room = none ∧
      contour[7]? == some (.arc true ⟨1.0, 1.0⟩ ⟨1.0, 0.0⟩ 300.0) ∧
      ((sink.shifted v).document bow "bow").2 =
        (sink.shifted v).behind (contour.map (·.shifted v)) ∧
      drilling[5]? = some .home ∧ drilling[9]? == some (.rapid ⟨1.0, 2.0⟩) ∧
      ((sink.shifted v).drilling hole "hole").2 =
        (sink.shifted v).behind (drilling.map (·.shifted v)) := by
  intro v bow hole sink contour drilling
  have hv : v.Finite := ⟨rfl, rfl⟩
  obtain ⟨hdocument, hdrilling, -⟩ := shift_moves_only_targets hv sink "bow"
  obtain ⟨-, hholes, -⟩ := shift_moves_only_targets hv sink "hole"
  exact ⟨hv, rfl, by decide +kernel, congrArg Prod.snd ((hdocument bow).2 rfl).2,
    rfl, by decide +kernel, congrArg Prod.snd ((hholes hole).2 rfl).2⟩

end Rational

end GCode

end BoardMill
