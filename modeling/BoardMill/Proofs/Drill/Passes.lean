import BoardMill.Drill.Extent
import BoardMill.GCode.Drilling
import BoardMill.Proofs.Box.Cover
import BoardMill.Proofs.Drill.Tools
import BoardMill.Proofs.GCode.Path

/-! # Passes over a drill program

The box and the machine program of a drill program come from passes that keep different
things of the loaded tool. Both refuse exactly the steps that offend, and where none does,
the first covers one box for each hole and the second has the commands of every step.
-/

namespace BoardMill.Drill

open GCode (Command Run Sink)
open Gerber (visitsFrom)
open Outcome

variable {α : Type} [Scalar α]

namespace Program

variable {p : Program α}

/-! ## Extent -/

/-- The box of a step that finds a tool loaded. -/
def holeBox? (p : Program α) (loaded : Option (Tool α)) : Step α → Option (Box α)
  | .drill hole =>
    loaded.map fun tool => .around (p.units.pointToMm hole) (p.radius tool) (p.radius tool)
  | _ => none

def holeBoxesFrom (p : Program α) (before steps : List (Step α)) : List (Box α) :=
  (visitsFrom before steps).filterMap fun (before, s) => p.holeBox? (p.toolAfter before) s

/-- The boxes of all holes, each as wide as the tool that the steps before it leave loaded. -/
def holeBoxes (p : Program α) : List (Box α) := p.holeBoxesFrom [] p.steps

theorem holeBoxesFrom_cons (before : List (Step α)) (s : Step α) (rest : List (Step α)) :
    p.holeBoxesFrom before (s :: rest) =
      (p.holeBox? (p.toolAfter before) s).toList ++ p.holeBoxesFrom (before ++ [s]) rest := by
  rw [holeBoxesFrom, visitsFrom, List.filterMap_cons]
  dsimp only
  cases p.holeBox? (p.toolAfter before) s <;> rfl

/-- The radius that growing keeps is that of the loaded tool. -/
theorem growFrom_cons (loaded : Option (Tool α)) (box : Box α) (s : Step α)
    (rest : List (Step α)) :
    p.growFrom (loaded.map p.radius) box (s :: rest) =
      p.load loaded s >>= fun next =>
        p.growFrom (next.map p.radius) ((p.holeBox? loaded s).toList.foldl Box.cover box) rest := by
  cases s with
  | change number =>
      rw [growFrom, load]
      cases p.tool number <;> rfl
  | drill hole => cases loaded <;> rfl
  | unload => rfl

theorem growFrom_eq {before : List (Step α)} (hbefore : p.Clean before) (box : Box α)
    (steps : List (Step α)) :
    p.growFrom ((p.toolAfter before).map p.radius) box steps =
      (steps.foldlM p.load (p.toolAfter before)).map fun _ =>
        (p.holeBoxesFrom before steps).foldl Box.cover box := by
  induction steps generalizing before box with
  | nil => rfl
  | cons s rest ih =>
      rw [growFrom_cons, List.foldlM_cons]
      cases hload : p.load (p.toolAfter before) s with
      | error fault => rfl
      | ok next =>
          obtain ⟨hclean, rfl⟩ := (load_eq_ok_iff hbefore).mp hload
          rw [holeBoxesFrom_cons, List.foldl_append]
          exact ih hclean _

/-- The box of a drill program covers the boxes of its holes, if no step offends. -/
theorem bounds_eq (p : Program α) :
    p.bounds = (p.steps.foldlM p.load none).map fun _ => p.holeBoxes.foldl Box.cover .empty :=
  growFrom_eq clean_nil _ _

/-- A drill program has bounds if no step offends, and they cover the boxes of its holes. -/
theorem bounds_eq_ok_iff {box : Box α} :
    p.bounds = .ok box ↔ p.Clean p.steps ∧ p.holeBoxes.foldl Box.cover .empty = box := by
  rw [bounds_eq, map_foldlM_load_eq_ok_iff]

/-- Where no step offends, every hole has its box. -/
theorem length_holeBoxesFrom {before steps : List (Step α)} (h : p.Clean (before ++ steps)) :
    (p.holeBoxesFrom before steps).length = steps.countP Step.isDrill := by
  induction steps generalizing before with
  | nil => rfl
  | cons s rest ih =>
      have hrest : p.Clean (before ++ [s] ++ rest) := by simpa using h
      rw [holeBoxesFrom_cons, List.length_append, ih hrest]
      cases s with
      | drill hole =>
          obtain ⟨tool, htool⟩ := h.exists_tool
          rw [htool, List.countP_cons]
          simp [holeBox?, Step.isDrill, Nat.add_comm]
      | _ => simp [holeBox?, Step.isDrill]

/-! ## Commands -/

/-- The commands of a step that leaves a tool loaded. -/
def commandsOf (p : Program α) (machine : Machine α) (place : Point α → Point α)
    (loaded : Option (Tool α)) : Step α → List (Command α)
  | .change number => (loaded.map (changeCommands machine p.units number)).getD []
  | .drill hole => drillCommands machine (place (p.units.pointToMm hole))
  | .unload => unloadCommands machine

variable (machine : Machine α) (place : Point α → Point α)

theorem step_eq (loaded : Option (Tool α)) (s : Step α) :
    p.step machine place loaded s =
      (p.load loaded s).map fun next => (next, p.commandsOf machine place next s) := by
  cases s with
  | change number =>
      rw [step, load]
      cases p.tool number <;> rfl
  | drill hole => cases loaded <;> rfl
  | unload => rfl

/-- A run ends as the tools can be loaded. -/
theorem runFrom_ending (loaded : Option (Tool α)) (steps : List (Step α)) :
    (p.runFrom machine place loaded steps).ending =
      (steps.foldlM p.load loaded).map fun _ => () := by
  induction steps generalizing loaded with
  | nil => rfl
  | cons s rest ih =>
      rw [runFrom, step_eq, List.foldlM_cons]
      cases p.load loaded s with
      | error fault => rfl
      | ok next => exact ih next

theorem ending_eq_ok_iff {title : String} :
    (p.body machine place title).ending = .ok () ↔ p.Clean p.steps := by
  change (p.runFrom machine place none p.steps).ending = .ok () ↔ _
  rw [runFrom_ending, map_foldlM_load_eq_ok_iff, and_iff_left rfl]

end Program

end BoardMill.Drill

namespace BoardMill.Drill

open GCode (Sink)
open Outcome

/-- On a tape with room for everything a drill program ends as its steps do. -/
theorem Program.drilling_ending {α : Type} [Numeral α] (p : Program α) (machine : Machine α)
    (place : Point α → Point α) (title : String) :
    ((Sink.start machine place none).drilling p title).1 =
      (p.steps.foldlM p.load none).map fun _ => () :=
  calc
    _ = (p.body machine place title).ending := (Sink.complete_tape _ _).2
    _ = _ := runFrom_ending machine place none p.steps

/-- Bounds and machine programs on a tape with room for everything refuse the same drill
programs with the same fault: those with a step that offends, for what is wrong with the first
such step. The bounds of any other drill program cover one box for each hole, as wide as the
tool that was taken last before the hole, in any order. -/
theorem Program.bounds_agree_with_drilling (p : Program Float) :
    (∀ machine place title fault,
      p.bounds = .error fault ↔
        ((Sink.start machine place none).drilling p title).1 = .error fault) ∧
    ((∃ fault, p.bounds = .error fault) ↔
      ∃ before s after fault, p.steps = before ++ s :: after ∧ s.Offends p before fault) ∧
    (∀ fault, p.bounds = .error fault ↔
      ∃ before s after, p.steps = before ++ s :: after ∧ p.Clean before ∧
        s.Offends p before fault) ∧
    ∀ box, p.bounds = .ok box →
      p.holeBoxes.length = p.holes ∧
        ∀ order : List (Box Float), order.Perm p.holeBoxes →
          (order.foldl Box.cover .empty == box) = true := by
  have hbounds (fault : Fault) :
      p.bounds = .error fault ↔ p.steps.foldlM p.load none = .error fault := by
    rw [bounds_eq]
    cases p.steps.foldlM p.load none <;> simp [Except.map]
  refine ⟨fun machine place title fault => ?_, ?_, fun fault => ?_, fun box hbox => ?_⟩
  · rw [hbounds, drilling_ending]
    cases p.steps.foldlM p.load none <;> simp [Except.map]
  · constructor
    · rintro ⟨fault, hfault⟩
      obtain ⟨before, s, after, hsplit, -, hoffends⟩ :=
        foldlM_load_eq_error_iff.mp ((hbounds fault).mp hfault)
      exact ⟨before, s, after, fault, hsplit, hoffends⟩
    · rintro ⟨before, s, after, fault, hsplit, hoffends⟩
      cases hload : p.steps.foldlM p.load none with
      | error other => exact ⟨other, (hbounds other).mpr hload⟩
      | ok loaded =>
          have hclean := (foldlM_load_eq_ok_iff.mp hload).1
          exact absurd hoffends (hclean before s after hsplit fault)
  · rw [hbounds, foldlM_load_eq_error_iff]
  · obtain ⟨hclean, rfl⟩ := bounds_eq_ok_iff.mp hbox
    have hall : p.Clean ([] ++ p.steps) := hclean
    exact ⟨length_holeBoxesFrom hall, fun order hperm => Box.foldl_cover_beq_of_perm hperm⟩

/-- Two holes of different tools, and the same steps with the tool put away in between. -/
theorem Program.bounds_agree_with_drilling_unload :
    let tools : ToolTable Float := ⟨[(1, ⟨'C', 0.8⟩), (2, ⟨'C', 0.3⟩)]⟩
    let first : List (Step Float) := [.change 1, .drill ⟨1.0, 2.0⟩]
    let p : Program Float := ⟨.millimeters, tools, first ++ [.change 2, .drill ⟨-3.0, 0.5⟩]⟩
    let q : Program Float := ⟨.millimeters, tools, first ++ [.unload, .drill ⟨-3.0, 0.5⟩]⟩
    (∃ box, p.bounds = .ok box ∧ p.holeBoxes.length = 2 ∧
      (p.holeBoxes.reverse.foldl Box.cover .empty == box) = true) ∧
    q.bounds = .error .stepBeforeTool ∧
    ((Sink.start .default id none).drilling q "job").1 = .error .stepBeforeTool := by
  intro tools first p q
  obtain ⟨-, -, -, hboxes⟩ := bounds_agree_with_drilling p
  obtain ⟨hagree, -, -, -⟩ := bounds_agree_with_drilling q
  have hp : p.bounds = .ok _ := rfl
  have hq : q.bounds = .error .stepBeforeTool := rfl
  obtain ⟨hlength, hmerge⟩ := hboxes _ hp
  exact ⟨⟨_, hp, hlength, hmerge _ p.holeBoxes.reverse_perm⟩, hq, (hagree _ _ _ _).mp hq⟩

end BoardMill.Drill
