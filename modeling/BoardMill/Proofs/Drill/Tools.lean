import BoardMill.Drill.Program
import BoardMill.Proofs.Outcome
import BoardMill.Proofs.Splits
import Mathlib.Data.List.Induction

/-! # The loaded tool

Which tool is loaded at a step can be told from the steps before it: the last of them that
takes a tool or puts it away decides. A step offends if it takes a tool that is not in the
table, or drills while none is loaded.
-/

namespace BoardMill.Drill

open Outcome

variable {α : Type}

/-- A table has a tool of a number. -/
def ToolTable.Has (table : ToolTable α) (number : Nat) : Prop :=
  ∃ tool, (number, tool) ∈ table.entries

theorem ToolTable.has_iff {table : ToolTable α} {number : Nat} :
    table.Has number ↔ (table.get? number).isSome := by
  rw [get?, List.lookup_isSome_iff]
  constructor
  · rintro ⟨tool, hmem⟩
    exact ⟨(number, tool), hmem, beq_self_eq_true number⟩
  · rintro ⟨⟨other, tool⟩, hmem, hsame⟩
    obtain rfl : number = other := eq_of_beq hsame
    exact ⟨tool, hmem⟩

/-- The number of the tool that a step leaves loaded, none if it puts the tool away. A hole
leaves the tool as it is. -/
def Step.takes? : Step α → Option (Option Nat)
  | change number => some (some number)
  | drill _ => none
  | unload => some none

/-- The number of the tool that is loaded behind some steps: that of the last change, none if
there is no change or the tool was put away since. -/
def loadedAfter (before : List (Step α)) : Option Nat :=
  (before.filterMap Step.takes?).getLast?.join

theorem loadedAfter_concat (before : List (Step α)) (s : Step α) :
    loadedAfter (before ++ [s]) = s.takes?.getD (loadedAfter before) := by
  unfold loadedAfter
  cases h : s.takes? <;> simp [h]

/-- What is wrong with a step behind others. -/
inductive Step.Offends (p : Program α) (before : List (Step α)) : Step α → Fault → Prop where
  | unknown {number : Nat} : ¬ p.tools.Has number →
      Offends p before (.change number) (.unknownTool number)
  | bare {hole : Point α} : loadedAfter before = none →
      Offends p before (.drill hole) .stepBeforeTool

/-- A loaded tool was taken by a change behind which there are only holes. -/
theorem exists_change_of_loadedAfter {before : List (Step α)} {number : Nat}
    (h : loadedAfter before = some number) :
    ∃ earlier since, before = earlier ++ .change number :: since ∧ ∀ s ∈ since, s.isDrill := by
  induction before using List.reverseRecOn with
  | nil => cases h
  | append_singleton front s ih =>
      rw [loadedAfter_concat] at h
      cases s with
      | change other =>
          cases h
          exact ⟨front, [], rfl, fun _ hs => absurd hs List.not_mem_nil⟩
      | drill hole =>
          obtain ⟨earlier, since, rfl, hsince⟩ := ih h
          refine ⟨earlier, since ++ [.drill hole], by simp, fun s hs => ?_⟩
          rcases List.mem_append.mp hs with hs | hs
          · exact hsince s hs
          · rw [List.mem_singleton.mp hs]
            rfl
      | unload => cases h

namespace Program

variable {p : Program α}

/-- No step offends. -/
def Clean (p : Program α) (steps : List (Step α)) : Prop :=
  ∀ before s after, steps = before ++ s :: after → ∀ fault, ¬ s.Offends p before fault

theorem clean_nil : p.Clean [] := fun before s after h => by simp at h

theorem Clean.of_append {first second : List (Step α)} (h : p.Clean (first ++ second)) :
    p.Clean first :=
  fun before s after hsplit => h before s (after ++ second) (by simp [hsplit])

theorem clean_concat {front : List (Step α)} {s : Step α} :
    p.Clean (front ++ [s]) ↔ p.Clean front ∧ ∀ fault, ¬ s.Offends p front fault :=
  forall_split_concat

/-- The tool that is loaded behind some steps. -/
def toolAfter (p : Program α) (before : List (Step α)) : Option (Tool α) :=
  (loadedAfter before).bind p.tools.get?

/-- The tool that is loaded behind a step, given the one before it. -/
def load (p : Program α) (loaded : Option (Tool α)) : Step α → Except Fault (Option (Tool α))
  | .change number => (p.tool number).map some
  | .drill _ => if loaded.isSome then .ok loaded else .error .stepBeforeTool
  | .unload => .ok none

theorem tool_of_get? {number : Nat} {tool : Tool α} (h : p.tools.get? number = some tool) :
    p.tool number = .ok tool := by
  rw [Program.tool, h]
  rfl

theorem tool_of_not_has {number : Nat} (h : ¬ p.tools.Has number) :
    p.tool number = .error (.unknownTool number) := by
  rw [ToolTable.has_iff, Option.not_isSome_iff_eq_none] at h
  rw [Program.tool, h]
  rfl

theorem Clean.exists_tool_of_change {before after : List (Step α)} {number : Nat}
    (h : p.Clean (before ++ .change number :: after)) :
    ∃ tool, p.tools.get? number = some tool := by
  have hhas : p.tools.Has number := by
    by_contra hnot
    exact h _ _ _ rfl _ (.unknown hnot)
  exact Option.isSome_iff_exists.mp (ToolTable.has_iff.mp hhas)

/-- Behind steps of which none offends, a tool is loaded if a number is. -/
theorem Clean.isSome_toolAfter {before : List (Step α)} (h : p.Clean before) :
    (p.toolAfter before).isSome ↔ (loadedAfter before).isSome := by
  induction before using List.reverseRecOn with
  | nil => simp [toolAfter, loadedAfter]
  | append_singleton front s ih =>
      rw [toolAfter, loadedAfter_concat]
      cases s with
      | change number =>
          obtain ⟨tool, htool⟩ := h.exists_tool_of_change
          simp [Step.takes?, htool]
      | drill hole => exact ih h.of_append
      | unload => simp [Step.takes?]

/-- Where no step offends, there is a tool for every hole. -/
theorem Clean.exists_tool {before after : List (Step α)} {hole : Point α}
    (h : p.Clean (before ++ .drill hole :: after)) : ∃ tool, p.toolAfter before = some tool := by
  rw [← Option.isSome_iff_exists, h.of_append.isSome_toolAfter, ← Option.ne_none_iff_isSome]
  exact fun hbare => h _ _ _ rfl _ (.bare hbare)

/-- A step behind others of which none offends is refused for what is wrong with it. -/
theorem load_eq_error_iff {before : List (Step α)} (hclean : p.Clean before) {s : Step α}
    {fault : Fault} : p.load (p.toolAfter before) s = .error fault ↔ s.Offends p before fault := by
  constructor
  · intro h
    cases s with
    | change number =>
        by_cases hhas : p.tools.Has number
        · obtain ⟨tool, htool⟩ := Option.isSome_iff_exists.mp (ToolTable.has_iff.mp hhas)
          rw [load, tool_of_get? htool] at h
          cases h
        · rw [load, tool_of_not_has hhas] at h
          cases h
          exact .unknown hhas
    | drill hole =>
        rw [load] at h
        split at h
        next => cases h
        next hnone =>
          cases h
          rw [hclean.isSome_toolAfter, Option.not_isSome_iff_eq_none] at hnone
          exact .bare hnone
    | unload => cases h
  · intro h
    cases h with
    | unknown hnot =>
        rw [load, tool_of_not_has hnot]
        rfl
    | bare hnone =>
        rw [load, toolAfter, hnone]
        rfl

/-- A step that does not offend leaves the tool loaded that the steps so far tell. -/
theorem load_eq_ok {before : List (Step α)} {s : Step α} (hclean : p.Clean (before ++ [s])) :
    p.load (p.toolAfter before) s = .ok (p.toolAfter (before ++ [s])) := by
  rw [toolAfter, toolAfter, loadedAfter_concat]
  cases s with
  | change number =>
      obtain ⟨tool, htool⟩ := hclean.exists_tool_of_change
      rw [load, tool_of_get? htool]
      exact congrArg Except.ok htool.symm
  | drill hole => exact if_pos (Option.isSome_iff_exists.mpr hclean.exists_tool)
  | unload => rfl

theorem load_eq_ok_iff {before : List (Step α)} (hbefore : p.Clean before) {s : Step α}
    {next : Option (Tool α)} :
    p.load (p.toolAfter before) s = .ok next ↔
      p.Clean (before ++ [s]) ∧ p.toolAfter (before ++ [s]) = next := by
  constructor
  · intro h
    have hclean : p.Clean (before ++ [s]) := by
      refine clean_concat.mpr ⟨hbefore, fun fault hoffends => ?_⟩
      rw [(load_eq_error_iff hbefore).mpr hoffends] at h
      cases h
    rw [load_eq_ok hclean] at h
    exact ⟨hclean, Except.ok.inj h⟩
  · rintro ⟨hclean, rfl⟩
    exact load_eq_ok hclean

/-- Exactly the steps of which none offends come through, and leave the tool loaded that they
tell. -/
theorem foldlM_load_eq_ok_iff {steps : List (Step α)} {loaded : Option (Tool α)} :
    steps.foldlM p.load none = .ok loaded ↔ p.Clean steps ∧ p.toolAfter steps = loaded := by
  induction steps using List.reverseRecOn generalizing loaded with
  | nil => simp [Clean, toolAfter, loadedAfter, pure, Except.pure]
  | append_singleton front s ih =>
      simp only [List.foldlM_append, List.foldlM_cons, List.foldlM_nil, bind_pure]
      rw [bind_eq_ok]
      constructor
      · rintro ⟨middle, hmiddle, hlast⟩
        obtain ⟨hfront, rfl⟩ := ih.mp hmiddle
        exact (load_eq_ok_iff hfront).mp hlast
      · intro h
        have hfront := (clean_concat.mp h.1).1
        exact ⟨p.toolAfter front, ih.mpr ⟨hfront, rfl⟩, (load_eq_ok_iff hfront).mpr h⟩

theorem map_foldlM_load_eq_ok_iff {β : Type} {steps : List (Step α)}
    {f : Option (Tool α) → β} {result : β} :
    (steps.foldlM p.load none).map f = .ok result ↔
      p.Clean steps ∧ f (p.toolAfter steps) = result := by
  constructor
  · intro h
    cases hload : steps.foldlM p.load none with
    | error fault =>
        rw [hload] at h
        cases h
    | ok loaded =>
        obtain ⟨hclean, rfl⟩ := foldlM_load_eq_ok_iff.mp hload
        rw [hload] at h
        exact ⟨hclean, Except.ok.inj h⟩
  · rintro ⟨hclean, rfl⟩
    rw [foldlM_load_eq_ok_iff.mpr ⟨hclean, rfl⟩]
    rfl

/-- Other steps stop at the first one that offends, for what is wrong with it. -/
theorem foldlM_load_eq_error_iff {steps : List (Step α)} {fault : Fault} :
    steps.foldlM p.load none = .error fault ↔
      ∃ before s after, steps = before ++ s :: after ∧ p.Clean before ∧
        s.Offends p before fault := by
  rw [foldlM_eq_error_iff]
  constructor
  · rintro ⟨before, s, after, middle, hsplit, hmiddle, hfault⟩
    obtain ⟨hclean, rfl⟩ := foldlM_load_eq_ok_iff.mp hmiddle
    exact ⟨before, s, after, hsplit, hclean, (load_eq_error_iff hclean).mp hfault⟩
  · rintro ⟨before, s, after, hsplit, hclean, hoffends⟩
    exact ⟨before, s, after, _, hsplit, foldlM_load_eq_ok_iff.mpr ⟨hclean, rfl⟩,
      (load_eq_error_iff hclean).mpr hoffends⟩

end Program

end BoardMill.Drill
