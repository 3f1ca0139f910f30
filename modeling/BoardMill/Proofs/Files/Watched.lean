import BoardMill.Files.Tree
import BoardMill.Noting
import Mathlib.Tactic.Choose

/-! # Watched file trees

A file tree under watch remembers what it refused: the files that could not be written and the
directories that could not be made. A computation that only looks at the tree comes to the same
with and without watch, and leaves both the tree and the memory alone.
-/

namespace BoardMill

/-- Effects on files, together with the errors of what was refused. -/
abbrev Watched (m : Type → Type) := StateT (List FileError) m

namespace Watched

variable {m : Type → Type} [Monad m] [Files m]

/-- Remembers what was refused. -/
def remember : Except FileError Unit → Watched m (Except FileError Unit)
  | .ok _ => return .ok ()
  | .error error => do
    modify (· ++ [error])
    return .error error

instance : Files (Watched m) where
  isPresent path := liftM (Files.isPresent path : m _)
  isDirectory path := liftM (Files.isDirectory path : m _)
  read path := liftM (Files.read path : m _)
  write path bytes := do remember (← liftM (Files.write path bytes : m _))
  makeDirectory path := do remember (← liftM (Files.makeDirectory path : m _))

variable {β γ : Type}

/-! ## Looking -/

/-- Two computations, the first one under watch, that come to the same from looking at the tree. -/
def Looks (watched : Watched (StateM FileTree) β) (plain : StateM FileTree β) : Prop :=
  ∃ seen : FileTree → β,
    (∀ refused tree, (watched.run refused).run tree = ((seen tree, refused), tree)) ∧
    ∀ tree, plain.run tree = (seen tree, tree)

namespace Looks

theorem pure (value : β) : Looks (Pure.pure value) (Pure.pure value) :=
  ⟨fun _ => value, fun _ _ => rfl, fun _ => rfl⟩

theorem bind {watched : Watched (StateM FileTree) β} {plain : StateM FileTree β}
    {watchedNext : β → Watched (StateM FileTree) γ} {plainNext : β → StateM FileTree γ}
    (h : Looks watched plain) (hnext : ∀ value, Looks (watchedNext value) (plainNext value)) :
    Looks (watched >>= watchedNext) (plain >>= plainNext) := by
  obtain ⟨seen, hwatched, hplain⟩ := h
  choose seenNext hwatchedNext hplainNext using hnext
  refine ⟨fun tree => seenNext (seen tree) tree, fun refused tree => ?_, fun tree => ?_⟩
  · rw [StateT.run_bind, StateT.run_bind, hwatched]
    exact hwatchedNext (seen tree) refused tree
  · rw [StateT.run_bind, hplain]
    exact hplainNext (seen tree) tree

theorem map (f : β → γ) {watched : Watched (StateM FileTree) β} {plain : StateM FileTree β}
    (h : Looks watched plain) : Looks (f <$> watched) (f <$> plain) := by
  rw [map_eq_pure_bind, map_eq_pure_bind]
  exact h.bind fun value => pure (f value)

theorem isPresent (path : String) :
    Looks (Files.isPresent path) (Files.isPresent path) :=
  ⟨fun tree => (tree.find? path.toList).isSome, fun _ _ => rfl, fun _ => rfl⟩

theorem read (path : String) : Looks (Files.read path) (Files.read path) :=
  ⟨fun tree => tree.read path.toList, fun _ _ => rfl, fun _ => rfl⟩

theorem readText (path : String) : Looks (Files.readText path) (Files.readText path) := by
  refine (read path).bind fun result => ?_
  cases result with
  | error error => exact .pure _
  | ok bytes => cases hbytes : Utf8.decode? bytes.data.toList <;> simp [hbytes, pure]

end Looks

/-! ## Writing -/

/-- Two computations, the first one under watch, that do the same to the tree and come to the same,
and fail exactly if something is refused. -/
def Writes (failed : β → Prop) (watched : Watched (StateM FileTree) β)
    (plain : StateM FileTree β) : Prop :=
  ∀ refused tree, ∃ value later after,
    (watched.run refused).run tree = ((value, later), after) ∧ plain.run tree = (value, after) ∧
    (failed value ↔ later ≠ refused)

namespace Writes

variable {failed : β → Prop} {failedNext : γ → Prop}

theorem pure {value : β} (h : ¬ failed value) :
    Writes failed (Pure.pure value) (Pure.pure value) := fun refused tree =>
  ⟨value, refused, tree, rfl, rfl, by simp [h]⟩

/-- What follows a failure does nothing but fail. -/
theorem bind {watched : Watched (StateM FileTree) β} {plain : StateM FileTree β}
    {watchedNext : β → Watched (StateM FileTree) γ} {plainNext : β → StateM FileTree γ}
    (h : Writes failed watched plain)
    (hstop : ∀ value, failed value → ∃ result, failedNext result ∧
      watchedNext value = Pure.pure result ∧ plainNext value = Pure.pure result)
    (hnext : ∀ value, ¬ failed value →
      Writes failedNext (watchedNext value) (plainNext value)) :
    Writes failedNext (watched >>= watchedNext) (plain >>= plainNext) := by
  intro refused tree
  obtain ⟨value, later, after, hwatched, hplain, hfailed⟩ := h refused tree
  rw [StateT.run_bind, StateT.run_bind, StateT.run_bind, hwatched, hplain]
  by_cases hvalue : failed value
  · obtain ⟨result, hresult, hwatchedNext, hplainNext⟩ := hstop value hvalue
    refine ⟨result, later, after, ?_, ?_, by simp [hresult, hfailed.mp hvalue]⟩
    · exact congrArg (fun next => (next.run later).run after) hwatchedNext
    · exact congrArg (fun next => next.run after) hplainNext
  · obtain rfl : later = refused := not_not.mp fun hne => hvalue (hfailed.mpr hne)
    exact hnext value hvalue later after

theorem write (path : String) (bytes : ByteArray) :
    Writes (fun result => ∃ error, result = .error error) (Files.write path bytes)
      (Files.write path bytes) := by
  intro refused tree
  have hplain : (Files.write path bytes : StateM FileTree _).run tree =
      tree.update (tree.write path.toList bytes) := rfl
  have hwatched : ((Files.write path bytes : Watched (StateM FileTree) _).run refused).run tree =
      let (result, after) := tree.update (tree.write path.toList bytes)
      ((remember result : Watched (StateM FileTree) _).run refused).run after := rfl
  rw [hwatched, hplain]
  cases tree.write path.toList bytes with
  | ok after => exact ⟨.ok (), refused, after, rfl, rfl, by simp⟩
  | error error => exact ⟨.error error, refused ++ [error], tree, rfl, rfl, by simp⟩

end Writes

/-! ## Taking care -/

/-- Two computations, the first one under watch, that do the same to the tree and come to the same,
and that leave the tree alone if they fail although nothing is refused. -/
def Careful (failed : β → Prop) (watched : Watched (StateM FileTree) β)
    (plain : StateM FileTree β) : Prop :=
  ∀ refused tree, ∃ value later after,
    (watched.run refused).run tree = ((value, later), after) ∧ plain.run tree = (value, after) ∧
    (failed value → later = refused → after = tree)

theorem Looks.careful {failed : β → Prop} {watched : Watched (StateM FileTree) β}
    {plain : StateM FileTree β} (h : Looks watched plain) : Careful failed watched plain := by
  obtain ⟨seen, hwatched, hplain⟩ := h
  exact fun refused tree => ⟨seen tree, refused, tree, hwatched refused tree, hplain tree,
    fun _ _ => rfl⟩

theorem Writes.careful {failed : β → Prop} {watched : Watched (StateM FileTree) β}
    {plain : StateM FileTree β} (h : Writes failed watched plain) :
    Careful failed watched plain := by
  intro refused tree
  obtain ⟨value, later, after, hwatched, hplain, hfailed⟩ := h refused tree
  exact ⟨value, later, after, hwatched, hplain, fun hvalue hlater =>
    absurd hlater (hfailed.mp hvalue)⟩

/-- Looking first and then taking care of what was seen is taking care. -/
theorem Looks.bind_careful {failed : γ → Prop} {watched : Watched (StateM FileTree) β}
    {plain : StateM FileTree β} {watchedNext : β → Watched (StateM FileTree) γ}
    {plainNext : β → StateM FileTree γ} (h : Looks watched plain)
    (hnext : ∀ value, (∃ tree, (plain.run tree).1 = value) →
      Careful failed (watchedNext value) (plainNext value)) :
    Careful failed (watched >>= watchedNext) (plain >>= plainNext) := by
  intro refused tree
  obtain ⟨seen, hwatched, hplain⟩ := h
  rw [StateT.run_bind, StateT.run_bind, StateT.run_bind, hwatched, hplain]
  exact hnext (seen tree) ⟨tree, congrArg Prod.fst (hplain tree)⟩ refused tree

end Watched

end BoardMill
