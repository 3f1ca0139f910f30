import BoardMill.Files.Tree
import BoardMill.Proofs.Noting
import BoardMill.Proofs.Outcome
import BoardMill.Proofs.Text.Utf8

/-! # Looking at a file tree

What a computation that only looks at a file tree comes to is told without effects, from what it
sees there. A file that is there need not give a text.
-/

namespace BoardMill

/-! ## Texts of files -/

namespace FileTree

/-- The text of a file. -/
def text (t : FileTree) (path : String) : Except Fault (List Char) :=
  match t.read path.toList with
  | .error error => .error (.ofFile error)
  | .ok bytes =>
    match Utf8.decode? bytes.data.toList with
    | some text => .ok text
    | none => .error .notText

theorem run_readText (t : FileTree) (path : String) :
    (Files.readText path : StateM FileTree _).run t = (t.text path, t) := by
  have hread : (Files.read path : StateM FileTree _).run t = (t.read path.toList, t) := rfl
  rw [Files.readText, StateT.run_bind, hread, text]
  cases t.read path.toList with
  | error error => rfl
  | ok bytes =>
      refine (pure_bind (m := Id) (Except.ok bytes, t) _).trans ?_
      dsimp only
      cases Utf8.decode? bytes.data.toList <;> rfl

/-- What is wrong with a file that is there and gives no text: it cannot be read, or its bytes are
not those of a text. -/
inductive Refuses (t : FileTree) (path : String) : String → Prop where
  | unread {error : FileError} : (t.find? path.toList).isSome = true →
      t.read path.toList = .error error → Refuses t path error.message
  | notText {bytes : ByteArray} : t.read path.toList = .ok bytes →
      (∀ text, bytes.data.toList ≠ Utf8.encode text) →
      Refuses t path "stream did not contain valid UTF-8"

variable {t : FileTree} {path : String} {reason : String}

theorem isSome_find?_of_read {path : List Char} {bytes : ByteArray} (h : t.read path = .ok bytes) :
    (t.find? path).isSome = true := by
  obtain ⟨place, hplace, h⟩ := Outcome.bind_eq_ok.mp h
  rw [find?, hplace]
  dsimp only
  cases hentry : t.entry? place with
  | some entry => rfl
  | none =>
      rw [hentry] at h
      cases h

theorem refuses_iff :
    t.Refuses path reason ↔
      (t.find? path.toList).isSome = true ∧ t.text path = .error (.fileAccess reason) := by
  constructor
  · intro h
    cases h with
    | unread hfound hread => exact ⟨hfound, by rw [text, hread]; rfl⟩
    | notText hread hbytes =>
        refine ⟨isSome_find?_of_read hread, ?_⟩
        rw [text, hread]
        dsimp only
        rw [Utf8.decode?_eq_none_iff.mpr hbytes]
        rfl
  · rintro ⟨hfound, htext⟩
    unfold text at htext
    split at htext
    next error hread =>
      cases htext
      exact .unread hfound hread
    next bytes hread =>
      split at htext
      · cases htext
      next hdecode =>
        cases htext
        exact .notText hread (Utf8.decode?_eq_none_iff.mp hdecode)

end FileTree

/-! ## Computations -/

namespace NotingT

variable {β γ : Type} {tree : FileTree}

/-- A computation only looks at a file tree, and comes to what one without effects comes to. -/
def Sees (tree : FileTree) (x : NotingT (StateM FileTree) β) (seen : Noting β) : Prop :=
  ∀ notices, (x.run.run notices).run tree = (seen.run.run notices, tree)

namespace Sees

theorem pure (value : β) : Sees tree (Pure.pure value) (Pure.pure value) := fun _ => rfl

theorem throw (fault : Fault) :
    Sees tree (MonadExcept.throw fault : NotingT _ β) (MonadExcept.throw fault) :=
  fun _ => rfl

theorem bind {x : NotingT (StateM FileTree) β} {seen : Noting β}
    {next : β → NotingT (StateM FileTree) γ} {seenNext : β → Noting γ}
    (h : Sees tree x seen) (hnext : ∀ value, Sees tree (next value) (seenNext value)) :
    Sees tree (x >>= next) (seen >>= seenNext) := by
  intro notices
  rw [run_bind, run_bind, StateT.run_bind, h notices]
  rcases seen.run.run notices with ⟨result, later⟩
  cases result with
  | ok value => exact hnext value later
  | error fault => rfl

/-- What follows an effect is given what it finds in the tree. -/
theorem look {effect : StateM FileTree β} {found : β} {next : β → NotingT (StateM FileTree) γ}
    {seen : Noting γ} (h : effect.run tree = (found, tree)) (hnext : Sees tree (next found) seen) :
    Sees tree (liftM effect >>= next) seen := by
  intro notices
  rw [run_bind, run_liftM, bind_map_left, StateT.run_bind, h]
  exact hnext notices

theorem ite {c : Prop} [Decidable c] {x y : NotingT (StateM FileTree) β} {seenX seenY : Noting β}
    (hx : Sees tree x seenX) (hy : Sees tree y seenY) :
    Sees tree (if c then x else y) (if c then seenX else seenY) := by
  split
  · exact hx
  · exact hy

theorem ofExcept (result : Except Fault β) :
    Sees tree (NotingT.ofExcept result) (NotingT.ofExcept result) := by
  cases result with
  | ok value => exact .pure value
  | error fault => exact .throw fault

theorem lift {x : Noting β} (h : Noting.Appends x) : Sees tree x.lift x := by
  intro notices
  rw [h notices]
  unfold Noting.lift
  rcases x.outcome with ⟨result, own⟩
  cases result <;> rfl

theorem mapM {step : γ → NotingT (StateM FileTree) β} {seen : γ → Noting β}
    (h : ∀ item, Sees tree (step item) (seen item)) (items : List γ) :
    Sees tree (items.mapM step) (items.mapM seen) := by
  induction items with
  | nil => exact .pure []
  | cons item rest ih =>
      rw [List.mapM_cons, List.mapM_cons]
      exact (h item).bind fun _ => ih.bind fun _ => .pure _

theorem run_outcome {x : NotingT (StateM FileTree) β} {seen : Noting β} (h : Sees tree x seen) :
    x.outcome.run tree = (seen.outcome, tree) :=
  h []

end Sees

end NotingT

end BoardMill
