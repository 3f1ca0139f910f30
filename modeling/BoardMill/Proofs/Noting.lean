import BoardMill.Noting
import BoardMill.Proofs.Outcome
import Mathlib.Tactic.Choose

/-! # Results of computations that leave notices

What a computation returns can be told from its steps, whatever the effects it runs among.
Without other effects, what was left before has no influence on it: its result is that of a
computation that leaves nothing, and its notices stand behind those that were there.
-/

namespace BoardMill

namespace NotingT

variable {m : Type → Type} [Monad m] {β γ : Type} {P : β → Prop}

/-- A computation returns only what has a property: it does the same as one that hands out its
results together with the proof. -/
def Returns (P : β → Prop) (x : NotingT m β) : Prop :=
  ∃ proven : NotingT m {value // P value}, x = Subtype.val <$> proven

variable [LawfulMonad m]

namespace Returns

theorem pure {value : β} (h : P value) : Returns P (Pure.pure value : NotingT m β) :=
  ⟨Pure.pure ⟨value, h⟩, by rw [map_pure]⟩

theorem throw (fault : Fault) : Returns P (MonadExcept.throw fault : NotingT m β) := by
  refine ⟨MonadExcept.throw fault, ExceptT.ext ?_⟩
  rw [ExceptT.run_map, ExceptT.run_throw, ExceptT.run_throw, map_pure]
  rfl

theorem any (x : NotingT m β) : Returns (fun _ => True) x := by
  refine ⟨(⟨·, trivial⟩) <$> x, ?_⟩
  rw [Functor.map_map]
  exact (id_map x).symm

theorem bind {Q : γ → Prop} {x : NotingT m γ} {next : γ → NotingT m β} (hx : Returns Q x)
    (hnext : ∀ value, Q value → Returns P (next value)) : Returns P (x >>= next) := by
  obtain ⟨first, rfl⟩ := hx
  choose proven hproven using hnext
  refine ⟨first >>= fun value => proven value.1 value.2, ?_⟩
  rw [map_bind, bind_map_left]
  exact bind_congr fun value => hproven value.1 value.2

theorem ofExcept {result : Except Fault β} (h : ∀ value, result = .ok value → P value) :
    Returns P (NotingT.ofExcept result : NotingT m β) := by
  cases result with
  | ok value => exact .pure (h value rfl)
  | error fault => exact .throw fault

theorem imp {Q : β → Prop} {x : NotingT m β} (hx : Returns P x) (h : ∀ value, P value → Q value) :
    Returns Q x := by
  obtain ⟨proven, rfl⟩ := hx
  refine ⟨(fun value => ⟨value.1, h value.1 value.2⟩) <$> proven, ?_⟩
  rw [Functor.map_map]

/-- A loop returns what its steps return. -/
theorem mapM {step : γ → NotingT m β} (hstep : ∀ item, Returns P (step item)) (items : List γ) :
    Returns (fun values => ∀ value ∈ values, P value) (items.mapM step) := by
  induction items with
  | nil =>
      rw [List.mapM_nil]
      exact .pure fun _ h => absurd h List.not_mem_nil
  | cons item rest ih =>
      rw [List.mapM_cons]
      exact .bind (hstep item) fun _ hfirst => .bind ih fun _ hrest =>
        .pure (List.forall_mem_cons.mpr ⟨hfirst, hrest⟩)

omit [LawfulMonad m] in
theorem ite {c : Prop} [Decidable c] {x y : NotingT m β} (hx : Returns P x) (hy : Returns P y) :
    Returns P (if c then x else y) := by
  split
  · exact hx
  · exact hy

end Returns

omit [LawfulMonad m] in
/-- What comes of two computations one after the other. -/
theorem run_bind (x : NotingT m β) (next : β → NotingT m γ) (notices : List Notice) :
    (x >>= next).run.run notices = x.run.run notices >>= fun
      | (.ok value, later) => (next value).run.run later
      | (.error fault, later) => Pure.pure (.error fault, later) := by
  rw [ExceptT.run_bind, StateT.run_bind]
  refine bind_congr fun (result, later) => ?_
  cases result with
  | ok value => rfl
  | error fault => exact StateT.run_pure _ _

theorem run_note (own notices : List Notice) :
    (note own : NotingT m Unit).run.run notices = Pure.pure (.ok (), notices ++ own) := by
  change (ExceptT.lift (modify (· ++ own) : StateT (List Notice) m PUnit)).run.run notices = _
  rw [ExceptT.run_lift, StateT.run_map, StateT.run_modify, map_pure]

/-- An effect fails nothing and leaves no notice. -/
theorem run_liftM (effect : m β) (notices : List Notice) :
    (liftM effect : NotingT m β).run.run notices =
      (fun value => (.ok value, notices)) <$> effect := by
  change (ExceptT.lift (StateT.lift effect)).run.run notices = _
  rw [ExceptT.run_lift, StateT.run_map, StateT.run_lift, map_bind]
  simp

/-- An effect with a result fails with the fault of the result and leaves no notice. -/
theorem run_liftM_ofExcept (effect : m (Except Fault β)) (notices : List Notice) :
    (liftM effect >>= ofExcept : NotingT m β).run.run notices =
      (fun result => (result, notices)) <$> effect := by
  rw [run_bind, run_liftM, bind_map_left, map_eq_pure_bind]
  refine bind_congr fun result => ?_
  cases result <;> rfl

/-- A loop whose steps do not fail does their effects one after the other. -/
theorem run_mapM {step : γ → NotingT m β} {effect : γ → m β} {own : γ → Notice} {items : List γ}
    (h : ∀ item ∈ items, ∀ notices, (step item).run.run notices =
      (fun value => (.ok value, notices ++ [own item])) <$> effect item) (notices : List Notice) :
    (items.mapM step).run.run notices =
      (fun values => (.ok values, notices ++ items.map own)) <$> items.mapM effect := by
  induction items generalizing notices with
  | nil =>
      rw [List.mapM_nil, List.mapM_nil, map_pure, List.map_nil, List.append_nil]
      rfl
  | cons item rest ih =>
      obtain ⟨hitem, hrest⟩ := List.forall_mem_cons.mp h
      rw [List.mapM_cons, List.mapM_cons, run_bind, hitem, bind_map_left, map_bind]
      refine bind_congr fun value => ?_
      dsimp only
      rw [run_bind, ih hrest, bind_map_left, map_bind]
      refine bind_congr fun values => ?_
      rw [map_pure, List.map_cons, List.append_assoc]
      rfl

theorem outcome_map (f : β → γ) (x : NotingT m β) :
    (f <$> x).outcome = (fun (result, notices) => (result.map f, notices)) <$> x.outcome := by
  unfold outcome
  rw [ExceptT.run_map, StateT.run_map]

end NotingT

open NotingT

variable {β γ : Type}

theorem NotingT.of_map_val {P : β → Prop} {result : Except Fault {value // P value}} {value : β}
    (h : result.map Subtype.val = .ok value) : P value := by
  cases result with
  | error fault => cases h
  | ok found =>
      cases h
      exact found.2

theorem NotingT.Returns.of_outcome {P : β → Prop} {x : Noting β} (h : Returns P x) {value : β}
    (hvalue : x.outcome.1 = .ok value) : P value := by
  obtain ⟨proven, rfl⟩ := h
  rw [outcome_map] at hvalue
  exact of_map_val hvalue

theorem NotingT.Returns.of_run {σ : Type} {P : β → Prop} {x : NotingT (StateM σ) β}
    (h : Returns P x) {s : σ} {value : β} (hvalue : (x.outcome.run s).1.1 = .ok value) :
    P value := by
  obtain ⟨proven, rfl⟩ := h
  rw [outcome_map] at hvalue
  exact of_map_val hvalue

/-- Among other effects a computation returns what it returns without them. -/
theorem NotingT.Returns.lift {m : Type → Type} [Monad m] [LawfulMonad m] {P : β → Prop}
    {x : Noting β} (h : Returns P x) : Returns P (x.lift : NotingT m β) :=
  .bind (.any _) fun _ _ => .ofExcept fun _ hvalue => h.of_outcome hvalue

namespace Noting

/-- Notices left before have no influence on a computation, and stay in front of its own. -/
def Appends (x : Noting β) : Prop :=
  ∀ notices, x.run.run notices = (x.outcome.1, notices ++ x.outcome.2)

namespace Appends

theorem pure (value : β) : Appends (Pure.pure value : Noting β) := fun notices =>
  Prod.ext rfl (List.append_nil notices).symm

theorem throw (fault : Fault) : Appends (MonadExcept.throw fault : Noting β) := fun notices =>
  Prod.ext rfl (List.append_nil notices).symm

theorem note (notices : List Notice) : Appends (NotingT.note notices) := fun _ => rfl

theorem ofExcept (result : Except Fault β) : Appends (NotingT.ofExcept result) := by
  cases result with
  | ok value => exact .pure value
  | error fault => exact .throw fault

theorem ite {c : Prop} [Decidable c] {x y : Noting β} (hx : Appends x) (hy : Appends y) :
    Appends (if c then x else y) := by
  split
  · exact hx
  · exact hy

end Appends

theorem outcome_bind (x : Noting β) {next : β → Noting γ} (hnext : ∀ value, Appends (next value)) :
    (x >>= next).outcome.1 = x.outcome.1 >>= fun value => (next value).outcome.1 := by
  change ((x >>= next).run.run []).1 = (x.run.run []).1 >>= _
  rw [run_bind]
  rcases x.run.run [] with ⟨result, later⟩
  cases result with
  | ok value =>
      change ((next value).run.run later).1 = (next value).outcome.1
      rw [hnext value later]
  | error fault => rfl

theorem Appends.bind {x : Noting β} {next : β → Noting γ} (hx : Appends x)
    (hnext : ∀ value, Appends (next value)) : Appends (x >>= next) := by
  intro notices
  unfold outcome
  rw [run_bind, run_bind, hx notices, hx []]
  obtain ⟨result, own⟩ := x.outcome
  cases result with
  | error fault => rfl
  | ok value =>
      change (next value).run.run (notices ++ own) = (((next value).run.run ([] ++ own)).1,
        notices ++ ((next value).run.run ([] ++ own)).2)
      rw [hnext value (notices ++ own), hnext value ([] ++ own), List.nil_append,
        List.append_assoc]

theorem Appends.mapM {step : β → Noting γ} (hstep : ∀ item, Appends (step item)) (items : List β) :
    Appends (items.mapM step) := by
  induction items with
  | nil => exact .pure []
  | cons item rest ih =>
      rw [List.mapM_cons]
      exact (hstep item).bind fun _ => ih.bind fun _ => .pure _

/-- What comes of a loop is told from what comes of its steps. -/
theorem outcome_mapM {step : β → Noting γ} (hstep : ∀ item, Appends (step item)) (items : List β) :
    (items.mapM step).outcome.1 = items.mapM fun item => (step item).outcome.1 := by
  induction items with
  | nil => rfl
  | cons item rest ih =>
      rw [List.mapM_cons, List.mapM_cons,
        outcome_bind _ fun _ => (Appends.mapM hstep rest).bind fun _ => .pure _]
      refine bind_congr fun value => ?_
      rw [outcome_bind _ fun _ => .pure _, ih]
      rfl

/-! ## Failures -/

/-- A computation fails with no other faults than some. -/
def FailsOnly (P : Fault → Prop) (x : Noting β) : Prop :=
  ∀ notices fault, (x.run.run notices).1 = .error fault → P fault

namespace FailsOnly

variable {P : Fault → Prop}

theorem pure (value : β) : FailsOnly P (Pure.pure value : Noting β) := fun _ _ h => nomatch h

theorem throw {fault : Fault} (h : P fault) : FailsOnly P (MonadExcept.throw fault : Noting β) :=
  fun _ _ hfault => Except.error.inj hfault ▸ h

theorem note (notices : List Notice) : FailsOnly P (NotingT.note notices) := fun _ _ h => nomatch h

theorem bind {x : Noting β} {next : β → Noting γ} (hx : FailsOnly P x)
    (hnext : ∀ value, FailsOnly P (next value)) : FailsOnly P (x >>= next) := by
  intro notices fault h
  rw [run_bind] at h
  have hfirst := hx notices
  generalize x.run.run notices = first at h hfirst
  obtain ⟨result, later⟩ := first
  cases result with
  | ok value => exact hnext value later fault h
  | error other =>
      obtain rfl : other = fault := Except.error.inj h
      exact hfirst other rfl

theorem ofExcept {result : Except Fault β} (h : ∀ fault, result = .error fault → P fault) :
    FailsOnly P (NotingT.ofExcept result : Noting β) := by
  cases result with
  | ok value => exact .pure value
  | error fault => exact .throw (h fault rfl)

theorem ite {c : Prop} [Decidable c] {x y : Noting β} (hx : FailsOnly P x) (hy : FailsOnly P y) :
    FailsOnly P (if c then x else y) := by
  split
  · exact hx
  · exact hy

theorem of_outcome {x : Noting β} (h : FailsOnly P x) {fault : Fault}
    (hfault : x.outcome.1 = .error fault) : P fault :=
  h [] fault hfault

end FailsOnly

end Noting

end BoardMill
