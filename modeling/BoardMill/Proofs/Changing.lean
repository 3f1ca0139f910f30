import BoardMill.Changing

/-! # What work in place leaves

The outcome of work in place is told from the outcomes of its parts. Work that leaves the
state alone whenever it fails can go on after faults: what a sequence of it leaves is what
its items leave that did not fail.
-/

namespace BoardMill.Changing

variable {σ β γ ι : Type}

@[simp] theorem outcome_pure (value : β) (s : σ) :
    (pure value : Changing σ β).outcome s = (.ok value, s) :=
  rfl

@[simp] theorem outcome_throw (fault : Fault) (s : σ) :
    (throw fault : Changing σ β).outcome s = (.error fault, s) :=
  rfl

@[simp] theorem outcome_get (s : σ) : (get : Changing σ σ).outcome s = (.ok s, s) := rfl

@[simp] theorem outcome_set (next s : σ) :
    (set next : Changing σ PUnit).outcome s = (.ok ⟨⟩, next) :=
  rfl

@[simp] theorem outcome_modify (f : σ → σ) (s : σ) :
    (modify f : Changing σ PUnit).outcome s = (.ok ⟨⟩, f s) :=
  rfl

@[simp] theorem outcome_check (result : Except Fault β) (s : σ) :
    (check result : Changing σ β).outcome s = (result, s) := by
  cases result <;> rfl

theorem outcome_bind (x : Changing σ β) (next : β → Changing σ γ) (s : σ) :
    (x >>= next).outcome s =
      match x.outcome s with
      | (.ok value, later) => (next value).outcome later
      | (.error fault, later) => (.error fault, later) := by
  change ExceptT.bindCont next (x.outcome s).1 (x.outcome s).2 = _
  rcases x.outcome s with ⟨_ | _, later⟩ <;> rfl

@[simp] theorem outcome_get_bind (next : σ → Changing σ γ) (s : σ) :
    (get >>= next).outcome s = (next s).outcome s := by
  rw [outcome_bind, outcome_get]

theorem outcome_forM_cons (work : ι → Changing σ Unit) (item : ι) (rest : List ι) (s : σ) :
    (forM (item :: rest) work : Changing σ Unit).outcome s =
      match (work item).outcome s with
      | (.ok _, later) => (forM rest work : Changing σ Unit).outcome later
      | (.error fault, later) => (.error fault, later) := by
  refine (outcome_bind (work item) (fun _ => forM rest work) s).trans ?_
  rcases (work item).outcome s with ⟨_ | _, later⟩ <;> rfl

/-- Work that only changes the state for each item comes through. -/
theorem outcome_forM_modify (f : ι → σ → σ) (items : List ι) (s : σ) :
    (forM items fun item => (modify (f item) : Changing σ Unit)).outcome s =
      (.ok (), items.foldl (fun s item => f item s) s) := by
  induction items generalizing s with
  | nil => rfl
  | cons item rest ih =>
      rw [outcome_forM_cons, outcome_modify]
      exact ih (f item s)

/-- The outcome of work that changes a state at once, or not at all. -/
def settle (s : σ) : Except Fault σ → Except Fault Unit × σ
  | .ok next => (.ok (), next)
  | .error fault => (.error fault, s)

theorem settle_eq_error {s later : σ} {result : Except Fault σ} {fault : Fault}
    (h : settle s result = (.error fault, later)) : later = s := by
  cases result with
  | ok next => cases h
  | error own => exact (congrArg Prod.snd h).symm

/-! ## Going on after faults -/

/-- The items whose work does not fail, if it goes on after faults. -/
def accepted (work : ι → Changing σ Unit) (s : σ) : List ι → List ι
  | [] => []
  | item :: rest =>
    match (work item).outcome s with
    | (.ok _, later) => item :: accepted work later rest
    | (.error _, later) => accepted work later rest

variable {work : ι → Changing σ Unit} {s : σ}

/-- If a fault never leaves a trace, the items that do not fail come through on their own, and
leave what all items leave. -/
theorem outcome_accepted {P : σ → Prop}
    (hkeeps : ∀ item s, P s → P ((work item).outcome s).2)
    (hatomic : ∀ item s fault later, P s → (work item).outcome s = (.error fault, later) →
      later = s)
    (hs : P s) (items : List ι) :
    (forM (accepted work s items) work : Changing σ Unit).outcome s =
      (.ok (), persist work s items) := by
  induction items generalizing s with
  | nil => rfl
  | cons item rest ih =>
      have hnext := hkeeps item s hs
      rw [accepted, persist]
      rcases hwork : (work item).outcome s with ⟨result, later⟩
      rw [hwork] at hnext
      cases result with
      | ok _ =>
          dsimp only
          rw [outcome_forM_cons, hwork]
          exact ih hnext
      | error fault =>
          obtain rfl := hatomic item s fault later hs hwork
          exact ih hs

end BoardMill.Changing
