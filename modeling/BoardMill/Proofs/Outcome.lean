import BoardMill.Fault

/-! # Outcomes of computations

A computation that may fail comes through exactly if all of its steps do, and otherwise
fails as the first step that fails.
-/

namespace BoardMill.Outcome

variable {ε β γ : Type}

theorem bind_eq_ok {first : Except ε β} {next : β → Except ε γ} {result : γ} :
    first >>= next = .ok result ↔ ∃ value, first = .ok value ∧ next value = .ok result := by
  cases first <;> simp [bind, Except.bind]

theorem bind_eq_error {first : Except ε β} {next : β → Except ε γ} {fault : ε} :
    first >>= next = .error fault ↔
      first = .error fault ∨ ∃ value, first = .ok value ∧ next value = .error fault := by
  cases first <;> simp [bind, Except.bind]

theorem isOk_iff {result : Except ε β} : result.isOk = true ↔ ∃ value, result = .ok value := by
  cases result <;> simp [Except.isOk, Except.toBool]

theorem toOption_eq_some_iff {result : Except ε β} {value : β} :
    result.toOption = some value ↔ result = .ok value := by
  cases result <;> simp [Except.toOption]

theorem exists_of_any_toOption {result : Except ε β} {accepts : β → Bool}
    (h : result.toOption.any accepts = true) :
    ∃ value, result = .ok value ∧ accepts value = true := by
  cases result with
  | error fault => cases h
  | ok value => exact ⟨value, rfl, h⟩

/-- A loop fails as its first step that fails, behind steps that come through. -/
theorem foldlM_eq_error_iff {step : γ → β → Except ε γ} {s : γ} {items : List β} {fault : ε} :
    items.foldlM step s = .error fault ↔
      ∃ before item after middle, items = before ++ item :: after ∧
        before.foldlM step s = .ok middle ∧ step middle item = .error fault := by
  induction items generalizing s with
  | nil => simp [pure, Except.pure]
  | cons first rest ih =>
      rw [List.foldlM_cons, bind_eq_error]
      constructor
      · rintro (hfault | ⟨next, hnext, hfault⟩)
        · exact ⟨[], first, rest, s, rfl, rfl, hfault⟩
        · obtain ⟨before, item, after, middle, rfl, hmiddle, hfault⟩ := ih.mp hfault
          refine ⟨first :: before, item, after, middle, rfl, ?_, hfault⟩
          rw [List.foldlM_cons]
          exact bind_eq_ok.mpr ⟨next, hnext, hmiddle⟩
      · rintro ⟨before, item, after, middle, hsplit, hmiddle, hfault⟩
        rcases List.cons_eq_append_iff.mp hsplit with ⟨rfl, hsplit⟩ | ⟨before, rfl, rfl⟩
        · cases hsplit
          cases hmiddle
          exact .inl hfault
        · rw [List.foldlM_cons] at hmiddle
          obtain ⟨next, hnext, hmiddle⟩ := bind_eq_ok.mp hmiddle
          exact .inr ⟨next, hnext, ih.mpr ⟨before, item, after, middle, rfl, hmiddle, hfault⟩⟩

/-- A loop that comes through does so up to every item, at the item, and behind it. -/
theorem exists_of_foldlM_split {step : γ → β → Except ε γ} {s last : γ} {before after : List β}
    {item : β} (h : (before ++ item :: after).foldlM step s = .ok last) :
    ∃ middle next, before.foldlM step s = .ok middle ∧ step middle item = .ok next ∧
      after.foldlM step next = .ok last := by
  rw [List.foldlM_append] at h
  obtain ⟨middle, hmiddle, h⟩ := bind_eq_ok.mp h
  rw [List.foldlM_cons] at h
  obtain ⟨next, hnext, h⟩ := bind_eq_ok.mp h
  exact ⟨middle, next, hmiddle, hnext, h⟩

/-- A loop comes through from a related state too if each of its steps does. -/
theorem exists_foldlM_of_rel {δ : Type} {R : γ → δ → Prop} {step : γ → β → Except ε γ}
    {other : δ → β → Except ε δ}
    (hstep : ∀ s t item next, R s t → step s item = .ok next →
      ∃ behind, other t item = .ok behind ∧ R next behind)
    {items : List β} {s last : γ} {t : δ} (hst : R s t) (h : items.foldlM step s = .ok last) :
    ∃ behind, items.foldlM other t = .ok behind ∧ R last behind := by
  induction items generalizing s t with
  | nil =>
      cases h
      exact ⟨t, rfl, hst⟩
  | cons item rest ih =>
      rw [List.foldlM_cons] at h
      obtain ⟨next, hnext, hrest⟩ := bind_eq_ok.mp h
      obtain ⟨middle, hmiddle, hrel⟩ := hstep s t item next hst hnext
      obtain ⟨behind, hbehind, hlast⟩ := ih hrel hrest
      refine ⟨behind, ?_, hlast⟩
      rw [List.foldlM_cons]
      exact bind_eq_ok.mpr ⟨middle, hmiddle, hbehind⟩

/-- A loop that collects results comes through if all of its steps do. -/
theorem mapM_eq_ok_iff {step : β → Except ε γ} {items : List β} {values : List γ} :
    items.mapM step = .ok values ↔ items.map step = values.map .ok := by
  induction items generalizing values with
  | nil => cases values <;> simp [pure, Except.pure]
  | cons item rest ih =>
      rw [List.mapM_cons, bind_eq_ok]
      constructor
      · rintro ⟨value, hvalue, h⟩
        obtain ⟨others, hothers, h⟩ := bind_eq_ok.mp h
        cases h
        rw [List.map_cons, List.map_cons, hvalue, ih.mp hothers]
      · intro h
        cases values with
        | nil => cases h
        | cons value others =>
            obtain ⟨hvalue, hothers⟩ := List.cons_eq_cons.mp h
            exact ⟨value, hvalue, bind_eq_ok.mpr ⟨others, ih.mpr hothers, rfl⟩⟩

/-- What holds for the results of a step holds for all results of a loop. -/
theorem forall_mem_of_mapM {P : γ → Prop} {step : β → Except ε γ}
    (hstep : ∀ item value, step item = .ok value → P value) {items : List β}
    {values : List γ} (h : items.mapM step = .ok values) : ∀ value ∈ values, P value := by
  intro value hvalue
  have hmem := List.mem_map_of_mem (f := Except.ok (ε := ε)) hvalue
  rw [← mapM_eq_ok_iff.mp h, List.mem_map] at hmem
  obtain ⟨item, -, hitem⟩ := hmem
  exact hstep item value hitem

/-- What a loop that comes through finds is what its steps find. -/
theorem mem_filterMap_of_mapM {step : β → Except ε (Option γ)} {items : List β}
    {found : List (Option γ)} (h : items.mapM step = .ok found) {value : γ} :
    value ∈ found.filterMap id ↔ ∃ item ∈ items, step item = .ok (some value) := by
  have hsteps : Except.ok (some value) ∈ items.map step ↔ some value ∈ found := by
    simp [mapM_eq_ok_iff.mp h]
  rw [← List.mem_map, hsteps]
  simp

/-- A loop that collects results fails as its first step that fails. -/
theorem mapM_eq_error_iff {step : β → Except ε γ} {items : List β} {fault : ε} :
    items.mapM step = .error fault ↔
      ∃ before item after, items = before ++ item :: after ∧
        (∀ earlier ∈ before, ∃ value, step earlier = .ok value) ∧ step item = .error fault := by
  induction items with
  | nil => simp [pure, Except.pure]
  | cons first rest ih =>
      rw [List.mapM_cons, bind_eq_error]
      constructor
      · rintro (hfault | ⟨value, hvalue, hfault⟩)
        · exact ⟨[], first, rest, rfl, nofun, hfault⟩
        · rcases bind_eq_error.mp hfault with hfault | ⟨_, _, hfault⟩
          · obtain ⟨before, item, after, rfl, hbefore, hitem⟩ := ih.mp hfault
            exact ⟨first :: before, item, after, rfl,
              List.forall_mem_cons.mpr ⟨⟨value, hvalue⟩, hbefore⟩, hitem⟩
          · cases hfault
      · rintro ⟨before, item, after, hsplit, hbefore, hitem⟩
        rcases List.cons_eq_append_iff.mp hsplit with ⟨rfl, hsplit⟩ | ⟨before, rfl, rfl⟩
        · cases hsplit
          exact .inl hitem
        · obtain ⟨⟨value, hvalue⟩, hbefore⟩ := List.forall_mem_cons.mp hbefore
          exact .inr ⟨value, hvalue,
            bind_eq_error.mpr (.inl (ih.mpr ⟨before, item, after, rfl, hbefore, hitem⟩))⟩

/-- Why a computation fails, if it does. -/
def failure? : Except Fault β → Option Fault
  | .ok _ => none
  | .error fault => some fault

@[simp] theorem failure?_error (fault : Fault) :
    failure? (.error fault : Except Fault β) = some fault :=
  rfl

@[simp] theorem failure?_map (f : β → γ) (result : Except Fault β) :
    failure? (result.map f) = failure? result := by
  cases result <;> rfl

theorem failure?_eq_some {result : Except Fault β} {fault : Fault} :
    failure? result = some fault ↔ result = .error fault := by
  cases result <;> simp [failure?]

theorem failure?_eq_none {result : Except Fault Unit} :
    failure? result = none ↔ result = .ok () := by
  cases result <;> simp [failure?]

theorem failure?_inj {first second : Except Fault Unit} :
    failure? first = failure? second ↔ first = second := by
  cases first <;> cases second <;> simp [failure?]

end BoardMill.Outcome
