import Mathlib.Data.List.Induction

/-! # Splits of a list

A claim about every item and the items before it holds of a list with one more item at its
end if it holds of the list, and of the new item.
-/

namespace BoardMill

variable {β : Type}

theorem split_concat {front before after : List β} {last item : β}
    (h : front ++ [last] = before ++ item :: after) :
    (front = before ∧ last = item ∧ after = []) ∨
      ∃ later, front = before ++ item :: later ∧ after = later ++ [last] := by
  rcases List.eq_nil_or_concat after with rfl | ⟨later, other, rfl⟩
  · obtain ⟨hfront, hlast⟩ := List.append_inj' h rfl
    exact .inl ⟨hfront, List.singleton_inj.mp hlast, rfl⟩
  · rw [List.concat_eq_append, ← List.cons_append, ← List.append_assoc] at h
    obtain ⟨hfront, hlast⟩ := List.append_inj' h rfl
    refine .inr ⟨later, hfront, ?_⟩
    rw [List.concat_eq_append, hlast]

/-- What has a property at the front of a list ends where an item without it stands. -/
theorem takeWhile_dropWhile_append {p : β → Bool} {front rest : List β}
    (hfront : ∀ b ∈ front, p b = true) (hstop : ∀ b ∈ rest.head?, p b = false) :
    (front ++ rest).takeWhile p = front ∧ (front ++ rest).dropWhile p = rest := by
  rw [List.takeWhile_append_of_pos hfront, List.dropWhile_append_of_pos hfront]
  cases rest with
  | nil => exact ⟨List.append_nil front, rfl⟩
  | cons b tail =>
      have hb : ¬ p b = true := Bool.eq_false_iff.mp (hstop b rfl)
      rw [List.takeWhile_cons_of_neg hb, List.dropWhile_cons_of_neg hb]
      exact ⟨List.append_nil front, rfl⟩

theorem forall_split_cons {P : List β → β → Prop} {first : β} {rest : List β} :
    (∀ before b after, first :: rest = before ++ b :: after → P before b) ↔
      P [] first ∧ ∀ before b after, rest = before ++ b :: after → P (first :: before) b := by
  constructor
  · intro h
    refine ⟨h [] first rest rfl, fun before b after hsplit => ?_⟩
    exact h (first :: before) b after (by rw [hsplit, List.cons_append])
  · rintro ⟨hfirst, hrest⟩ before b after hsplit
    rcases List.cons_eq_append_iff.mp hsplit with ⟨rfl, hsplit⟩ | ⟨before, rfl, rfl⟩
    · cases hsplit
      exact hfirst
    · exact hrest before b after rfl

theorem forall_split_append {P : List β → β → Prop} {first second : List β} :
    (∀ before b after, first ++ second = before ++ b :: after → P before b) ↔
      (∀ before b after, first = before ++ b :: after → P before b) ∧
        ∀ before b after, second = before ++ b :: after → P (first ++ before) b := by
  induction first generalizing P with
  | nil => simp
  | cons item first ih =>
      rw [List.cons_append, forall_split_cons, forall_split_cons, ih, and_assoc]
      rfl

theorem forall_split_concat {P : List β → β → Prop} {front : List β} {last : β} :
    (∀ before b after, front ++ [last] = before ++ b :: after → P before b) ↔
      (∀ before b after, front = before ++ b :: after → P before b) ∧ P front last := by
  constructor
  · intro h
    refine ⟨fun before b after hsplit => ?_, h front last [] rfl⟩
    exact h before b (after ++ [last]) (by simp [hsplit])
  · rintro ⟨hfront, hlast⟩ before b after hsplit
    rcases split_concat hsplit with ⟨rfl, rfl, -⟩ | ⟨later, rfl, -⟩
    · exact hlast
    · exact hfront before b later rfl

/-- A relation that holds between every item and those before it holds pairwise. -/
theorem pairwise_iff_forall_split {R : β → β → Prop} {items : List β} :
    items.Pairwise R ↔ ∀ before b after, items = before ++ b :: after → ∀ a ∈ before, R a b := by
  induction items using List.reverseRecOn with
  | nil => simp
  | append_singleton front last ih =>
      rw [List.pairwise_append, ih, forall_split_concat]
      simp

end BoardMill
