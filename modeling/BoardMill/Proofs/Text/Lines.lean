import BoardMill.Text.Lines
import Mathlib.Data.List.Basic

/-! # Lines of a text

Pieces that are written with a mark behind each are read back as these pieces. If the
text was cut off, the pieces up to the cut are read back, and what is left is the
beginning of the next one.
-/

namespace BoardMill.Text

variable {α : Type}

/-- Pieces with a mark behind each. -/
def marked (mark : α) (pieces : List (List α)) : List α := pieces.flatMap (· ++ [mark])

/-- The piece behind the last mark, if there is any. -/
def unfinished (rest : List α) : List (List α × Bool) := if rest.isEmpty then [] else [(rest, false)]

theorem ne_true_of_mem_unfinished {rest : List α} {entry : List α × Bool}
    (h : entry ∈ unfinished rest) : entry.2 ≠ true := by
  unfold unfinished at h
  split at h
  · exact absurd h List.not_mem_nil
  · rw [List.mem_singleton.mp h]
    exact Bool.false_ne_true

/-- Only the last piece can be unfinished. -/
theorem mem_of_mem_dropLast_unfinished {pieces : List (List α × Bool)} {rest : List α}
    {entry : List α × Bool} (h : entry ∈ (pieces ++ unfinished rest).dropLast) :
    entry ∈ pieces := by
  unfold unfinished at h
  split at h
  · rw [List.append_nil] at h
    exact List.dropLast_subset _ h
  · rwa [List.dropLast_concat] at h

theorem marked_cons (mark : α) (piece : List α) (pieces : List (List α)) :
    marked mark (piece :: pieces) = piece ++ mark :: marked mark pieces := by
  simp [marked]

variable [BEq α] [LawfulBEq α] {mark : α}

theorem splitOn_marked (pieces : List (List α)) (rest : List α) :
    (marked mark pieces ++ rest).splitOn mark =
      pieces.flatMap (·.splitOn mark) ++ rest.splitOn mark := by
  induction pieces with
  | nil => rfl
  | cons piece pieces ih =>
      rw [marked_cons, List.append_assoc, List.cons_append, List.splitOn_append_cons_self, ih,
        List.flatMap_cons, List.append_assoc]

/-- Whatever marks they hold themselves, pieces with a mark behind each are read back as what
they are split into. -/
theorem terminated_marked_splitOn (pieces : List (List α)) :
    terminated mark (marked mark pieces) = (pieces.flatMap (·.splitOn mark)).map (·, true) := by
  rw [terminated, ← List.append_nil (marked mark pieces), splitOn_marked, List.splitOn_nil,
    List.reverse_append]
  simp

theorem not_mem_of_mem_splitOn {text piece : List α} (h : piece ∈ text.splitOn mark) :
    mark ∉ piece := by
  induction text generalizing piece with
  | nil =>
      rw [List.splitOn_nil, List.mem_singleton] at h
      rw [h]
      exact List.not_mem_nil
  | cons c text ih =>
      rw [List.splitOn_cons_eq_if_modifyHead] at h
      split at h
      · rcases List.mem_cons.mp h with rfl | h
        · exact List.not_mem_nil
        · exact ih h
      next hc =>
        obtain ⟨first, rest, hsplit⟩ := List.exists_cons_of_ne_nil (List.splitOn_ne_nil mark text)
        rw [hsplit, List.modifyHead_cons] at h
        rcases List.mem_cons.mp h with rfl | h
        · rw [List.mem_cons, not_or]
          exact ⟨fun heq => hc (by simp [heq]), ih (by rw [hsplit]; exact List.mem_cons_self)⟩
        · exact ih (by rw [hsplit]; exact List.mem_cons_of_mem _ h)

omit [LawfulBEq α] in
theorem terminated_of_splitOn {text rest : List α} {pieces : List (List α)}
    (h : text.splitOn mark = pieces ++ [rest]) :
    terminated mark text = pieces.map (·, true) ++ unfinished rest := by
  rw [terminated, h, List.reverse_append]
  simp [unfinished]

omit [LawfulBEq α] in
theorem exists_terminated (mark : α) (text : List α) :
    ∃ pieces rest, text.splitOn mark = pieces ++ [rest] ∧
      terminated mark text = pieces.map (·, true) ++ unfinished rest := by
  rcases List.eq_nil_or_concat (text.splitOn mark) with hnil | ⟨pieces, rest, hpieces⟩
  · exact absurd hnil (List.splitOn_ne_nil _ _)
  · rw [List.concat_eq_append] at hpieces
    exact ⟨pieces, rest, hpieces, terminated_of_splitOn hpieces⟩

/-- A text is its pieces with a mark behind each, and the last one without. -/
theorem eq_marked_append {text rest : List α} {pieces : List (List α)}
    (h : text.splitOn mark = pieces ++ [rest]) : text = marked mark pieces ++ rest := by
  have hjoin (pieces : List (List α)) :
      [mark].intercalate (pieces ++ [rest]) = marked mark pieces ++ rest := by
    induction pieces with
    | nil => exact List.intercalate_singleton
    | cons piece pieces ih =>
        obtain ⟨next, others, hnext⟩ := List.exists_cons_of_ne_nil
          (List.append_ne_nil_of_right_ne_nil pieces (List.cons_ne_nil rest []))
        rw [List.cons_append, hnext, List.intercalate_cons_cons, ← hnext, ih, marked_cons]
        simp
  calc text = [mark].intercalate (text.splitOn mark) := (List.intercalate_splitOn mark).symm
    _ = marked mark pieces ++ rest := by rw [h, hjoin]

theorem splitOn_marked_append {pieces : List (List α)} {rest : List α}
    (hpieces : ∀ piece ∈ pieces, mark ∉ piece) (hrest : mark ∉ rest) :
    (marked mark pieces ++ rest).splitOn mark = pieces ++ [rest] := by
  induction pieces with
  | nil => exact List.splitOn_eq_singleton hrest
  | cons piece pieces ih =>
      obtain ⟨hpiece, hothers⟩ := List.forall_mem_cons.mp hpieces
      rw [marked_cons, List.append_assoc, List.cons_append,
        List.splitOn_append_cons_self_of_not_mem hpiece, ih hothers, List.cons_append]

/-- Pieces with a mark behind each, and a last one without, are read back. -/
theorem terminated_marked_append {pieces : List (List α)} {rest : List α}
    (hpieces : ∀ piece ∈ pieces, mark ∉ piece) (hrest : mark ∉ rest) :
    terminated mark (marked mark pieces ++ rest) = pieces.map (·, true) ++ unfinished rest := by
  rw [terminated, splitOn_marked_append hpieces hrest, List.reverse_append]
  simp [unfinished]

/-- Pieces with a mark behind each are read back. -/
theorem terminated_marked {pieces : List (List α)} (hpieces : ∀ piece ∈ pieces, mark ∉ piece) :
    terminated mark (marked mark pieces) = pieces.map (·, true) := by
  simpa [unfinished] using terminated_marked_append hpieces List.not_mem_nil

/-- The pieces before one of them have their marks, and are those of a text of their own. -/
theorem terminated_marked_split {text : List α} {above below : List (List α × Bool)}
    {piece : List α × Bool} (h : terminated mark text = above ++ piece :: below) :
    terminated mark (marked mark (above.map Prod.fst)) = above := by
  obtain ⟨pieces, rest, hsplit, hread⟩ := exists_terminated mark text
  have hfront : above <+: pieces.map (·, true) := by
    rw [hread] at h
    rcases List.append_eq_append_iff.mp h with ⟨later, rfl, hlater⟩ | ⟨later, hpieces, -⟩
    · unfold unfinished at hlater
      split at hlater
      · simp at hlater
      · cases later with
        | nil => exact ⟨[], by rw [List.append_nil, List.append_nil]⟩
        | cons first later => simp at hlater
    · exact ⟨later, hpieces.symm⟩
  obtain ⟨n, hn⟩ : ∃ n, above = (pieces.take n).map (·, true) :=
    ⟨above.length, by rw [List.map_take]; exact List.prefix_iff_eq_take.mp hfront⟩
  have hfirst : above.map Prod.fst = pieces.take n := by
    rw [hn, List.map_map]
    exact List.map_id _
  have hpieces : ∀ p ∈ pieces.take n, mark ∉ p := by
    intro p hp
    have hmem : p ∈ text.splitOn mark := by
      rw [hsplit]
      exact List.mem_append_left _ (List.take_subset n pieces hp)
    exact not_mem_of_mem_splitOn hmem
  rw [hfirst, terminated_marked hpieces, hn]

omit [BEq α] [LawfulBEq α] in
/-- Marked pieces that were cut off consist of the first of them and the beginning of the
next one. -/
theorem exists_of_prefix_marked {pieces : List (List α)} {text : List α}
    (h : text <+: marked mark pieces) (hne : text ≠ marked mark pieces) :
    ∃ before next after rest, pieces = before ++ next :: after ∧
      text = marked mark before ++ rest ∧ rest <+: next := by
  induction pieces generalizing text with
  | nil => exact absurd (List.prefix_nil.mp h) hne
  | cons piece pieces ih =>
      rw [marked_cons, ← List.singleton_append, ← List.append_assoc] at h
      rcases List.prefix_or_prefix_of_prefix h (List.prefix_append _ _) with hshort | hlong
      · rcases List.prefix_concat_iff.mp hshort with rfl | hpart
        -- The text stops right behind a mark, so nothing of the next piece is there.
        · cases pieces with
          | nil => exact absurd (by simp [marked]) hne
          | cons next pieces =>
              exact ⟨[piece], next, pieces, [], rfl, by simp [marked], List.nil_prefix⟩
        · exact ⟨[], piece, pieces, text, rfl, rfl, hpart⟩
      · obtain ⟨more, rfl⟩ := hlong
        have hmore : more ≠ marked mark pieces := by
          rintro rfl
          simp [marked_cons] at hne
        obtain ⟨before, next, after, rest, hpieces, htext, hrest⟩ :=
          ih ((List.prefix_append_right_inj _).mp h) hmore
        refine ⟨piece :: before, next, after, rest, by rw [hpieces, List.cons_append], ?_, hrest⟩
        rw [htext, marked_cons]
        simp

/-- What is read of marked pieces that were cut off: the first of them, and the beginning
of the next one. -/
theorem exists_terminated_of_cut {pieces : List (List α)} {text : List α}
    (hpieces : ∀ piece ∈ pieces, mark ∉ piece) (h : text <+: marked mark pieces)
    (hne : text ≠ marked mark pieces) :
    ∃ before next after rest, pieces = before ++ next :: after ∧ rest <+: next ∧
      terminated mark text = before.map (·, true) ++ unfinished rest := by
  obtain ⟨before, next, after, rest, rfl, rfl, hrest⟩ := exists_of_prefix_marked h hne
  refine ⟨before, next, after, rest, rfl, hrest, ?_⟩
  refine terminated_marked_append (fun piece hp => hpieces piece (List.mem_append_left _ hp)) ?_
  intro hmem
  exact hpieces next (List.mem_append_right _ List.mem_cons_self) (hrest.subset hmem)

end BoardMill.Text
