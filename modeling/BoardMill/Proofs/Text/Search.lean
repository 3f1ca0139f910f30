import BoardMill.Text.Search
import Mathlib.Data.List.Basic

/-! # Searching next to a mark

A pattern without a mark in it does not reach across the mark. So what is found in a text with a
mark is found in front of it or behind it.
-/

namespace BoardMill.Text

/-! ## Patterns -/

section Patterns

variable {pattern : List Char}

/-- A pattern is not found where one of its characters is missing. -/
theorem contains_of_not_mem {c : Char} (hc : c ∈ pattern) {text : List Char} (h : c ∉ text) :
    contains pattern text = false := by
  induction text with
  | nil => simpa [contains] using List.ne_nil_of_mem hc
  | cons head rest ih =>
      have hprefix : pattern.isPrefixOf (head :: rest) = false := by
        rw [Bool.eq_false_iff, Ne, List.isPrefixOf_iff_prefix]
        exact fun hfound => h (hfound.subset hc)
      rw [contains, hprefix, ih fun hmem => h (List.mem_cons_of_mem _ hmem), Bool.or_false]

theorem isSome_beforeFirst? (text : List Char) :
    (beforeFirst? pattern text).isSome = contains pattern text := by
  induction text with
  | nil => cases pattern <;> rfl
  | cons c rest ih =>
      rw [beforeFirst?, contains]
      cases pattern.isPrefixOf (c :: rest) with
      | true => rfl
      | false => simp [ih]

theorem beforeFirst?_of_not_contains {text : List Char} (h : contains pattern text = false) :
    beforeFirst? pattern text = none := by
  rw [← Option.not_isSome_iff_eq_none, isSome_beforeFirst?, h]
  decide

theorem behindLast?_cons (c : Char) (rest : List Char) :
    behindLast? pattern (c :: rest) = (behindLast? pattern rest).or
      (if pattern.isPrefixOf (c :: rest) then some ((c :: rest).drop pattern.length)
        else none) := by
  rw [behindLast?]
  cases behindLast? pattern rest <;> rfl

variable {mark : Char} (hpattern : pattern ≠ []) (h : mark ∉ pattern)

include h in
theorem isPrefixOf_append_cons (before after : List Char) :
    pattern.isPrefixOf (before ++ mark :: after) = pattern.isPrefixOf before := by
  induction pattern generalizing before with
  | nil => simp
  | cons p rest ih =>
      obtain ⟨hmark, hrest⟩ := not_or.mp (List.mem_cons.not.mp h)
      cases before with
      | nil => simp [List.isPrefixOf, Ne.symm hmark]
      | cons c before => rw [List.cons_append, List.isPrefixOf, List.isPrefixOf, ih hrest]

include h in
theorem isPrefixOf_cons_append_cons (c : Char) (before after : List Char) :
    pattern.isPrefixOf (c :: (before ++ mark :: after)) = pattern.isPrefixOf (c :: before) :=
  isPrefixOf_append_cons h (c :: before) after

include hpattern h

theorem isPrefixOf_mark (after : List Char) : pattern.isPrefixOf (mark :: after) = false := by
  have hprefix := isPrefixOf_append_cons h [] after
  cases pattern with
  | nil => exact absurd rfl hpattern
  | cons => exact hprefix

theorem contains_append_cons (before after : List Char) :
    contains pattern (before ++ mark :: after) =
      (contains pattern before || contains pattern after) := by
  have hnil : contains pattern [] = false := by simpa [contains] using hpattern
  induction before with
  | nil =>
      change (pattern.isPrefixOf (mark :: after) || _) = _
      rw [isPrefixOf_mark hpattern h, hnil]
  | cons c before ih =>
      rw [List.cons_append, contains, isPrefixOf_cons_append_cons h, ih, contains, Bool.or_assoc]

theorem beforeFirst?_append_cons (before after : List Char) :
    beforeFirst? pattern (before ++ mark :: after) =
      (beforeFirst? pattern before).or
        ((beforeFirst? pattern after).map fun front => before ++ mark :: front) := by
  have hnil : beforeFirst? pattern [] = none := by simpa [beforeFirst?] using hpattern
  induction before with
  | nil =>
      change (if pattern.isPrefixOf (mark :: after) then _ else _) = _
      rw [isPrefixOf_mark hpattern h, hnil]
      rfl
  | cons c before ih =>
      rw [List.cons_append, beforeFirst?, isPrefixOf_cons_append_cons h, ih, beforeFirst?]
      cases pattern.isPrefixOf (c :: before) with
      | true => rfl
      | false => cases beforeFirst? pattern before <;> cases beforeFirst? pattern after <;> rfl

theorem behindLast?_append_cons (before after : List Char) :
    behindLast? pattern (before ++ mark :: after) =
      (behindLast? pattern after).or
        ((behindLast? pattern before).map fun rest => rest ++ mark :: after) := by
  have hnil : behindLast? pattern [] = none := by simpa [behindLast?] using hpattern
  induction before with
  | nil =>
      rw [List.nil_append, behindLast?_cons, isPrefixOf_mark hpattern h, hnil]
      rfl
  | cons c before ih =>
      rw [List.cons_append, behindLast?_cons, isPrefixOf_cons_append_cons h, ih, behindLast?_cons,
        Option.or_assoc]
      cases behindLast? pattern before with
      | some behind => rfl
      | none =>
          cases hfound : pattern.isPrefixOf (c :: before) with
          | false => rfl
          | true =>
              -- What is found in front of the mark goes on up to the end of the text.
              have hlength : pattern.length ≤ (c :: before).length :=
                (List.isPrefixOf_iff_prefix.mp hfound).length_le
              have hdrop : (c :: before ++ mark :: after).drop pattern.length =
                  (c :: before).drop pattern.length ++ mark :: after :=
                List.drop_append_of_le_length hlength
              exact congrArg (fun rest => (behindLast? pattern after).or (some rest)) hdrop

end Patterns

section FirstCharacters

variable {first : Char} {pattern text : List Char} (h : first ∉ text)
include h

theorem beforeFirst?_append_of_not_mem (after : List Char) :
    beforeFirst? (first :: pattern) (text ++ (first :: pattern ++ after)) = some text := by
  induction text with
  | nil => simp [beforeFirst?]
  | cons c rest ih =>
      obtain ⟨hc, hrest⟩ := not_or.mp (List.mem_cons.not.mp h)
      rw [List.cons_append, beforeFirst?, ih hrest]
      simp [List.isPrefixOf, hc]

theorem behindLast?_of_not_mem : behindLast? (first :: pattern) text = none := by
  induction text with
  | nil => rfl
  | cons c rest ih =>
      obtain ⟨hc, hrest⟩ := not_or.mp (List.mem_cons.not.mp h)
      rw [behindLast?_cons, ih hrest]
      simp [List.isPrefixOf, hc]

end FirstCharacters

/-! ## Parts behind a mark -/

section Parts

variable {mark : Char} {text : List Char}

theorem lastPart_append_of_not_mem (h : mark ∉ text) (before : List Char) :
    lastPart mark (before ++ text) = lastPart mark before ++ text := by
  have hall : ∀ c ∈ text.reverse, (c != mark) = true := fun c hc =>
    bne_iff_ne.mpr fun hmark => h (hmark ▸ List.mem_reverse.mp hc)
  rw [lastPart, List.reverse_append, List.takeWhile_append_of_pos hall, List.reverse_append,
    List.reverse_reverse, lastPart]

theorem lastPart_of_not_mem (h : mark ∉ text) : lastPart mark text = text :=
  lastPart_append_of_not_mem h []

theorem lastPart_append_cons (h : mark ∉ text) (before : List Char) :
    lastPart mark (before ++ mark :: text) = text := by
  have hmark : lastPart mark (before ++ [mark]) = [] := by simp [lastPart]
  rw [List.append_cons, lastPart_append_of_not_mem h, hmark, List.nil_append]

end Parts

end BoardMill.Text
