import BoardMill.Layer.Sliced
import BoardMill.Proofs.Layer.Names
import BoardMill.Proofs.Text.Slice

/-! # Slices of file names

The number of an inner layer stands behind a letter, or between what was found in front of it and
behind it, whatever characters the rest of a file name consists of.
-/

namespace BoardMill.LayerKind

open Slicing

variable {ε : Type}

/-- An extension of inner copper has one letter, and the number is behind it. -/
theorem ofExtensionSliced?_eq (extension : String) :
    (ofExtensionSliced? extension : Slicing ε _) = pure (ofExtension? extension) := by
  rw [ofExtensionSliced?]
  split
  next h =>
    simp only [innerExtensions, List.contains_eq_mem, List.mem_cons, List.not_mem_nil, or_false,
      decide_eq_true_iff] at h
    rcases h with rfl | rfl | rfl | rfl | rfl | rfl | rfl | rfl <;> rfl
  next => rfl

theorem innerNumberSliced?_eq (separator : String) (name : List Char) :
    (innerNumberSliced? separator name : Slicing ε _) = pure (innerNumber? separator name) := by
  rw [innerNumberSliced?, innerNumber?, findFirst?_eq]
  cases hfront : Text.beforeFirst? separator.toList name with
  | none => rfl
  | some front =>
      obtain ⟨back, rfl⟩ := exists_of_beforeFirst? hfront
      simp only [Option.map_some, before_append, pure_bind]
      cases hnumber : Text.behindLast? ['i', 'n'] front with
      | none =>
          rw [findLast?_eq_none hnumber]
          simp [hnumber]
      | some number =>
          obtain ⟨start, hparts, hlast⟩ := exists_of_behindLast? hnumber
          have hbehind := behind_append (ε := ε) (start ++ ['i', 'n']) number
          rw [List.append_assoc, ← hparts, byteLength_append] at hbehind
          have htwo : byteLength ['i', 'n'] = 2 := rfl
          rw [htwo] at hbehind
          simp only [hlast, hbehind, pure_bind, Option.bind_eq_bind, Option.bind_some, hnumber]

theorem innerNumbersSliced?_eq (name : List Char) :
    (innerNumbersSliced? name : Slicing ε _) =
      pure (innerNumber? "_cu" name <|> innerNumber? ".cu" name) := by
  rw [innerNumbersSliced?, innerNumberSliced?_eq, pure_bind]
  cases innerNumber? "_cu" name with
  | some n => rfl
  | none => exact innerNumberSliced?_eq ".cu" name

theorem ofWordsSliced_eq (name : List Char) :
    (ofWordsSliced name : Slicing ε _) = pure (ofWords name) := by
  unfold ofWordsSliced ofWords
  simp only [innerNumbersSliced?_eq, pure_bind]
  cases innerNumber? "_cu" name <|> innerNumber? ".cu" name
  all_goals
    dsimp only
    split_ifs <;> rfl

/-- The kind of any name in small letters is found without a misplaced cut. -/
theorem ofLoweredSliced_eq (name : List Char) :
    (ofLoweredSliced name : Slicing ε _) = pure (ofLowered name) := by
  rw [ofLoweredSliced, ofLowered]
  cases extension? name with
  | none => exact ofWordsSliced_eq name
  | some extension =>
      simp only [ofExtensionSliced?_eq, pure_bind, Option.bind_some]
      cases ofExtension? extension with
      | none => exact ofWordsSliced_eq name
      | some kind => rfl

theorem ofFileNameSliced_eq (path : String) :
    (ofFileNameSliced path : Slicing ε _) = pure (ofFileName path) := by
  rw [ofFileNameSliced, ofLoweredSliced_eq, ofFileName_eq]

end BoardMill.LayerKind
