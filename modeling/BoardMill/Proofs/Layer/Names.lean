import BoardMill.Layer.Identification
import BoardMill.Proofs.Decimal.Reading
import BoardMill.Proofs.Text.Search
import Mathlib.Data.List.Induction

/-! # Kinds by the endings of names

The name of a file of a board ends in the part that tells its layer, behind a dash. Words are
looked for in the whole name, though, in a fixed order. So the kind is that of the ending, unless
what stands in front of it has words in it that are looked for earlier.
-/

namespace BoardMill.LayerKind

open Decimal (readWord32? toDigits maxWord32)
open Text (contains beforeFirst? behindLast?)

/-! ## Words -/

def topWords : List String := ["f_cu", "f.cu", "front_cu"]

def bottomWords : List String := ["b_cu", "b.cu", "back_cu"]

/-- Whether one of some words occurs in a name. -/
def names (words : List String) (name : List Char) : Bool :=
  words.any fun word => contains word.toList name

/-- The number of inner copper in a name. -/
def innerIn? (name : List Char) : Option Nat :=
  (innerNumber? "_cu" name).or (innerNumber? ".cu" name)

/-- The kind by the words that are looked for last. -/
def ofLastWords (name : List Char) : LayerKind :=
  let has (pattern : String) : Bool := contains pattern.toList name
  if has "edge_cuts" || has "edge.cuts" || has "boardoutline" then outline
  else if has "copper" && has "top" then copperTop
  else if has "copper" && has "bottom" then copperBottom
  else if has "outline" || has "profile" then outline
  else other

def lastWords : List String :=
  ["edge_cuts", "edge.cuts", "boardoutline", "copper", "top", "bottom", "outline", "profile"]

theorem ofLastWords_congr {name other : List Char}
    (h : ∀ word ∈ lastWords, contains word.toList name = contains word.toList other) :
    ofLastWords name = ofLastWords other := by
  simp only [lastWords, List.forall_mem_cons] at h
  obtain ⟨hedge, hpointed, hboard, hcopper, htop, hbottom, houtline, hprofile, -⟩ := h
  simp only [ofLastWords, hedge, hpointed, hboard, hcopper, htop, hbottom, houtline, hprofile]

theorem ofWords_eq (name : List Char) :
    ofWords name =
      if names topWords name then copperTop
      else if names bottomWords name then copperBottom
      else ((innerIn? name).map inner).getD (ofLastWords name) := by
  have hinner : innerIn? name = (innerNumber? "_cu" name <|> innerNumber? ".cu" name) :=
    Option.or_eq_orElse
  have hwords (first second third : String) :
      names [first, second, third] name =
        (contains first.toList name || contains second.toList name ||
          contains third.toList name) := by
    simp [names, Bool.or_assoc]
  rw [hinner, topWords, bottomWords, hwords, hwords]
  unfold ofWords
  cases innerNumber? "_cu" name <|> innerNumber? ".cu" name <;> rfl

section Dash

variable (front rest : List Char)

/-- Words without a dash stand in front of a dash or behind it. -/
theorem names_append_cons {words : List String}
    (h : ∀ word ∈ words, word.toList ≠ [] ∧ '-' ∉ word.toList) :
    names words (front ++ '-' :: rest) = (names words front || names words rest) := by
  have hword : ∀ word ∈ words, (contains word.toList (front ++ '-' :: rest) = true ↔
      contains word.toList front = true ∨ contains word.toList rest = true) := fun word hmem => by
    rw [Text.contains_append_cons (h word hmem).1 (h word hmem).2, Bool.or_eq_true]
  rw [Bool.eq_iff_iff, Bool.or_eq_true]
  simp only [names, List.any_eq_true, ← exists_or, ← and_or_left]
  exact exists_congr fun word => and_congr_right (hword word)

theorem names_topWords_append_cons :
    names topWords (front ++ '-' :: rest) = (names topWords front || names topWords rest) :=
  names_append_cons front rest (by decide)

theorem names_bottomWords_append_cons :
    names bottomWords (front ++ '-' :: rest) =
      (names bottomWords front || names bottomWords rest) :=
  names_append_cons front rest (by decide)

/-- The number at the end of a text, behind the last `in`. -/
def lastNumber? (text : List Char) : Option Nat := (behindLast? ['i', 'n'] text).bind readWord32?

theorem innerNumber?_eq (separator : String) (name : List Char) :
    innerNumber? separator name = (beforeFirst? separator.toList name).bind lastNumber? := rfl

/-- A number does not reach across a dash. -/
theorem lastNumber?_append_cons : lastNumber? (front ++ '-' :: rest) = lastNumber? rest := by
  have hdash (part : List Char) : readWord32? (part ++ '-' :: rest) = none :=
    Decimal.readWord32?_eq_none (List.mem_append_right _ List.mem_cons_self) (by decide) rfl
  unfold lastNumber?
  rw [Text.behindLast?_append_cons (by decide) (by decide)]
  cases behindLast? ['i', 'n'] rest with
  | some behind => rfl
  | none =>
      cases behindLast? ['i', 'n'] front with
      | some behind => exact hdash behind
      | none => rfl

theorem innerNumber?_append_cons {separator : String} (hempty : separator.toList ≠ [])
    (hdash : '-' ∉ separator.toList) :
    innerNumber? separator (front ++ '-' :: rest) =
      if contains separator.toList front then innerNumber? separator front
      else innerNumber? separator rest := by
  rw [innerNumber?_eq, Text.beforeFirst?_append_cons hempty hdash, innerNumber?_eq,
    innerNumber?_eq, ← Text.isSome_beforeFirst?]
  cases beforeFirst? separator.toList front with
  | some before => rfl
  | none =>
      cases beforeFirst? separator.toList rest with
      | none => rfl
      | some before => exact lastNumber?_append_cons front before

theorem innerNumber?_of_not_contains {separator : String}
    (h : contains separator.toList front = false) : innerNumber? separator front = none := by
  rw [innerNumber?_eq, Text.beforeFirst?_of_not_contains h]
  rfl

theorem innerNumber?_append_of_none {separator : String} (hempty : separator.toList ≠ [])
    (hdash : '-' ∉ separator.toList) (hrest : innerNumber? separator rest = none) :
    innerNumber? separator (front ++ '-' :: rest) = innerNumber? separator front := by
  rw [innerNumber?_append_cons front rest hempty hdash, hrest]
  cases hcontains : contains separator.toList front with
  | true => rfl
  | false => exact (innerNumber?_of_not_contains front hcontains).symm

end Dash

/-! ## Names in small letters -/

/-- The kind that a name in small letters gives, by its extension or by its words. -/
def ofLowered (name : List Char) : LayerKind :=
  ((extension? name).bind ofExtension?).getD (ofWords name)

theorem extension?_append {extension : List Char} (h : '.' ∉ extension) (front : List Char) :
    extension? (front ++ '.' :: extension) = some (String.ofList extension) := by
  have hpoint : (front ++ '.' :: extension).contains '.' = true := by simp
  rw [LayerKind.extension?, if_pos hpoint, Text.lastPart_append_cons h]

variable (front : List Char)

theorem ofLowered_drl : ofLowered (front ++ ".drl".toList) = drills := by
  have hextension : extension? (front ++ ".drl".toList) = some "drl" :=
    extension?_append (by decide) front
  rw [ofLowered, hextension]
  rfl

/-- Words stand in front of the dash or behind it, inner copper as a whole. -/
theorem ofLowered_dash (part : List Char) {rest : List Char}
    (hrest : rest = part ++ ".gbr".toList) :
    ofLowered (front ++ '-' :: rest) =
      if names topWords front || names topWords rest then copperTop
      else if names bottomWords front || names bottomWords rest then copperBottom
      else ((innerIn? (front ++ '-' :: rest)).map inner).getD
        (ofLastWords (front ++ '-' :: rest)) := by
  have hextension : extension? (front ++ '-' :: rest) = some "gbr" := by
    have happend := extension?_append (by decide : '.' ∉ "gbr".toList) (front ++ '-' :: part)
    rw [List.append_assoc] at happend
    rwa [hrest]
  rw [ofLowered, hextension, ← names_topWords_append_cons,
    ← names_bottomWords_append_cons, ← ofWords_eq]
  rfl

theorem ofLowered_front : ofLowered (front ++ "-f_cu.gbr".toList) = copperTop := by
  have htop : names topWords "f_cu.gbr".toList = true := by decide
  have hkind := ofLowered_dash front "f_cu".toList (rfl : "f_cu.gbr".toList = _)
  rw [htop, Bool.or_true, if_pos rfl] at hkind
  exact hkind

theorem ofLowered_back :
    ofLowered (front ++ "-b_cu.gbr".toList) =
      if names topWords front then copperTop else copperBottom := by
  have htop : names topWords "b_cu.gbr".toList = false := by decide
  have hbottom : names bottomWords "b_cu.gbr".toList = true := by decide
  have hkind := ofLowered_dash front "b_cu".toList (rfl : "b_cu.gbr".toList = _)
  rw [htop, hbottom, Bool.or_false, Bool.or_true, if_pos rfl] at hkind
  exact hkind

/-- The words of an outline are looked for behind those of copper. -/
theorem ofLowered_edge :
    ofLowered (front ++ "-edge_cuts.gbr".toList) =
      if names topWords front then copperTop
      else if names bottomWords front then copperBottom
      else ((innerIn? front).map inner).getD outline := by
  have htop : names topWords "edge_cuts.gbr".toList = false := by decide
  have hbottom : names bottomWords "edge_cuts.gbr".toList = false := by decide
  have hinner : innerIn? (front ++ '-' :: "edge_cuts.gbr".toList) = innerIn? front := by
    rw [innerIn?, innerNumber?_append_of_none front _ (by decide) (by decide) (by decide),
      innerNumber?_append_of_none front _ (by decide) (by decide) (by decide), innerIn?]
  have hlast : ofLastWords (front ++ '-' :: "edge_cuts.gbr".toList) = outline := by
    have hedge : contains "edge_cuts".toList (front ++ '-' :: "edge_cuts.gbr".toList) = true := by
      rw [Text.contains_append_cons (by decide) (by decide)]
      exact Bool.or_eq_true_iff.mpr (.inr (by decide))
    exact if_pos (Bool.or_eq_true_iff.mpr (.inl (Bool.or_eq_true_iff.mpr (.inl hedge))))
  have hkind := ofLowered_dash front "edge_cuts".toList (rfl : "edge_cuts.gbr".toList = _)
  rw [htop, hbottom, Bool.or_false, Bool.or_false, hinner, hlast] at hkind
  exact hkind

/-! ## Inner copper -/

/-- The part of a name that tells an inner layer. -/
def innerPart (n : Nat) : List Char := "in".toList ++ toDigits n ++ "_cu".toList

section Inner

variable (n : Nat)

theorem not_mem_digits {c : Char} (hc : c.isDigit = false) (hword : c ∉ "in".toList) :
    c ∉ "in".toList ++ toDigits n := by
  rw [List.mem_append, not_or]
  exact ⟨hword, Decimal.not_mem_toDigits hc⟩

theorem not_mem_innerPart {c : Char} (hdigit : c.isDigit = false) (hword : c ∉ "in".toList)
    (hend : c ∉ "_cu.gbr".toList) : c ∉ innerPart n ++ ".gbr".toList := by
  rw [innerPart, List.append_assoc, List.mem_append, not_or]
  exact ⟨not_mem_digits n hdigit hword, hend⟩

theorem contains_innerPart {pattern : List Char} {c : Char} (hc : c ∈ pattern)
    (hdigit : c.isDigit = false) (hword : c ∉ "in".toList) (hmark : '_' ∉ pattern) :
    contains pattern (innerPart n ++ ".gbr".toList) = contains pattern "cu.gbr".toList := by
  have hnumber : contains pattern ("in".toList ++ toDigits n) = false :=
    Text.contains_of_not_mem hc (not_mem_digits n hdigit hword)
  have happend := Text.contains_append_cons (List.ne_nil_of_mem hc) hmark
    ("in".toList ++ toDigits n) "cu.gbr".toList
  rw [hnumber, Bool.false_or] at happend
  rw [innerPart, List.append_assoc]
  exact happend

theorem names_topWords_innerPart : names topWords (innerPart n ++ ".gbr".toList) = false := by
  have hmem : 'f' ∉ innerPart n ++ ".gbr".toList :=
    not_mem_innerPart n (by decide) (by decide) (by decide)
  have hletter : ∀ word ∈ topWords, 'f' ∈ word.toList := by decide
  rw [names, List.any_eq_false]
  intro word hword
  rw [Text.contains_of_not_mem (hletter word hword) hmem]
  decide

theorem names_bottomWords_innerPart : names bottomWords (innerPart n ++ ".gbr".toList) = false := by
  have hnumber : 'b' ∉ "in".toList ++ toDigits n := not_mem_digits n (by decide) (by decide)
  have hpart : 'b' ∉ innerPart n := by
    rw [innerPart, List.mem_append, not_or]
    exact ⟨hnumber, by decide⟩
  have hpoint {pattern : List Char} (hb : 'b' ∈ pattern) (h : '.' ∉ pattern)
      (hgbr : contains pattern "gbr".toList = false) :
      contains pattern (innerPart n ++ ".gbr".toList) = false := by
    have happend := Text.contains_append_cons (List.ne_nil_of_mem hb) h (innerPart n) "gbr".toList
    rw [Text.contains_of_not_mem hb hpart, hgbr] at happend
    exact happend
  have hpointed : contains "b.cu".toList (innerPart n ++ ".gbr".toList) = false :=
    (contains_innerPart n (by decide : 'b' ∈ _) (by decide) (by decide) (by decide)).trans
      (by decide)
  have hfirst := hpoint (by decide : 'b' ∈ "b_cu".toList) (by decide) (by decide)
  have hlast := hpoint (by decide : 'b' ∈ "back_cu".toList) (by decide) (by decide)
  simp only [names, bottomWords, List.any_cons, List.any_nil, hfirst, hpointed, hlast,
    Bool.or_self]

theorem ofLastWords_innerPart (front : List Char) :
    ofLastWords (front ++ '-' :: (innerPart n ++ ".gbr".toList)) = ofLastWords front := by
  have hletter : ∀ word ∈ lastWords,
      '-' ∉ word.toList ∧ ('e' ∈ word.toList ∨ 'o' ∈ word.toList) := by
    decide
  refine ofLastWords_congr fun word hword => ?_
  obtain ⟨hdash, hletter⟩ := hletter word hword
  have hnone : contains word.toList (innerPart n ++ ".gbr".toList) = false := by
    rcases hletter with he | ho
    · exact Text.contains_of_not_mem he (not_mem_innerPart n (by decide) (by decide) (by decide))
    · exact Text.contains_of_not_mem ho (not_mem_innerPart n (by decide) (by decide) (by decide))
  have hempty : word.toList ≠ [] := hletter.elim List.ne_nil_of_mem List.ne_nil_of_mem
  rw [Text.contains_append_cons hempty hdash, hnone, Bool.or_false]

theorem lastNumber?_digits (h : n ≤ maxWord32) :
    lastNumber? ("in".toList ++ toDigits n) = some n := by
  have hnone : behindLast? ['i', 'n'] ('n' :: toDigits n) = none :=
    Text.behindLast?_of_not_mem (by
      rw [List.mem_cons, not_or]
      exact ⟨by decide, Decimal.not_mem_toDigits (by decide)⟩)
  have hbehind : behindLast? ['i', 'n'] ('i' :: 'n' :: toDigits n) = some (toDigits n) := by
    rw [Text.behindLast?_cons, hnone]
    simp [List.isPrefixOf]
  have hlast := congrArg (·.bind readWord32?) hbehind
  exact hlast.trans (Decimal.readWord32?_toDigits h)

theorem innerNumber?_innerPart (h : n ≤ maxWord32) :
    innerNumber? "_cu" (innerPart n ++ ".gbr".toList) = some n := by
  have hmem : '_' ∉ "in".toList ++ toDigits n := not_mem_digits n (by decide) (by decide)
  have hbefore : beforeFirst? "_cu".toList (innerPart n ++ ".gbr".toList) =
      some ("in".toList ++ toDigits n) := by
    rw [innerPart, List.append_assoc]
    exact Text.beforeFirst?_append_of_not_mem hmem _
  rw [innerNumber?_eq, hbefore]
  exact lastNumber?_digits n h

/-- Behind a `_cu`, no part of a name tells an inner layer. -/
theorem innerIn?_of_contains {front : List Char} (h : contains "_cu".toList front = true) :
    innerIn? (front ++ '-' :: (innerPart n ++ ".gbr".toList)) = innerIn? front := by
  have hpointed : contains ".cu".toList (innerPart n ++ ".gbr".toList) = false :=
    (contains_innerPart n (by decide : '.' ∈ _) (by decide) (by decide) (by decide)).trans
      (by decide)
  rw [innerIn?, innerNumber?_append_cons front _ (by decide) (by decide), if_pos h,
    innerNumber?_append_of_none front _ (by decide) (by decide)
      (innerNumber?_of_not_contains _ hpointed), innerIn?]

end Inner

/-- In front of the dash, a name with `_cu` in it decides by itself. -/
theorem ofLowered_inner {n : Nat} (hn : n ≤ maxWord32) :
    ofLowered (front ++ '-' :: (innerPart n ++ ".gbr".toList)) =
      if contains "_cu".toList front then ofWords front
      else if names topWords front then copperTop
      else if names bottomWords front then copperBottom
      else inner n := by
  have hkind := ofLowered_dash front (innerPart n) rfl
  rw [names_topWords_innerPart, names_bottomWords_innerPart, Bool.or_false, Bool.or_false,
    ofLastWords_innerPart] at hkind
  rw [hkind]
  by_cases hcopper : contains "_cu".toList front = true
  · rw [if_pos hcopper, innerIn?_of_contains n hcopper, ofWords_eq]
  · have hinner : innerIn? (front ++ '-' :: (innerPart n ++ ".gbr".toList)) = some n := by
      rw [innerIn?, innerNumber?_append_cons front _ (by decide) (by decide), if_neg hcopper,
        innerNumber?_innerPart n hn]
      rfl
    rw [if_neg hcopper, hinner]
    rfl

/-! ## Paths -/

theorem baseName_append {directory name : List Char}
    (hdirectory : ∀ c ∈ directory.getLast?, c = '/' ∨ c = '\\') (hslash : '/' ∉ name)
    (hback : '\\' ∉ name) : baseName (directory ++ name) = name := by
  rcases List.eq_nil_or_concat directory with rfl | ⟨above, c, rfl⟩
  · rw [List.nil_append, baseName, Text.lastPart_of_not_mem hslash, Text.lastPart_of_not_mem hback]
  · rw [List.concat_eq_append] at hdirectory ⊢
    rw [List.append_assoc, List.singleton_append, baseName]
    rcases hdirectory c (by simp) with rfl | rfl
    · rw [Text.lastPart_append_cons hslash, Text.lastPart_of_not_mem hback]
    · have hname : '/' ∉ '\\' :: name := by
        rw [List.mem_cons, not_or]
        exact ⟨by decide, hslash⟩
      rw [Text.lastPart_append_of_not_mem hname, Text.lastPart_append_cons hback]

theorem exists_directory (path : List Char) : ∃ directory stem, path = directory ++ stem ∧
    (∀ c ∈ directory.getLast?, c = '/' ∨ c = '\\') ∧ '/' ∉ stem ∧ '\\' ∉ stem := by
  induction path using List.reverseRecOn with
  | nil => exact ⟨[], [], rfl, nofun, List.not_mem_nil, List.not_mem_nil⟩
  | append_singleton path c ih =>
      by_cases hc : c = '/' ∨ c = '\\'
      · refine ⟨path ++ [c], [], (List.append_nil _).symm, fun last hlast => ?_,
          List.not_mem_nil, List.not_mem_nil⟩
        rw [List.getLast?_concat] at hlast
        cases hlast
        exact hc
      · obtain ⟨hslash, hback⟩ := not_or.mp hc
        obtain ⟨directory, stem, rfl, hdirectory, hstem⟩ := ih
        refine ⟨directory, stem ++ [c], List.append_assoc _ _ _, hdirectory, ?_, ?_⟩
        · simpa [hstem.1] using Ne.symm hslash
        · simpa [hstem.2] using Ne.symm hback

theorem not_mem_of_map_lower {c : Char} (hc : lower c = c) {text lowered : List Char}
    (h : text.map lower = lowered) (hlowered : c ∉ lowered) : c ∉ text := fun hmem =>
  hlowered (h ▸ hc ▸ List.mem_map_of_mem hmem)

theorem ofFileName_eq (path : String) :
    ofFileName path = ofLowered ((baseName path.toList).map lower) := by
  unfold ofFileName ofLowered
  dsimp only [bind]
  cases (extension? ((baseName path.toList).map lower)).bind ofExtension? <;> rfl

/-- The directories in front of a name and its letter case make no difference. -/
theorem ofFileName_path {directory stem ending lowered : List Char}
    (hdirectory : ∀ c ∈ directory.getLast?, c = '/' ∨ c = '\\') (hslash : '/' ∉ stem)
    (hback : '\\' ∉ stem) (hending : ending.map lower = lowered)
    (hclear : '/' ∉ lowered ∧ '\\' ∉ lowered) :
    ofFileName (String.ofList (directory ++ stem ++ ending)) =
      ofLowered (stem.map lower ++ lowered) := by
  have hslashes : '/' ∉ stem ++ ending := by
    rw [List.mem_append, not_or]
    exact ⟨hslash, not_mem_of_map_lower (by decide) hending hclear.1⟩
  have hbacks : '\\' ∉ stem ++ ending := by
    rw [List.mem_append, not_or]
    exact ⟨hback, not_mem_of_map_lower (by decide) hending hclear.2⟩
  rw [ofFileName_eq, String.toList_ofList, List.append_assoc,
    baseName_append hdirectory hslashes hbacks, List.map_append, hending]

end BoardMill.LayerKind
