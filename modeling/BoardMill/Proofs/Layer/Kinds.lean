import BoardMill.Board
import BoardMill.Proofs.Decimal.Marks

/-! # Kinds of layers and their suffixes

Whatever a file is called and whatever it says of itself, the layer in it is of one of a few
kinds, of which only inner copper is told apart by number. Their suffixes are all different and
have neither a dash nor a path separator in them, and a dash with a number behind it keeps the
suffixes of several layers of one kind apart from each other and from those of other kinds.
-/

namespace BoardMill

namespace LayerKind

open Decimal (Marked)

/-- The kinds of layers that are machined. -/
inductive IsLayer : LayerKind → Prop where
  | copperTop : IsLayer copperTop
  | copperBottom : IsLayer copperBottom
  | inner (number : Nat) : IsLayer (inner number)
  | outline : IsLayer outline
  | drills : IsLayer drills

/-! ## Identification -/

theorem isLayer_ofCopper {number : Option Nat} {side : Option String} :
    ofCopper number side = other ∨ (ofCopper number side).IsLayer := by
  unfold ofCopper
  split
  · exact .inr .copperTop
  · exact .inr .copperBottom
  · exact .inr .copperBottom
  · split
    · split <;> exact .inr (.inner _)
    · exact .inr (.inner _)
  · split
    · split <;> exact .inr (.inner _)
    · exact .inr (.inner _)
  · exact .inl rfl

theorem isLayer_ofFileFunction {args : List String} :
    ofFileFunction args = other ∨ (ofFileFunction args).IsLayer := by
  unfold ofFileFunction
  split
  · exact isLayer_ofCopper
  · exact .inr .outline
  · exact .inr .drills
  · exact .inr .drills
  · exact .inl rfl

theorem isLayer_copperInner {name : String} (number : Nat) (h : name = s!"In{number}") :
    (copperInner name).IsLayer :=
  h ▸ .inner number

theorem isLayer_ofExtension? {extension : String} {kind : LayerKind}
    (h : ofExtension? extension = some kind) : kind = other ∨ kind.IsLayer := by
  unfold ofExtension? at h
  split at h <;> cases h
  all_goals first
    | exact .inl rfl
    | exact .inr .copperTop
    | exact .inr .copperBottom
    | exact .inr .outline
    | exact .inr .drills
    | exact .inr (isLayer_copperInner 1 rfl)
    | exact .inr (isLayer_copperInner 2 rfl)
    | exact .inr (isLayer_copperInner 3 rfl)
    | exact .inr (isLayer_copperInner 4 rfl)
    | exact .inr (isLayer_copperInner 5 rfl)
    | exact .inr (isLayer_copperInner 6 rfl)
    | exact .inr (isLayer_copperInner 7 rfl)
    | exact .inr (isLayer_copperInner 8 rfl)

theorem isLayer_ofWords {name : List Char} : ofWords name = other ∨ (ofWords name).IsLayer := by
  unfold ofWords
  dsimp only
  split
  · exact .inr .copperTop
  split
  · exact .inr .copperBottom
  split
  · exact .inr (.inner _)
  split
  · exact .inr .outline
  split
  · exact .inr .copperTop
  split
  · exact .inr .copperBottom
  split
  · exact .inr .outline
  · exact .inl rfl

theorem isLayer_ofFileName {path : String} :
    ofFileName path = other ∨ (ofFileName path).IsLayer := by
  unfold ofFileName
  dsimp only
  split
  next kind hkind =>
    obtain ⟨extension, -, hkind⟩ := Option.bind_eq_some_iff.mp hkind
    exact isLayer_ofExtension? hkind
  next => exact isLayer_ofWords

/-! ## Suffixes of kinds -/

/-- The suffix of inner copper is its number in a frame of letters. -/
theorem toList_suffix_inner (number : Nat) :
    (inner number).suffix.toList = "In".toList ++ Decimal.toDigits number ++ "_Cu".toList := by
  simp [inner, suffix, Decimal.toDigits, toString]

theorem IsLayer.suffix_cases {kind : LayerKind} (h : kind.IsLayer) :
    kind.suffix ∈ ["F_Cu", "B_Cu", "Edge_Cuts", "drl"] ∨
      ∃ n : Nat, kind.suffix = s!"In{n}_Cu" := by
  cases h with
  | inner number => exact .inr ⟨number, rfl⟩
  | _ => exact .inl (by decide)

/-- No suffix of a layer has a dash or a path separator in it. -/
theorem IsLayer.not_mem_suffix {kind : LayerKind} (h : kind.IsLayer) {c : Char}
    (hc : c ∈ ['-', '/', '\\']) : c ∉ kind.suffix.toList := by
  have hmarks : c = '-' ∨ c = '/' ∨ c = '\\' := by simpa using hc
  cases h with
  | inner number =>
      have hframe : c ∉ "In".toList ∧ c ∉ "_Cu".toList ∧ c.isDigit = false := by
        rcases hmarks with rfl | rfl | rfl <;> decide
      have hnumber : c ∉ Decimal.toDigits number := Decimal.not_mem_toDigits hframe.2.2
      rw [toList_suffix_inner, List.mem_append, List.mem_append, not_or, not_or]
      exact ⟨⟨hframe.1, hnumber⟩, hframe.2.1⟩
  | _ => rcases hmarks with rfl | rfl | rfl <;> decide

theorem suffix_inner_ne {number : Nat} {text : String} (h : text.toList.head? ≠ some 'I') :
    (inner number).suffix ≠ text := by
  rintro rfl
  rw [toList_suffix_inner] at h
  exact h rfl

/-- Layers of different kinds have different suffixes. -/
theorem IsLayer.eq_of_suffix {first second : LayerKind} (hfirst : first.IsLayer)
    (hsecond : second.IsLayer) (h : first.suffix = second.suffix) : first = second := by
  cases hfirst with
  | inner number =>
      cases hsecond with
      | inner other =>
          have hname : s!"In{number}" ++ "_Cu" = s!"In{other}" ++ "_Cu" := h
          exact congrArg copperInner ((String.append_left_inj _).mp hname)
      | _ => exact absurd h (suffix_inner_ne (by decide))
  | _ =>
      cases hsecond with
      | inner other => exact absurd h.symm (suffix_inner_ne (by decide))
      | _ =>
          revert h
          decide

end LayerKind

/-! ## Suffixes of several layers of one kind -/

namespace Layer

variable {a b kind : LayerKind} {i j : Nat}

theorem suffixAt_one (kind : LayerKind) : suffixAt kind 1 = kind.suffix := rfl

theorem toList_suffixAt (kind : LayerKind) (h : i ≠ 1) :
    (suffixAt kind i).toList = kind.suffix.toList ++ '-' :: Decimal.toDigits i := by
  rw [suffixAt, if_neg h]
  simp [Decimal.toDigits, toString]

theorem dash_mem_suffixAt (ha : a.IsLayer) : '-' ∈ (suffixAt a i).toList ↔ i ≠ 1 := by
  by_cases hi : i = 1
  · subst hi
    simpa [suffixAt_one] using ha.not_mem_suffix (by decide)
  · simp [toList_suffixAt a hi, hi]

/-- The suffix of a layer tells both its kind and its number. -/
theorem suffixAt_inj (ha : a.IsLayer) (hb : b.IsLayer) (h : suffixAt a i = suffixAt b j) :
    a = b ∧ i = j := by
  have hdash : i ≠ 1 ↔ j ≠ 1 := by
    rw [← dash_mem_suffixAt ha, ← dash_mem_suffixAt hb, h]
  by_cases hi : i = 1
  · obtain rfl : j = 1 := not_not.mp fun hj => hdash.mpr hj hi
    subst hi
    exact ⟨ha.eq_of_suffix hb h, rfl⟩
  · -- What stands before the dash is the suffix of the kind, what stands behind it the number.
    have hlists := congrArg (fun text => text.toList.splitOn '-') h
    simp only [toList_suffixAt a hi, toList_suffixAt b (hdash.mp hi),
      List.splitOn_append_cons_self_of_not_mem (ha.not_mem_suffix (by decide : '-' ∈ _)),
      List.splitOn_append_cons_self_of_not_mem (hb.not_mem_suffix (by decide : '-' ∈ _)),
      List.splitOn_eq_singleton (Decimal.not_mem_toDigits (by decide : '-'.isDigit = false))]
      at hlists
    obtain ⟨hsuffix, hnumber⟩ := List.cons.inj hlists
    exact ⟨ha.eq_of_suffix hb (String.toList_injective hsuffix),
      Decimal.eq_of_toDigits (List.singleton_inj.mp hnumber)⟩

/-- Suffixes lead to no other directory. -/
theorem not_mem_suffixAt (h : kind.IsLayer) {c : Char} (hc : c ∈ ['/', '\\']) :
    c ∉ (suffixAt kind i).toList := by
  have hseparator : c = '/' ∨ c = '\\' := by simpa using hc
  have hmark : c ≠ '-' ∧ c.isDigit = false := by
    rcases hseparator with rfl | rfl <;> decide
  have hsuffix : c ∉ kind.suffix.toList := h.not_mem_suffix (List.mem_cons_of_mem _ hc)
  by_cases hi : i = 1
  · subst hi
    exact hsuffix
  · rw [toList_suffixAt kind hi, List.mem_append, List.mem_cons, not_or, not_or]
    exact ⟨hsuffix, hmark.1, Decimal.not_mem_toDigits hmark.2⟩

end Layer

end BoardMill
