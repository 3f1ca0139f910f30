import BoardMill.Proofs.Board.Generating
import BoardMill.Proofs.Splits
import Mathlib.Data.String.Basic

/-! # Suffixes of the layers of a board

Layers are numbered by their neighbours alone. As they are sorted, those of one kind stand
together, so the number of a layer is its place among all of its kind, and no two layers of a
board have one suffix.
-/

namespace BoardMill

open NotingT (Returns)

variable {α : Type}

/-! ## The order of kinds -/

namespace LayerKind

instance : Std.TransCmp order :=
  inferInstanceAs (Std.TransCmp (compareLex (compareOn rank) (compareOn innerName)))

/-- Kinds that stand at one place are the same. -/
theorem eq_of_order {a b : LayerKind} (h : a.order b = .eq) : a = b := by
  obtain ⟨hrank, hname⟩ := Ordering.then_eq_eq.mp h
  have hrank : a.rank = b.rank := Std.LawfulEqCmp.eq_of_compare hrank
  have hname : a.innerName = b.innerName := Std.LawfulEqCmp.eq_of_compare hname
  cases a <;> cases b <;> first | cases hrank; done | rfl | exact congrArg copperInner hname

end LayerKind

namespace Layer

theorem isLE_kind {a b : Layer α} (h : (order a b).isLE) : (a.kind.order b.kind).isLE :=
  (Ordering.isLE_then_iff_and.mp h).1

theorem le_name {a b : Layer α} (h : (order a b).isLE) (hkind : a.kind = b.kind) :
    a.name ≤ b.name := by
  have hself : a.kind.order b.kind = .eq := by
    rw [hkind]
    exact Std.ReflCmp.compare_self
  rcases (Ordering.isLE_then_iff_and.mp h).2 with hlt | hname
  · rw [hself] at hlt
    cases hlt
  · exact compare_le_iff_le.mp (Ordering.isLE_iff_ne_gt.mp hname)

/-! ## Numbering -/

/-- Every layer has the suffix of its place among the layers of its kind, of which some stand in
front of the list. -/
def NumberedFrom (front : List LayerKind) (layers : List (Layer α)) : Prop :=
  ∀ before l after, layers = before ++ l :: after →
    l.suffix = suffixAt l.kind ((front ++ before.map kind).count l.kind + 1)

theorem NumberedFrom.cons {front : List LayerKind} {l : Layer α} {rest : List (Layer α)}
    (hl : l.suffix = suffixAt l.kind (front.count l.kind + 1))
    (hrest : NumberedFrom (front ++ [l.kind]) rest) : NumberedFrom front (l :: rest) := by
  refine forall_split_cons.mpr ⟨?_, fun before x after hsplit => ?_⟩
  · rw [List.map_nil, List.append_nil]
    exact hl
  · rw [hrest before x after hsplit, List.map_cons, List.append_assoc, List.singleton_append]

/-- What the numbering of a layer leaves as it is. -/
def place (l : Layer α) : LayerKind × String := (l.kind, l.name)

/-- Among sorted kinds, comparing the next one to the last is enough to count those like it. -/
theorem count_next {front : List LayerKind} {last next : LayerKind}
    (hfront : ∀ kind ∈ front ++ [last], (kind.order last).isLE) (hnext : (last.order next).isLE) :
    (if next = last then front.count last + 1 + 1 else 1) = (front ++ [last]).count next + 1 := by
  split
  next hkind => simp [hkind]
  next hkind =>
    have hfirst : next ∉ front ++ [last] := fun hmem =>
      hkind (LayerKind.eq_of_order (Std.OrientedCmp.isLE_antisymm (hfront _ hmem) hnext))
    rw [List.count_eq_zero_of_not_mem hfirst]

/-- In a sorted list, the layers behind one that is numbered by its place are numbered so. -/
theorem returns_numberFrom {earlier : Layer α} {front : List LayerKind} {rest : List (Layer α)}
    (hfront : ∀ kind ∈ front ++ [earlier.kind], (kind.order earlier.kind).isLE)
    (hsorted : (earlier.kind :: rest.map kind).Pairwise fun a b => (a.order b).isLE) :
    Returns (fun later => later.map place = rest.map place ∧
        NumberedFrom (front ++ [earlier.kind]) later)
      (numberFrom earlier (front.count earlier.kind + 1) rest) := by
  induction rest generalizing earlier front with
  | nil => exact .pure ⟨rfl, fun _ _ _ h => by simp at h⟩
  | cons l rest ih =>
      obtain ⟨hearlier, hrest⟩ := List.pairwise_cons.mp hsorted
      have hnext : (earlier.kind.order l.kind).isLE := hearlier l.kind List.mem_cons_self
      have hbehind : ∀ kind ∈ front ++ [earlier.kind] ++ [l.kind], (kind.order l.kind).isLE := by
        intro kind hkind
        rcases List.mem_append.mp hkind with hkind | hkind
        · exact Std.TransCmp.isLE_trans (hfront kind hkind) hnext
        · cases List.mem_singleton.mp hkind
          exact Std.ReflCmp.isLE_rfl
      let next : Layer α :=
        { l with suffix := suffixAt l.kind ((front ++ [earlier.kind]).count l.kind + 1) }
      have htail := @ih next (front ++ [earlier.kind]) hbehind hrest
      have hlayers : Returns (fun later => later.map place = (l :: rest).map place ∧
          NumberedFrom (front ++ [earlier.kind]) later) _ :=
        htail.bind fun later ⟨hplaces, hnumbered⟩ =>
          .pure ⟨congrArg (l.place :: ·) hplaces, .cons rfl hnumbered⟩
      unfold numberFrom
      dsimp only
      rw [count_next hfront hnext]
      exact .ite (.bind (.any _) fun _ _ => hlayers) hlayers

/-- Layers of a board: machined, sorted and each with the suffix of its place. -/
structure Numbered (layers : List (Layer α)) : Prop where
  isLayer : ∀ l ∈ layers, l.kind.IsLayer
  sorted : layers.Pairwise fun a b => (order a b).isLE
  suffix : NumberedFrom [] layers

theorem returns_number {layers : List (Layer α)} (hlayers : ∀ l ∈ layers, ∃ name, l.IsOf name)
    (hsorted : layers.Pairwise fun a b => (order a b).isLE) :
    Returns Numbered (number layers) := by
  cases layers with
  | nil => exact .pure ⟨fun _ h => absurd h List.not_mem_nil, .nil, fun _ _ _ h => by simp at h⟩
  | cons l rest =>
      obtain ⟨name, hl⟩ := hlayers l List.mem_cons_self
      have hkinds : ((l :: rest).map kind).Pairwise fun a b => (a.order b).isLE :=
        List.pairwise_map.mpr (hsorted.imp isLE_kind)
      have hfront : ∀ kind ∈ [] ++ [l.kind], (kind.order l.kind).isLE := by
        simp [Std.ReflCmp.isLE_rfl]
      refine .bind (returns_numberFrom hfront hkinds) fun later hlater => ?_
      obtain ⟨hplaces, hnumbered⟩ := hlater
      have hplaces : (l :: later).map place = (l :: rest).map place :=
        congrArg (l.place :: ·) hplaces
      refine .pure ⟨fun x hx => ?_, ?_, .cons hl.suffix_eq hnumbered⟩
      · have hx : x.place ∈ (l :: rest).map place := hplaces ▸ List.mem_map_of_mem hx
        obtain ⟨same, hsame, hplace⟩ := List.mem_map.mp hx
        obtain ⟨_, hfile⟩ := hlayers same hsame
        have hkind : same.kind = x.kind := congrArg Prod.fst hplace
        exact hkind ▸ hfile.isLayer
      · have hsorted : ((l :: rest).map place).Pairwise fun a b =>
            ((a.1.order b.1).then (compare a.2 b.2)).isLE := List.pairwise_map.mpr hsorted
        rw [← hplaces] at hsorted
        exact List.pairwise_map.mp hsorted

/-! ## Different suffixes -/

theorem suffix_eq_of_outputName {first second : Layer α} {base : String}
    (h : first.outputName base = second.outputName base) : first.suffix = second.suffix := by
  have hname :
      base ++ "-" ++ first.suffix ++ ".gcode" = base ++ "-" ++ second.suffix ++ ".gcode" := h
  exact (String.append_right_inj _).mp ((String.append_left_inj _).mp hname)

namespace Numbered

variable {layers : List (Layer α)}

/-- No layer has the suffix of one that stands before it. -/
theorem suffix_ne (h : Numbered layers) {before after : List (Layer α)} {l earlier : Layer α}
    (hsplit : layers = before ++ l :: after) (hearlier : earlier ∈ before) :
    earlier.suffix ≠ l.suffix := by
  obtain ⟨front, between, rfl⟩ := List.append_of_mem hearlier
  have hfirst := h.suffix front earlier (between ++ l :: after) (by simp [hsplit])
  have hsecond := h.suffix (front ++ earlier :: between) l after hsplit
  intro hsuffix
  rw [hfirst, hsecond] at hsuffix
  obtain ⟨hkind, hnumber⟩ :=
    suffixAt_inj (h.isLayer earlier (by simp [hsplit])) (h.isLayer l (by simp [hsplit])) hsuffix
  -- The earlier layer itself is one more of its kind.
  rw [hkind] at hnumber
  simp [hkind] at hnumber

theorem pairwise_suffix_ne (h : Numbered layers) :
    layers.Pairwise fun a b => a.suffix ≠ b.suffix :=
  pairwise_iff_forall_split.mpr fun _ _ _ hsplit _ hearlier => h.suffix_ne hsplit hearlier

end Numbered

end Layer

/-! ## Boards -/

namespace Board

open Layer (Numbered)

theorem isOf_of_mem_filterMap {found : List (Option (Layer α))}
    (h : ∀ entry ∈ found, ∃ name, ∀ l ∈ entry, l.IsOf name) :
    ∀ l ∈ found.filterMap id, ∃ name, l.IsOf name := by
  intro l hl
  obtain ⟨entry, hentry, hl⟩ := List.mem_filterMap.mp hl
  obtain ⟨name, hname⟩ := h entry hentry
  exact ⟨name, hname l hl⟩

variable [Numeral α]

theorem returns_numbered_ofLayers {layers : List (Layer α)}
    (h : ∀ l ∈ layers, ∃ name, l.IsOf name) :
    Returns (fun b => Numbered b.layers) (ofLayers layers) := by
  have hsorted : ∀ l ∈ Layer.sorted layers, ∃ name, l.IsOf name := fun l hl =>
    h l ((List.mergeSort_perm _ _).mem_iff.mp hl)
  exact .bind (Layer.returns_number hsorted (Layer.pairwise_sorted layers)) fun _ hlayers =>
    .bind (.any _) fun _ _ => .pure hlayers

theorem returns_numbered_ofArchive (archive : Archive) :
    Returns (fun b => Numbered b.layers) (Board.ofArchive archive : Noting (Board α)) := by
  have hmembers : ∀ m : Member, Returns (fun entry => ∃ name, ∀ l ∈ entry, l.IsOf name)
      (layerOfMember m : Noting (Option (Layer α))) := fun m =>
    (returns_layerOfMember m).imp fun _ h => ⟨m.name, h⟩
  refine .bind (.mapM hmembers archive.members) fun found hfound => ?_
  have hlayers := isOf_of_mem_filterMap hfound
  split
  · exact .throw _
  · exact returns_numbered_ofLayers hlayers

section Files

variable {m : Type → Type} [Monad m] [LawfulMonad m] [Files m]

theorem returns_layerOfFile (path : String) :
    Returns (fun found => ∀ l ∈ found, l.IsOf path)
      (layerOfFile path : NotingT m (Option (Layer α))) := by
  refine .bind (.any _) fun _ _ => .ite (.pure (by simp)) ?_
  exact .bind (.any _) fun _ _ => .bind (.any _) fun text _ => (Layer.returns_ofText path text).lift

theorem returns_numbered_ofFiles (base : String) :
    Returns (fun b => Numbered b.layers) (Board.ofFiles base : NotingT m (Board α)) := by
  have hfiles : ∀ ending, Returns (fun entry => ∃ name, ∀ l ∈ entry, l.IsOf name)
      (layerOfFile (base ++ ending) : NotingT m (Option (Layer α))) := fun ending =>
    (returns_layerOfFile (base ++ ending)).imp fun _ h => ⟨base ++ ending, h⟩
  refine .bind (.mapM hfiles fileEndings) fun found hfound => ?_
  have hlayers := isOf_of_mem_filterMap hfound
  split
  · exact .throw _
  · exact (returns_numbered_ofLayers hlayers).lift

end Files

variable {b : Board α}

theorem Loaded.numbered (h : b.Loaded) : Numbered b.layers := by
  cases h with
  | ofArchive archive h => exact (returns_numbered_ofArchive archive).of_outcome h
  | ofFiles base tree h => exact (returns_numbered_ofFiles base).of_run h

/-- Layers of a board that was loaded have outputs of their own. Whatever the files are called and
whatever they say of themselves, a suffix is that of a kind, with a number behind it from the
second layer of that kind on, in the order of their names. -/
theorem Loaded.has_distinct_outputs (h : b.Loaded) :
    (b.layers.map Layer.suffix).Nodup ∧
    (∀ base, (b.layers.map fun l => l.outputName base).Nodup) ∧
    (∀ l ∈ b.layers, l.kind.suffix ∈ ["F_Cu", "B_Cu", "Edge_Cuts", "drl"] ∨
      ∃ n : Nat, l.kind.suffix = s!"In{n}_Cu") ∧
    (∀ first ∈ b.layers, ∀ second ∈ b.layers,
      first.kind.suffix = second.kind.suffix → first.kind = second.kind) ∧
    (∀ before l after, b.layers = before ++ l :: after →
      let k := (before.map Layer.kind).count l.kind + 1
      l.suffix = (if k = 1 then l.kind.suffix else s!"{l.kind.suffix}-{k}") ∧
      ∀ earlier ∈ before, earlier.kind = l.kind → earlier.name ≤ l.name) ∧
    ∀ l ∈ b.layers, '/' ∉ l.suffix.toList ∧ '\\' ∉ l.suffix.toList := by
  have hlayers := h.numbered
  have hsuffixes := hlayers.pairwise_suffix_ne
  refine ⟨List.pairwise_map.mpr hsuffixes, fun base => ?_,
    fun l hl => (hlayers.isLayer l hl).suffix_cases, fun first hfirst second hsecond => ?_,
    fun before l after hsplit => ?_, fun l hl => ?_⟩
  · exact List.pairwise_map.mpr (hsuffixes.imp (mt Layer.suffix_eq_of_outputName))
  · exact (hlayers.isLayer first hfirst).eq_of_suffix (hlayers.isLayer second hsecond)
  · refine ⟨hlayers.suffix before l after hsplit, fun earlier hearlier hkind => ?_⟩
    have hle := pairwise_iff_forall_split.mp hlayers.sorted before l after hsplit earlier hearlier
    exact Layer.le_name hle hkind
  · obtain ⟨before, after, hsplit⟩ := List.append_of_mem hl
    have hlayer := hlayers.isLayer l hl
    rw [hlayers.suffix before l after hsplit]
    exact ⟨Layer.not_mem_suffixAt hlayer (by decide), Layer.not_mem_suffixAt hlayer (by decide)⟩

/-- Two files of top copper, two of drills and one that says it is inner copper. -/
theorem Loaded.has_distinct_outputs_pairs :
    ∃ b : Board Float, b.Loaded ∧
      b.layers.map Layer.suffix = ["F_Cu", "F_Cu-2", "In2_Cu", "drl", "drl-2"] ∧
      ∀ base, (b.layers.map fun l => l.outputName base).Nodup := by
  let member (name text : String) : Member := ⟨name, .bytes (Utf8.encode text.toList)⟩
  let copper := "%FSLAX11Y11*%G36*X0Y0D02*X10Y0D01*G37*M02*"
  let drills := "T1C0.8\nT1\nX001000Y002000\nM30\n"
  let archive : Archive := ⟨[member "a-F_Cu.gbr" copper, member "b-F_Cu.gbr" copper,
    member "c.gbr" ("%TF.FileFunction,Copper,L3,Inr*%" ++ copper),
    member "a.drl" drills, member "b.drl" drills]⟩
  obtain ⟨b, hb, hsuffixes⟩ := exists_board_of_archive archive (fun b : Board Float =>
      decide (b.layers.map Layer.suffix = ["F_Cu", "F_Cu-2", "In2_Cu", "drl", "drl-2"]))
    (by decide +kernel) (by decide +kernel) (by decide +kernel)
  have hloaded : b.Loaded := .ofArchive archive hb
  exact ⟨b, hloaded, of_decide_eq_true hsuffixes, hloaded.has_distinct_outputs.2.1⟩

end Board

end BoardMill
