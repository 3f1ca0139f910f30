import BoardMill.Board.Loading
import BoardMill.Proofs.Layer.Kinds
import BoardMill.Proofs.Noting
import Mathlib.Data.List.Nodup

/-! # The order of layers

Layers of different names are in a linear order, so there is one way to sort them. The board of
an archive is therefore that of its layers in any order, as long as all members can be loaded.
-/

namespace BoardMill

open NotingT (Returns)
open Noting (Appends)

variable {α : Type}

/-! ## Sorting -/

namespace Layer

instance : Std.TransCmp (order (α := α)) :=
  inferInstanceAs (Std.TransCmp (compareLex
    (compareLex (compareOn fun l : Layer α => l.kind.rank) (compareOn fun l => l.kind.innerName))
    (compareOn fun l => l.name)))

theorem name_eq_of_order {a b : Layer α} (h : order a b = .eq) : a.name = b.name :=
  Std.LawfulEqCmp.eq_of_compare (Ordering.then_eq_eq.mp h).2

theorem isLE_order {a b : Layer α} : (order a b != .gt) = (order a b).isLE := by
  cases order a b <;> rfl

theorem sorted_of_pairwise {layers : List (Layer α)}
    (h : layers.Pairwise fun a b => (order a b).isLE) : sorted layers = layers :=
  List.mergeSort_of_pairwise (h.imp fun hle => isLE_order.trans hle)

theorem pairwise_sorted (layers : List (Layer α)) :
    (sorted layers).Pairwise fun a b => (order a b).isLE := by
  have hsorted : (sorted layers).Pairwise fun a b => (order a b != .gt) = true := by
    refine List.pairwise_mergeSort (fun a b c hab hbc => ?_) (fun a b => ?_) layers
    · rw [isLE_order] at hab hbc ⊢
      exact Std.TransCmp.isLE_trans hab hbc
    · have hswap : order b a = (order a b).swap := Std.OrientedCmp.eq_swap
      rw [hswap]
      cases order a b <;> rfl
  exact hsorted.imp fun hle => isLE_order.symm.trans hle

/-- Layers of different names are sorted in one way. -/
theorem sorted_eq_of_perm {first second : List (Layer α)} (hperm : first.Perm second)
    (hnames : (first.map name).Nodup) : sorted first = sorted second := by
  have hsorted : (sorted first).Perm first := List.mergeSort_perm _ _
  have hother : (sorted second).Perm second := List.mergeSort_perm _ _
  refine List.Perm.eq_of_pairwise (fun a b ha hb hab hba => ?_) (pairwise_sorted first)
    (pairwise_sorted second) (hsorted.trans (hperm.trans hother.symm))
  have hname := name_eq_of_order (Std.OrientedCmp.isLE_antisymm hab hba)
  exact List.inj_on_of_nodup_map hnames (hsorted.mem_iff.mp ha)
    (hperm.mem_iff.mpr (hother.mem_iff.mp hb)) hname

/-! ## Loading -/

theorem appends_numberFrom (earlier : Layer α) (number : Nat) (layers : List (Layer α)) :
    Appends (numberFrom earlier number layers) := by
  induction layers generalizing earlier number with
  | nil => exact .pure []
  | cons l rest ih =>
      have htail (l : Layer α) (number : Nat) :
          Appends (numberFrom l number rest >>= fun later => pure (l :: later)) :=
        (ih l number).bind fun _ => .pure _
      exact .ite (.bind (.note _) fun _ => htail _ _) (htail _ _)

theorem appends_number (layers : List (Layer α)) : Appends (number layers) := by
  cases layers with
  | nil => exact .pure []
  | cons l rest => exact (appends_numberFrom l 1 rest).bind fun _ => .pure _

/-- The layer of a file has the name of the file, a kind that is machined and the suffix of that
kind. -/
structure IsOf (name : String) (l : Layer α) : Prop where
  name_eq : l.name = name
  isLayer : l.kind.IsLayer
  suffix_eq : l.suffix = l.kind.suffix

/-- The kind of a document is one that it names itself, or the one of its name. -/
theorem isLayer_kindOf {name : String} {document : Gerber.Document α} :
    kindOf (.ofFileName name) document = .other ∨
      (kindOf (.ofFileName name) document).IsLayer := by
  unfold kindOf
  split
  · exact LayerKind.isLayer_ofFileName
  · exact LayerKind.isLayer_ofFileName
  next kind _ hkind =>
    obtain ⟨args, -, rfl⟩ := Option.map_eq_some_iff.mp hkind
    exact LayerKind.isLayer_ofFileFunction

theorem isOf_of_ofDocument? {name : String} {document : Gerber.Document α} {l : Layer α}
    (h : ofDocument? name (.ofFileName name) document = some l) : l.IsOf name := by
  unfold ofDocument? at h
  dsimp only at h
  split at h
  next hmachined =>
    cases h
    exact ⟨rfl, isLayer_kindOf.resolve_left (bne_iff_ne.mp hmachined), rfl⟩
  next => cases h

variable [Numeral α]

theorem appends_ofDrillText (name : String) (text : List Char) :
    Appends (ofDrillText name text : Noting (Layer α)) :=
  (Appends.ofExcept _).bind fun _ => (Appends.note _).bind fun _ => .pure _

theorem appends_ofText (name : String) (text : List Char) :
    Appends (ofText name text : Noting (Option (Layer α))) := by
  unfold ofText
  refine .ite ((appends_ofDrillText name text).bind fun _ => .pure _) (.ite (.pure none) ?_)
  split
  · exact .pure _
  next fault _ => exact .ite ((Appends.note _).bind fun _ => .pure none) (.throw fault)

theorem returns_ofDrillText (name : String) (text : List Char) :
    Returns (IsOf name) (ofDrillText name text : Noting (Layer α)) :=
  .bind (.any _) fun _ _ => .bind (.any _) fun _ _ => .pure ⟨rfl, .drills, rfl⟩

theorem returns_ofText (name : String) (text : List Char) :
    Returns (fun found => ∀ l ∈ found, l.IsOf name)
      (ofText name text : Noting (Option (Layer α))) := by
  have hnone : ∀ l ∈ (none : Option (Layer α)), l.IsOf name := by simp
  unfold ofText
  refine .ite (.bind (returns_ofDrillText name text) fun l hl => .pure ?_) (.ite (.pure hnone) ?_)
  · exact fun _ h => Option.some.inj h ▸ hl
  split
  · exact .pure fun _ h => isOf_of_ofDocument? h
  next fault _ => exact .ite (.bind (.any _) fun _ _ => .pure hnone) (.throw fault)

end Layer

namespace Board

variable [Numeral α]

/-- The layer of a member whose content can be had, if it is one. -/
def layerOfReadable (m : Member) : Noting (Option (Layer α)) :=
  if m.isDirectory then return none else
    match m.content.text? with
    | some text => Layer.ofText m.name text
    | none => do
      NotingT.note [notTextNotice m.name]
      return none

theorem layerOfMember_cases (m : Member) :
    (∃ fault, layerOfMember m = (throw fault : Noting (Option (Layer α)))) ∨
      layerOfMember m = (layerOfReadable m : Noting (Option (Layer α))) := by
  unfold layerOfMember
  dsimp only
  split
  next reason _ => exact .inl ⟨.badArchive reason, rfl⟩
  next => exact .inr rfl

theorem appends_layerOfMember (m : Member) :
    Appends (layerOfMember m : Noting (Option (Layer α))) := by
  rcases layerOfMember_cases (α := α) m with ⟨fault, hm⟩ | hm
  · exact hm ▸ .throw fault
  rw [hm, layerOfReadable]
  refine .ite (.pure none) ?_
  split
  · exact Layer.appends_ofText m.name _
  · exact (Appends.note _).bind fun _ => .pure none

theorem returns_layerOfMember (m : Member) :
    Returns (fun found => ∀ l ∈ found, l.IsOf m.name)
      (layerOfMember m : Noting (Option (Layer α))) := by
  have hnone : ∀ l ∈ (none : Option (Layer α)), l.IsOf m.name := by simp
  rcases layerOfMember_cases (α := α) m with ⟨fault, hm⟩ | hm
  · exact hm ▸ .throw fault
  rw [hm, layerOfReadable]
  refine .ite (.pure hnone) ?_
  split
  · exact Layer.returns_ofText m.name _
  · exact .bind (.any _) fun _ _ => .pure hnone

theorem appends_ofLayers (layers : List (Layer α)) : Appends (ofLayers layers) :=
  (Layer.appends_number _).bind fun _ => (Appends.ofExcept _).bind fun _ => .pure _

/-- The board of some layers, of which there is at least one. -/
def ofFound (layers : List (Layer α)) : Noting (Board α) :=
  match layers with
  | [] => throw (.malformed 0 "no copper, outline or drill files in archive")
  | layers => ofLayers layers

/-- The board of layers that stand in their order. -/
def ofSorted (layers : List (Layer α)) : Noting (Board α) := do
  let numbered ← Layer.number layers
  return { layers := numbered, bounds := ← NotingT.ofExcept (cover numbered) }

/-- Layers that stand in their order, of which there is at least one. -/
def InOrder (layers : List (Layer α)) : Prop :=
  0 < layers.length ∧ layers.Pairwise fun a b => (Layer.order a b).isLE

instance (layers : List (Layer α)) : Decidable (InOrder layers) :=
  inferInstanceAs (Decidable (_ ∧ _))

/-- Layers that stand in their order already are only numbered. -/
theorem ofFound_of_inOrder {layers : List (Layer α)} (h : InOrder layers) :
    ofFound layers = ofSorted layers := by
  cases layers with
  | nil => cases h.1
  | cons l rest =>
      change ofLayers (l :: rest) = _
      rw [ofLayers, Layer.sorted_of_pairwise h.2]
      rfl

theorem ofFound_eq_of_perm {first second : List (Layer α)} (hperm : first.Perm second)
    (hnames : (first.map Layer.name).Nodup) : ofFound first = ofFound second := by
  cases first with
  | nil => rw [hperm.nil_eq]
  | cons l rest =>
      cases second with
      | nil => exact absurd hperm.eq_nil (List.cons_ne_nil _ _)
      | cons other others =>
          change ofLayers (l :: rest) = ofLayers (other :: others)
          unfold ofLayers
          rw [Layer.sorted_eq_of_perm hperm hnames]

/-- The layer of a member, if it can be loaded and is one. -/
def memberLayer? (m : Member) : Option (Layer α) :=
  match (layerOfMember m : Noting (Option (Layer α))).outcome.1 with
  | .ok found => found
  | .error _ => none

theorem outcome_layerOfMember {m : Member} {found : Option (Layer α)}
    (h : (layerOfMember m).outcome.1 = .ok found) :
    (layerOfMember m).outcome.1 = .ok (memberLayer? m : Option (Layer α)) := by
  unfold memberLayer?
  rw [h]

theorem name_of_memberLayer? {m : Member} {l : Layer α} (h : memberLayer? m = some l) :
    l.name = m.name := by
  unfold memberLayer? at h
  split at h
  next hfound => exact ((returns_layerOfMember m).of_outcome hfound l h).name_eq
  next => cases h

/-- Layers of members with different names have different names. -/
theorem nodup_names {members : List Member} (h : (members.map Member.name).Nodup) :
    ((members.filterMap (memberLayer? (α := α))).map Layer.name).Nodup := by
  rw [List.Nodup, List.pairwise_map] at h ⊢
  rw [List.pairwise_filterMap]
  refine h.imp fun hne l hl other hother hname => hne ?_
  exact (name_of_memberLayer? hl).symm.trans (hname.trans (name_of_memberLayer? hother))

theorem appends_ofFound (layers : List (Layer α)) : Appends (ofFound layers) := by
  cases layers with
  | nil => exact .throw _
  | cons l rest => exact appends_ofLayers _

/-- The board of an archive is that of the layers found in its members. -/
theorem outcome_ofArchive_bind (archive : Archive) :
    (ofArchive archive : Noting (Board α)).outcome.1 =
      (archive.members.mapM fun m => (layerOfMember m).outcome.1) >>= fun found =>
        (ofFound (found.filterMap id)).outcome.1 := by
  change (archive.members.mapM layerOfMember >>= fun layers =>
    ofFound (layers.filterMap id)).outcome.1 = _
  rw [Noting.outcome_bind _ fun _ => appends_ofFound _, Noting.outcome_mapM appends_layerOfMember]

/-- If all members of an archive can be loaded, its board is that of their layers. -/
theorem outcome_ofArchive {archive : Archive} (hloads : ∀ m ∈ archive.members, ∃ found,
      (layerOfMember m : Noting (Option (Layer α))).outcome.1 = .ok found) :
    (ofArchive archive : Noting (Board α)).outcome.1 =
      (ofFound (archive.members.filterMap memberLayer?)).outcome.1 := by
  have hfound : ∀ m ∈ archive.members,
      (layerOfMember m).outcome.1 = .ok (memberLayer? m : Option (Layer α)) := fun m hm =>
    have ⟨_, h⟩ := hloads m hm
    outcome_layerOfMember h
  have hmap : archive.members.map (fun m => (layerOfMember m).outcome.1) =
      (archive.members.map (memberLayer? (α := α))).map .ok := by
    rw [List.map_map]
    exact List.map_congr_left hfound
  rw [outcome_ofArchive_bind, Outcome.mapM_eq_ok_iff.mpr hmap]
  change (ofFound ((archive.members.map memberLayer?).filterMap id)).outcome.1 = _
  rw [List.filterMap_map]
  rfl

/-- The layers of the members of an archive. -/
def layersOf (archive : Archive) : List (Layer α) := archive.members.filterMap memberLayer?

theorem exists_board_of_archive (archive : Archive) (accepts : Board α → Bool)
    (hloads : (archive.members.all fun m =>
      (layerOfMember m : Noting (Option (Layer α))).outcome.1.isOk) = true)
    (horder : InOrder (layersOf (α := α) archive))
    (h : (ofSorted (layersOf archive)).outcome.1.toOption.any accepts = true) :
    ∃ b, (ofArchive archive).outcome.1 = .ok b ∧ accepts b = true := by
  rw [outcome_ofArchive fun m hm => Outcome.isOk_iff.mp (List.all_eq_true.mp hloads m hm),
    ← layersOf, ofFound_of_inOrder horder]
  exact Outcome.exists_of_any_toOption h

/-- The order of the members of an archive has no influence on its board, as long as they have
different names and all of them can be loaded: it is the same board, or the same fault. -/
theorem ofArchive_eq_of_perm {first second : Archive}
    (hperm : first.members.Perm second.members)
    (hnames : (first.members.map Member.name).Nodup)
    (hloads : ∀ m ∈ first.members, ∃ found,
      (layerOfMember m : Noting (Option (Layer α))).outcome.1 = .ok found) :
    (ofArchive first : Noting (Board α)).outcome.1 = (ofArchive second).outcome.1 := by
  have hother : ∀ m ∈ second.members, ∃ found,
      (layerOfMember m : Noting (Option (Layer α))).outcome.1 = .ok found :=
    fun m hm => hloads m (hperm.mem_iff.mpr hm)
  have hlayers := hperm.filterMap (memberLayer? (α := α))
  rw [outcome_ofArchive hloads, outcome_ofArchive hother,
    ofFound_eq_of_perm hlayers (nodup_names hnames)]

/-- Top copper and drills in either order, next to a note that is passed over, make one board. -/
theorem ofArchive_eq_of_perm_copperAndDrills :
    let member (name text : String) : Member := ⟨name, .bytes (Utf8.encode text.toList)⟩
    let copper := member "a-F_Cu.gbr" "%FSLAX11Y11*%G36*X0Y0D02*X10Y0D01*G37*M02*"
    let drills := member "a.drl" "T1C0.8\nT1\nX001000Y002000\nM30\n"
    let note := member "note.txt" "top side up"
    let first : Archive := ⟨[copper, drills, note]⟩
    let second : Archive := ⟨[note, drills, copper]⟩
    first.members.Perm second.members ∧ (first.members.map Member.name).Nodup ∧
      (∀ m ∈ first.members, ∃ found,
        (layerOfMember m : Noting (Option (Layer Float))).outcome.1 = .ok found) ∧
      ∃ b : Board Float, (ofArchive first).outcome.1 = .ok b ∧
        (ofArchive second).outcome.1 = .ok b ∧ b.layers.map Layer.suffix = ["F_Cu", "drl"] := by
  intro member copper drills note first second
  have hperm : first.members.Perm second.members := (List.reverse_perm first.members).symm
  have hnames : (first.members.map Member.name).Nodup := by decide
  have hevery : first.members.all (fun m =>
      (layerOfMember m : Noting (Option (Layer Float))).outcome.1.isOk) = true := by
    decide +kernel
  have hloads : ∀ m ∈ first.members, ∃ found,
      (layerOfMember m : Noting (Option (Layer Float))).outcome.1 = .ok found := fun m hm =>
    Outcome.isOk_iff.mp (List.all_eq_true.mp hevery m hm)
  obtain ⟨b, hb, hsuffixes⟩ := exists_board_of_archive first
    (fun b : Board Float => decide (b.layers.map Layer.suffix = ["F_Cu", "drl"])) hevery
    (by decide +kernel) (by decide +kernel)
  exact ⟨hperm, hnames, hloads, b, hb,
    (ofArchive_eq_of_perm hperm hnames hloads).symm.trans hb, of_decide_eq_true hsuffixes⟩

end Board

end BoardMill
