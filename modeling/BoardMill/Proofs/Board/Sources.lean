import BoardMill.Proofs.Board.Bytes
import BoardMill.Proofs.Board.Suffixes

/-! # Where the layers of a board come from

Sorting and numbering change the order of layers and their suffixes, nothing else. So the layers
of a board are those of the members of its archive, or of its files, each of which gives at most
one.
-/

namespace BoardMill

open NotingT (Returns)
open Outcome

variable {α : Type}

/-! ## Members of an archive -/

namespace Archive

theorem mem_name_insertMember {m : Member} {members : List Member} {name : String} :
    name ∈ (insertMember m members).map Member.name ↔
      name = m.name ∨ name ∈ members.map Member.name := by
  induction members with
  | nil => simp [insertMember]
  | cons first rest ih =>
      rw [insertMember]
      split
      next hname => simp [hname]
      next =>
        rw [List.map_cons, List.mem_cons, ih, List.map_cons, List.mem_cons]
        exact or_left_comm

theorem nodup_insertMember {m : Member} {members : List Member}
    (h : (members.map Member.name).Nodup) : ((insertMember m members).map Member.name).Nodup := by
  induction members with
  | nil => exact List.nodup_singleton _
  | cons first rest ih =>
      obtain ⟨hfirst, hrest⟩ := List.nodup_cons.mp h
      rw [insertMember]
      split
      next hname => exact List.nodup_cons.mpr ⟨hname ▸ hfirst, hrest⟩
      next hname =>
        refine List.nodup_cons.mpr ⟨fun hmem => ?_, ih hrest⟩
        exact (mem_name_insertMember.mp hmem).elim hname hfirst

/-- The members of an archive have different names. -/
theorem nodup_ofMembers (members : List Member) :
    ((ofMembers members).members.map Member.name).Nodup := by
  have hfold (found : List Member) (h : (found.map Member.name).Nodup) :
      ((members.foldl (fun found m => insertMember m found) found).map Member.name).Nodup := by
    induction members generalizing found with
    | nil => exact h
    | cons m rest ih => exact ih _ (nodup_insertMember h)
  exact hfold [] List.nodup_nil

end Archive

/-! ## Numbering -/

namespace Layer

/-- The layer as it was loaded, before those of its kind are numbered. -/
def unnumbered (l : Layer α) : Layer α := { l with suffix := l.kind.suffix }

theorem IsOf.unnumbered_eq {l : Layer α} {name : String} (h : l.IsOf name) : l.unnumbered = l := by
  rw [unnumbered, ← h.suffix_eq]

theorem returns_unnumbered_numberFrom (earlier : Layer α) (number : Nat) (layers : List (Layer α)) :
    Returns (fun later => later.map unnumbered = layers.map unnumbered)
      (numberFrom earlier number layers) := by
  induction layers generalizing earlier number with
  | nil => exact .pure rfl
  | cons l rest ih =>
      have htail (next : Layer α) (number : Nat) (hnext : next.unnumbered = l.unnumbered) :
          Returns (fun later => later.map unnumbered = (l :: rest).map unnumbered)
            (numberFrom next number rest >>= fun later => pure (next :: later)) :=
        .bind (ih next number) fun _ hlater => .pure (congrArg₂ List.cons hnext hlater)
      exact .ite (.bind (.any _) fun _ _ => htail _ _ rfl) (htail _ _ rfl)

theorem returns_unnumbered_number (layers : List (Layer α)) :
    Returns (fun later => later.map unnumbered = layers.map unnumbered) (number layers) := by
  cases layers with
  | nil => exact .pure rfl
  | cons l rest =>
      exact .bind (returns_unnumbered_numberFrom l 1 rest) fun later hlater =>
        .pure (congrArg (l.unnumbered :: ·) hlater)

end Layer

/-! ## Boards -/

namespace Board

open Layer (unnumbered)

variable [Numeral α]

/-- A board has the layers that it is made of. -/
theorem returns_perm_ofLayers (layers : List (Layer α)) :
    Returns (fun b => (b.layers.map unnumbered).Perm (layers.map unnumbered)) (ofLayers layers) :=
  .bind (Layer.returns_unnumbered_number _) fun _ hlater => .bind (.any _) fun _ _ =>
    .pure (hlater ▸ (List.mergeSort_perm layers _).map _)

variable {b : Board α}

theorem mem_of_ofLayers {layers : List (Layer α)} (hlayers : ∀ l ∈ layers, ∃ name, l.IsOf name)
    (h : (ofLayers layers).outcome.1 = .ok b) {l : Layer α} :
    l ∈ b.layers.map unnumbered ↔ l ∈ layers := by
  have hmap : layers.map unnumbered = layers := by
    refine (List.map_congr_left fun l hl => ?_).trans layers.map_id
    obtain ⟨name, hname⟩ := hlayers l hl
    exact hname.unnumbered_eq
  rw [((returns_perm_ofLayers layers).of_outcome h).mem_iff, hmap]

/-- Sources that give at most one layer each, of which a board is made. -/
theorem mem_of_loaded {ι : Type} {load : ι → Except Fault (Option (Layer α))} {sources : List ι}
    {found : List (Option (Layer α))}
    (hload : ∀ source l, load source = .ok (some l) → ∃ name, l.IsOf name)
    (hfound : sources.mapM load = .ok found)
    (h : (ofLayers (found.filterMap id)).outcome.1 = .ok b) {l : Layer α} :
    l ∈ b.layers.map unnumbered ↔ ∃ source ∈ sources, load source = .ok (some l) := by
  have hmem {l : Layer α} : l ∈ found.filterMap id ↔ _ := mem_filterMap_of_mapM hfound
  have hlayers : ∀ l ∈ found.filterMap id, ∃ name, l.IsOf name := fun l hl =>
    have ⟨source, _, hsource⟩ := hmem.mp hl
    hload source l hsource
  rw [mem_of_ofLayers hlayers h, hmem]

theorem ofLayers_of_ofFound {layers : List (Layer α)} (h : (ofFound layers).outcome.1 = .ok b) :
    (ofLayers layers).outcome.1 = .ok b := by
  cases layers with
  | nil => cases h
  | cons => exact h

theorem ofLayers_of_ofNamed {base : String} {layers : List (Layer α)}
    (h : (ofNamed base layers).outcome.1 = .ok b) : (ofLayers layers).outcome.1 = .ok b := by
  cases layers with
  | nil => cases h
  | cons => exact h

/-- The layers of a board are those of the members of its archive. -/
theorem mem_of_ofArchive {archive : Archive} (h : (ofArchive archive).outcome.1 = .ok b)
    {l : Layer α} :
    l ∈ b.layers.map unnumbered ↔
      ∃ m ∈ archive.members, (layerOfMember m).outcome.1 = .ok (some l) := by
  rw [outcome_ofArchive_bind] at h
  obtain ⟨found, hfound, hboard⟩ := bind_eq_ok.mp h
  exact mem_of_loaded
    (fun m l hm => ⟨m.name, (returns_layerOfMember m).of_outcome hm l rfl⟩) hfound
    (ofLayers_of_ofFound hboard)

/-- The layers of a board are those of its files. -/
theorem mem_of_ofFiles {t : FileTree} {base : String}
    (h : ((ofFiles base : NotingT (StateM FileTree) _).outcome.run t).1.1 = .ok b) {l : Layer α} :
    l ∈ b.layers.map unnumbered ↔
      ∃ ending ∈ fileEndings, loaded t (base ++ ending) = .ok (some l) := by
  rw [outcome_ofFiles] at h
  obtain ⟨found, hfound, hboard⟩ := bind_eq_ok.mp h
  exact mem_of_loaded
    (fun ending l hl => ⟨base ++ ending, (returns_layerOfFile (base ++ ending)).of_run hl l rfl⟩)
    hfound (ofLayers_of_ofNamed hboard)

/-! ## Boards that need no sorting -/

theorem ofNamed_of_inOrder {layers : List (Layer α)} (h : InOrder layers) (base : String) :
    ofNamed base layers = ofSorted layers := by
  cases layers with
  | nil => cases h.1
  | cons l rest =>
      change ofLayers (l :: rest) = _
      rw [ofLayers, Layer.sorted_of_pairwise h.2]
      rfl

/-- The layers of the files of a base name. -/
def layersAt (t : FileTree) (base : String) : List (Layer α) :=
  fileEndings.filterMap fun ending => (loaded t (base ++ ending)).toOption.join

theorem exists_board_of_files (t : FileTree) (base : String) (accepts : Board α → Bool)
    (hloads : (fileEndings.all fun ending =>
      (loaded t (base ++ ending) : Except Fault (Option (Layer α))).isOk) = true)
    (horder : InOrder (layersAt (α := α) t base))
    (h : (ofSorted (layersAt t base)).outcome.1.toOption.any accepts = true) :
    ∃ b, ((ofFiles base : NotingT (StateM FileTree) _).outcome.run t).1.1 = .ok b ∧
      accepts b = true := by
  let found : List (Option (Layer α)) :=
    fileEndings.map fun ending => (loaded t (base ++ ending)).toOption.join
  have hfound : fileEndings.map (fun ending => loaded t (base ++ ending)) = found.map .ok := by
    rw [List.map_map]
    refine List.map_congr_left fun ending hending => ?_
    obtain ⟨entry, hentry⟩ := isOk_iff.mp (List.all_eq_true.mp hloads ending hending)
    rw [Function.comp_apply, hentry]
    rfl
  have hlayers : found.filterMap id = layersAt t base := List.filterMap_map
  rw [outcome_ofFiles, mapM_eq_ok_iff.mpr hfound]
  change ∃ b, (ofNamed base (found.filterMap id)).outcome.1 = .ok b ∧ _
  rw [hlayers, ofNamed_of_inOrder horder]
  exact exists_of_any_toOption h

end Board

end BoardMill
