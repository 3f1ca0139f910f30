import BoardMill.Proofs.Board.Sources
import BoardMill.Proofs.Layer.Names

/-! # Files of a base name

The files of a board have names that end in the part of their layer. Each of them gives the kind
that its name gives, unless it is a document that says it is something else that is machined.
-/

namespace BoardMill

open NotingT (Returns)

variable {α : Type}

namespace LayerKind

/-- A file is classified by the letters behind its base name, and by what stands in front of them
behind the last directory. -/
theorem exists_ofFileName_append (base ending : String)
    (hclear : '/' ∉ ending.toList.map lower ∧ '\\' ∉ ending.toList.map lower) :
    ∃ front, ofFileName (base ++ ending) = ofLowered (front ++ ending.toList.map lower) := by
  obtain ⟨directory, stem, hbase, hdirectory, hslash, hback⟩ := exists_directory base.toList
  have hpath : base ++ ending = String.ofList (directory ++ stem ++ ending.toList) := by
    rw [← hbase, ← String.toList_append, String.ofList_toList]
  rw [hpath]
  exact ⟨_, ofFileName_path hdirectory hslash hback rfl hclear⟩

theorem ofFileName_drl (base : String) : ofFileName (base ++ ".drl") = drills := by
  obtain ⟨front, hkind⟩ := exists_ofFileName_append base ".drl" (by decide)
  exact hkind.trans (ofLowered_drl front)

/-- The files of a board that are not named as drill files. -/
def documentEndings : List String := ["-F_Cu.gbr", "-B_Cu.gbr", "-Edge_Cuts.gbr"]

theorem ofFileName_ne_drills {ending : String} (h : ending ∈ documentEndings) (base : String) :
    ofFileName (base ++ ending) ≠ drills := by
  have hclear : ∀ ending ∈ documentEndings,
      '/' ∉ ending.toList.map lower ∧ '\\' ∉ ending.toList.map lower := by
    decide
  obtain ⟨front, hkind⟩ := exists_ofFileName_append base ending (hclear ending h)
  rw [hkind]
  simp only [documentEndings, List.mem_cons, List.not_mem_nil, or_false] at h
  rcases h with rfl | rfl | rfl
  · exact fun hdrills => nomatch (ofLowered_front front).symm.trans hdrills
  · refine fun hdrills => absurd ((ofLowered_back front).symm.trans hdrills) ?_
    split <;> decide
  · refine fun hdrills => absurd ((ofLowered_edge front).symm.trans hdrills) ?_
    split
    · decide
    split
    · decide
    · cases innerIn? front <;> exact nofun

end LayerKind

namespace Layer

variable [Numeral α] {name : String}

theorem returns_ofText_drills (h : LayerKind.ofFileName name = .drills) (text : List Char) :
    Returns (fun found => ∀ l ∈ found, l.kind = .drills)
      (ofText name text : Noting (Option (Layer α))) := by
  have hdrill : Returns (fun l => l.kind = .drills) (ofDrillText name text : Noting (Layer α)) :=
    .bind (.any _) fun _ _ => .bind (.any _) fun _ _ => .pure rfl
  unfold ofText
  dsimp only
  rw [if_pos h]
  exact .bind hdrill fun l hl => .pure fun _ hlayer => Option.some.inj hlayer ▸ hl

theorem returns_ofText_document (h : LayerKind.ofFileName name ≠ .drills) (text : List Char) :
    Returns (fun found => ∀ l ∈ found,
        ∃ d, l.data = .gerber d ∧ l.kind = kindOf (.ofFileName name) d)
      (ofText name text : Noting (Option (Layer α))) := by
  unfold ofText
  dsimp only
  rw [if_neg h]
  refine .ite (.pure nofun) ?_
  split
  next d _ =>
    refine .pure fun l hl => ⟨d, ?_⟩
    unfold ofDocument? at hl
    dsimp only at hl
    split at hl <;> cases hl
    exact ⟨rfl, rfl⟩
  next fault _ => exact .ite (.bind (.any _) fun _ _ => .pure nofun) (.throw fault)

end Layer

namespace Board

variable [Numeral α]

/-- What the layer of a text is like is what the layer of a file with the text is like. -/
theorem returns_of_returns_ofText {P : Layer α → Prop} {path : String}
    (h : ∀ text, Returns (fun found => ∀ l ∈ found, P l) (Layer.ofText path text)) :
    Returns (fun found => ∀ l ∈ found, P l)
      (layerOfFile path : NotingT (StateM FileTree) (Option (Layer α))) := by
  refine .bind (.any _) fun _ _ => .ite (.pure nofun) ?_
  exact .bind (.any _) fun _ _ => .bind (.any _) fun text _ => (h text).lift

open LayerKind (lower names topWords bottomWords innerIn? innerPart ofFileName)

/-- A name that ends in the part of its layer gives the kind of that part, in any letter case and
behind any directories: always for top copper and drills; for bottom copper, an outline and inner
copper unless words that are looked for earlier stand in front of the part. Those are the words for
top copper, then those for bottom copper, and then, for an outline, a number of inner copper. The
part of inner copper does not count at all if `_cu` stands in front of it.

The files of a board are classified so, unless a document says that it is something else that is
machined. -/
theorem endings_name_kinds :
    (∀ directory stem ending : List Char,
      (∀ c ∈ directory.getLast?, c = '/' ∨ c = '\\') → '/' ∉ stem → '\\' ∉ stem →
      let kind := ofFileName (String.ofList (directory ++ stem ++ ending))
      let front := stem.map lower
      let lowered := ending.map lower
      (lowered = "-f_cu.gbr".toList → kind = .copperTop) ∧
      (lowered = ".drl".toList → kind = .drills) ∧
      (lowered = "-b_cu.gbr".toList →
        kind = if names topWords front then .copperTop else .copperBottom) ∧
      (lowered = "-edge_cuts.gbr".toList →
        kind = if names topWords front then .copperTop
          else if names bottomWords front then .copperBottom
          else ((innerIn? front).map LayerKind.inner).getD .outline) ∧
      ∀ n < 2 ^ 32, lowered = "-in".toList ++ Decimal.toDigits n ++ "_cu.gbr".toList →
        kind = if Text.contains "_cu".toList front then LayerKind.ofWords front
          else if names topWords front then .copperTop
          else if names bottomWords front then .copperBottom
          else LayerKind.inner n) ∧
    ∀ (base : String) (t : FileTree) (b : Board α),
      ((ofFiles base : NotingT (StateM FileTree) (Board α)).outcome.run t).1.1 = .ok b →
      ∀ l ∈ b.layers,
        (l.name = base ++ ".drl" ∧ l.kind = .drills) ∨
        ∃ ending ∈ ["-F_Cu.gbr", "-B_Cu.gbr", "-Edge_Cuts.gbr"], l.name = base ++ ending ∧
          ∃ d, l.data = .gerber d ∧ l.kind = Layer.kindOf (ofFileName (base ++ ending)) d := by
  refine ⟨fun directory stem ending hdirectory hslash hback => ?_, fun base t b h l hl => ?_⟩
  · intro kind front lowered
    have hkind (hclear : '/' ∉ lowered ∧ '\\' ∉ lowered) :
        kind = LayerKind.ofLowered (front ++ lowered) :=
      LayerKind.ofFileName_path hdirectory hslash hback rfl hclear
    refine ⟨fun h => ?_, fun h => ?_, fun h => ?_, fun h => ?_, fun n hn h => ?_⟩
    · rw [hkind (h ▸ by decide), h, LayerKind.ofLowered_front]
    · rw [hkind (h ▸ by decide), h, LayerKind.ofLowered_drl]
    · rw [hkind (h ▸ by decide), h, LayerKind.ofLowered_back]
    · rw [hkind (h ▸ by decide), h, LayerKind.ofLowered_edge]
    · have hpart : lowered = '-' :: (innerPart n ++ ".gbr".toList) := by
        rw [h, innerPart, List.append_assoc ("in".toList ++ _)]
        rfl
      have hclear : '/' ∉ lowered ∧ '\\' ∉ lowered := by
        rw [hpart]
        rw [List.mem_cons, List.mem_cons, not_or, not_or]
        exact ⟨⟨by decide, LayerKind.not_mem_innerPart n (by decide) (by decide) (by decide)⟩,
          by decide, LayerKind.not_mem_innerPart n (by decide) (by decide) (by decide)⟩
      rw [hkind hclear, hpart]
      exact LayerKind.ofLowered_inner front (Nat.le_of_lt_succ hn)
  · obtain ⟨ending, hending, hloaded⟩ := (mem_of_ofFiles h).mp (List.mem_map_of_mem hl)
    have hname : l.name = base ++ ending :=
      ((returns_layerOfFile (base ++ ending)).of_run hloaded l.unnumbered rfl).name_eq
    have hcases : ∀ ending ∈ fileEndings, ending ∈ LayerKind.documentEndings ∨ ending = ".drl" := by
      decide
    rcases hcases ending hending with hdocument | rfl
    · have hkind := Layer.returns_ofText_document (α := α)
        (LayerKind.ofFileName_ne_drills hdocument base)
      exact .inr ⟨ending, hdocument, hname,
        (returns_of_returns_ofText hkind).of_run hloaded l.unnumbered rfl⟩
    · have hkind := Layer.returns_ofText_drills (α := α) (LayerKind.ofFileName_drl base)
      exact .inl ⟨hname, (returns_of_returns_ofText hkind).of_run hloaded l.unnumbered rfl⟩

/-- An inner layer that is called in large letters, and the drill file of a board. -/
theorem endings_name_kinds_inner :
    let directory := "out/".toList
    let stem := "Board".toList
    let ending := "-IN3_CU.GBR".toList
    let tree := FileTree.empty.put (["tmp", "job", "demo.drl"].map String.toList)
      (.file ⟨(Utf8.encode "T1C0.8\nT1\nX001000Y002000\nM30\n".toList).toArray⟩)
    ending.map lower = "-in".toList ++ Decimal.toDigits 3 ++ "_cu.gbr".toList ∧
      ofFileName (String.ofList (directory ++ stem ++ ending)) = LayerKind.inner 3 ∧
      ∃ b : Board Float,
        ((ofFiles "demo" : NotingT (StateM FileTree) (Board Float)).outcome.run tree).1.1 = .ok b ∧
          b.layers.map Layer.name = ["demo.drl"] ∧ ∀ l ∈ b.layers, l.kind = .drills := by
  intro directory stem ending tree
  obtain ⟨hnames, hfiles⟩ := endings_name_kinds (α := Float)
  have hlast : directory.getLast? = some '/' := by decide
  have hdirectory : ∀ c ∈ directory.getLast?, c = '/' ∨ c = '\\' :=
    fun c hc => .inl (Option.some.inj (hlast.symm.trans hc)).symm
  obtain ⟨-, -, -, -, hinner⟩ :=
    hnames directory stem ending hdirectory (by decide) (by decide)
  have hlowered : ending.map lower =
      "-in".toList ++ Decimal.toDigits 3 ++ "_cu.gbr".toList := by
    decide +kernel
  have hkind := hinner 3 (by decide) hlowered
  obtain ⟨b, hb, hlayers⟩ := exists_board_of_files tree "demo"
    (fun b : Board Float => decide (b.layers.map Layer.name = ["demo.drl"]))
    (by decide +kernel) (by decide +kernel) (by decide +kernel)
  have hlayers := of_decide_eq_true hlayers
  refine ⟨hlowered, hkind.trans (by decide +kernel), b, hb, hlayers, fun l hl => ?_⟩
  have hname : l.name = "demo.drl" := by
    simpa [hlayers] using List.mem_map_of_mem (f := Layer.name) hl
  rcases hfiles "demo" tree b hb l hl with ⟨-, hdrills⟩ | ⟨other, hother, hfile, -⟩
  · exact hdrills
  · have hnot : ∀ other ∈ LayerKind.documentEndings, "demo.drl" ≠ "demo" ++ other := by decide
    exact absurd (hname.symm.trans hfile) (hnot other hother)

/-- A base name with the words of top copper in it, and a document that says that it is bottom
copper, though it is named as top copper. -/
theorem endings_overruled :
    let text := "%FSLAX11Y11*%%TF.FileFunction,Copper,L2,Bot*%G36*X0Y0D02*X10Y0D01*G37*M02*"
    let tree := FileTree.empty.put (["tmp", "job", "demo-F_Cu.gbr"].map String.toList)
      (.file ⟨(Utf8.encode text.toList).toArray⟩)
    ofFileName "f_cu-B_Cu.gbr" = .copperTop ∧
      ∃ b : Board Float,
        ((ofFiles "demo" : NotingT (StateM FileTree) (Board Float)).outcome.run tree).1.1 = .ok b ∧
          b.layers.map (fun l => (l.name, l.kind)) = [("demo-F_Cu.gbr", .copperBottom)] := by
  intro text tree
  obtain ⟨b, hb, hlayers⟩ := exists_board_of_files tree "demo"
    (fun b : Board Float =>
      decide (b.layers.map (fun l => (l.name, l.kind)) = [("demo-F_Cu.gbr", .copperBottom)]))
    (by decide +kernel) (by decide +kernel) (by decide +kernel)
  exact ⟨by decide +kernel, b, hb, of_decide_eq_true hlayers⟩

end Board

end BoardMill
