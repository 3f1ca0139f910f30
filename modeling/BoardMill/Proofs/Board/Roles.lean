import BoardMill.Proofs.Board.Sources

/-! # What decides the kind of a layer

A document in an archive may say what it is. If that is something that is machined, its layer is of
that kind, whatever the file is called. If it is anything else, the document might as well not say
it: the name of the file decides.
-/

namespace BoardMill

variable {α : Type}

/-- Only copper, outlines and drills are functions that are machined. -/
theorem LayerKind.ofFileFunction_eq_other {args : List String}
    (h : ∀ function ∈ args.head?, function ∉ ["Copper", "Profile", "Plated", "NonPlated"]) :
    ofFileFunction args = other := by
  unfold ofFileFunction
  split <;> first | rfl | simp at h

namespace Layer

theorem kindOf_of_fileFunction {d : Gerber.Document α} {args : List String}
    (h : d.fileFunction? = some args) (byName : LayerKind) :
    kindOf byName d =
      if (LayerKind.ofFileFunction args).isMachined then LayerKind.ofFileFunction args
      else byName := by
  rw [kindOf, h, Option.map_some]
  cases LayerKind.ofFileFunction args <;> rfl

variable [Numeral α]

/-- A document that is read is a layer if its kind is machined, unless it holds no asterisk. -/
theorem ofText_of_document {name : String} {text : List Char} {d : Gerber.Document α}
    (hname : LayerKind.ofFileName name ≠ .drills) (hd : Gerber.Document.ofText? text = .ok d) :
    ofText name text =
      (pure (if '*' ∈ text then ofDocument? name (.ofFileName name) d else none) :
        Noting (Option (Layer α))) := by
  unfold ofText
  dsimp only
  rw [if_neg hname, hd]
  by_cases hstar : '*' ∈ text
  · rw [if_pos hstar, if_neg (by simpa using hstar)]
  · rw [if_neg hstar, if_pos (by simpa using hstar)]

end Layer

namespace Board

variable [Numeral α]

theorem layerOfMember_of_text {m : Member} {text : List Char} (hplain : m.isDirectory = false)
    (htext : m.content.text? = some text) :
    layerOfMember m = (Layer.ofText m.name text : Noting (Option (Layer α))) := by
  unfold layerOfMember
  rw [hplain, htext]
  rcases hcontent : m.content with bytes | _ | reason
  · rfl
  · rfl
  · rw [hcontent] at htext
    cases htext

/-- Members have names of their own, so the layer of a name is that of the member. -/
theorem mem_of_member {members : List Member} {b : Board α}
    (h : (ofArchive (.ofMembers members)).outcome.1 = .ok b) {m : Member}
    (hm : m ∈ (Archive.ofMembers members).members) {found : Option (Layer α)}
    (hfound : (layerOfMember m).outcome.1 = .ok found) {l : Layer α} :
    l ∈ b.layers.map Layer.unnumbered ∧ l.name = m.name ↔ found = some l := by
  rw [mem_of_ofArchive h]
  constructor
  · rintro ⟨⟨other, hother, hl⟩, hname⟩
    have hown : l.name = other.name := ((returns_layerOfMember other).of_outcome hl l rfl).name_eq
    obtain rfl : other = m :=
      List.inj_on_of_nodup_map (Archive.nodup_ofMembers members) hother hm (hown.symm.trans hname)
    exact Except.ok.inj (hfound.symm.trans hl)
  · rintro rfl
    exact ⟨⟨m, hm, hfound⟩, ((returns_layerOfMember m).of_outcome hfound l rfl).name_eq⟩

/-- If a document in an archive says that it is something that is machined, that is the kind of its
layer, whatever the file is called. If it says that it is anything else, its name decides, as long
as it is not that of a drill file: it is a layer of the kind that its name gives, if that is one
that is machined. A text without an asterisk is no layer at all. -/
theorem attribute_decides_if_machined {members : List Member} {b : Board α}
    (h : (ofArchive (.ofMembers members)).outcome.1 = .ok b) {m : Member}
    (hm : m ∈ (Archive.ofMembers members).members) (hplain : m.isDirectory = false)
    {text : List Char} (htext : m.content.text? = some text) {d : Gerber.Document α}
    (hd : Gerber.Document.ofText? text = .ok d) {args : List String}
    (hargs : d.fileFunction? = some args) (hname : LayerKind.ofFileName m.name ≠ .drills) :
    let named := LayerKind.ofFileFunction args
    let kind := if named.isMachined then named else LayerKind.ofFileName m.name
    (∀ l ∈ b.layers, l.name = m.name → l.kind = kind ∧ l.data = .gerber d) ∧
      ((∃ l ∈ b.layers, l.name = m.name) ↔ kind.isMachined = true ∧ '*' ∈ text) ∧
      ((∀ function ∈ args.head?, function ∉ ["Copper", "Profile", "Plated", "NonPlated"]) →
        named = .other) := by
  intro named kind
  have hfound : (layerOfMember m).outcome.1 =
      .ok (if '*' ∈ text then Layer.ofDocument? m.name (.ofFileName m.name) d else none) := by
    rw [layerOfMember_of_text hplain htext, Layer.ofText_of_document hname hd]
    rfl
  have hdocument : Layer.ofDocument? m.name (.ofFileName m.name) d =
      if kind.isMachined then some (.ofData m.name kind (.gerber d)) else none := by
    rw [Layer.ofDocument?, Layer.kindOf_of_fileFunction hargs]
  have hlayer {l : Layer α} : l ∈ b.layers.map Layer.unnumbered ∧ l.name = m.name ↔
      (kind.isMachined = true ∧ '*' ∈ text) ∧ l = .ofData m.name kind (.gerber d) := by
    rw [mem_of_member h hm hfound, hdocument]
    by_cases hstar : '*' ∈ text <;> cases kind.isMachined <;> simp [hstar, eq_comm]
  have hown (l : Layer α) (hl : l ∈ b.layers) (hlname : l.name = m.name) :=
    hlayer.mp ⟨List.mem_map_of_mem hl, (hlname : l.unnumbered.name = m.name)⟩
  refine ⟨fun l hl hlname => ?_, ⟨fun ⟨l, hl, hlname⟩ => (hown l hl hlname).1, fun hkind => ?_⟩,
    LayerKind.ofFileFunction_eq_other⟩
  · have hsame := (hown l hl hlname).2
    exact ⟨congrArg Layer.kind hsame, congrArg Layer.data hsame⟩
  · obtain ⟨hmem, hlname⟩ := hlayer.mpr ⟨hkind, rfl⟩
    obtain ⟨l, hl, hsame⟩ := List.mem_map.mp hmem
    exact ⟨l, hl, congrArg Layer.name hsame⟩

/-- Top copper by its name, and the outline by what it says. -/
theorem attribute_decides_if_machined_profile :
    let text := "%FSLAX11Y11*%%TF.FileFunction,Profile,NP*%G36*X0Y0D02*X10Y0D01*G37*M02*".toList
    let m : Member := ⟨"board-F_Cu.gbr", .bytes (Utf8.encode text)⟩
    ∃ (b : Board Float) (d : Gerber.Document Float),
      (ofArchive (.ofMembers [m])).outcome.1 = .ok b ∧ m ∈ (Archive.ofMembers [m]).members ∧
        m.isDirectory = false ∧ m.content.text? = some text ∧
        Gerber.Document.ofText? text = .ok d ∧ d.fileFunction? = some ["Profile", "NP"] ∧
        LayerKind.ofFileName m.name = .copperTop ∧
        (∀ l ∈ b.layers, l.name = m.name → l.kind = .outline ∧ l.data = .gerber d) ∧
        ∃ l ∈ b.layers, l.name = m.name := by
  intro text m
  obtain ⟨b, hb, -⟩ := exists_board_of_archive (.ofMembers [m]) (fun _ : Board Float => true)
    (by decide +kernel) (by decide +kernel) (by decide +kernel)
  have hread : (Gerber.Document.ofText? text : Except Fault (Gerber.Document Float)).toOption.any
      (fun d => decide (d.fileFunction? = some ["Profile", "NP"])) = true := by
    decide +kernel
  obtain ⟨d, hd, hfunction⟩ := Outcome.exists_of_any_toOption hread
  have hm : m ∈ (Archive.ofMembers [m]).members := List.mem_singleton_self m
  have hplain : m.isDirectory = false := by decide +kernel
  have htext : m.content.text? = some text := Utf8.decode?_eq_some_iff.mpr rfl
  have hname : LayerKind.ofFileName m.name = .copperTop := by decide +kernel
  have hargs := of_decide_eq_true hfunction
  obtain ⟨hkind, hlayer, -⟩ := attribute_decides_if_machined hb hm hplain htext hd hargs
    (by rw [hname]; decide)
  exact ⟨b, d, hb, hm, hplain, htext, hd, hargs, hname, hkind, hlayer.mpr ⟨rfl, by decide +kernel⟩⟩

/-- A legend is milled as top copper if its file is called so. -/
theorem legend_named_copper :
    let text := "%FSLAX11Y11*%%TF.FileFunction,Legend,Top*%G36*X0Y0D02*X10Y0D01*G37*M02*".toList
    let m : Member := ⟨"board-F_Cu.gbr", .bytes (Utf8.encode text)⟩
    ∃ (b : Board Float) (d : Gerber.Document Float),
      (ofArchive (.ofMembers [m])).outcome.1 = .ok b ∧ m.content.text? = some text ∧
        Gerber.Document.ofText? text = .ok d ∧ d.fileFunction? = some ["Legend", "Top"] ∧
        LayerKind.ofFileFunction ["Legend", "Top"] = .other ∧
        LayerKind.ofFileName m.name ≠ .drills ∧
        b.layers.map (fun l => (l.name, l.kind)) = [(m.name, .copperTop)] := by
  intro text m
  obtain ⟨b, hb, hlayers⟩ := exists_board_of_archive (.ofMembers [m])
    (fun b : Board Float =>
      decide (b.layers.map (fun l => (l.name, l.kind)) = [(m.name, .copperTop)]))
    (by decide +kernel) (by decide +kernel) (by decide +kernel)
  have hread : (Gerber.Document.ofText? text : Except Fault (Gerber.Document Float)).toOption.any
      (fun d => decide (d.fileFunction? = some ["Legend", "Top"])) = true := by
    decide +kernel
  obtain ⟨d, hd, hfunction⟩ := Outcome.exists_of_any_toOption hread
  exact ⟨b, d, hb, Utf8.decode?_eq_some_iff.mpr rfl, hd, of_decide_eq_true hfunction, by decide,
    by decide +kernel, of_decide_eq_true hlayers⟩

end Board

end BoardMill
