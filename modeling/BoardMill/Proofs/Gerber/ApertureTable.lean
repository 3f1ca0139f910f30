import BoardMill.Proofs.Gerber.Modal
import BoardMill.Proofs.Scalar.Double

/-! # The aperture table

Every definition up to the end marker gives one entry of the table, which is what the definition
states: an aperture that fits, under a number from ten on that none of the others has. The first
definition that does not give one is what its text is refused for.
-/

namespace BoardMill

open Outcome

variable {α : Type} [Scalar α]

/-! ## Apertures that fit -/

/-- A hole is no larger than what is around it. -/
structure Hole.FitsIn (hole : Hole α) (outer : Size α) : Prop where
  width : 0.0 ≤ hole.size.width ∧ hole.size.width ≤ outer.width
  height : 0.0 ≤ hole.size.height ∧ hole.size.height ≤ outer.height

/-- An aperture has sizes, a polygon from three to twelve vertices, and a hole fits. -/
structure Aperture.Fits (a : Aperture α) : Prop where
  width : 0.0 ≤ a.size.width
  height : 0.0 ≤ a.size.height
  vertices : ∀ diameter vertices rotation, a.shape = .polygon diameter vertices rotation →
    3 ≤ vertices ∧ vertices ≤ 12
  hole : ∀ hole, a.hole = some hole → hole.FitsIn a.size

theorem Size.isNonneg_iff {s : Size α} : s.isNonneg = true ↔ 0.0 ≤ s.width ∧ 0.0 ≤ s.height := by
  simp [isNonneg]

omit [Scalar α] in
theorem Shape.hasVertices_iff {shape : Shape α} :
    shape.hasVertices = true ↔ ∀ diameter vertices rotation,
      shape = .polygon diameter vertices rotation → 3 ≤ vertices ∧ vertices ≤ 12 := by
  cases shape with
  | polygon diameter vertices rotation =>
      simp only [hasVertices, Bool.and_eq_true, decide_eq_true_iff]
      constructor
      · rintro h _ _ _ heq
        cases heq
        exact h
      · exact fun h => h diameter vertices rotation rfl
  | circle diameter => simp [hasVertices]
  | rectangle xSize ySize => simp [hasVertices]
  | obround xSize ySize => simp [hasVertices]

namespace Aperture

variable [OrderedScalar α] {a : Aperture α}

/-- A hole is let through exactly if it fits. -/
theorem checkHole_eq_ok_iff (ha : a.size.isNonneg = true) {hole : Hole α} :
    a.checkHole hole = .ok () ↔ hole.FitsIn a.size := by
  obtain ⟨hwidth, hheight⟩ := Size.isNonneg_iff.mp ha
  unfold checkHole
  by_cases hnonneg : hole.size.isNonneg = true
  · rw [hnonneg, Bool.not_true, if_neg Bool.false_ne_true]
    obtain ⟨hholeWidth, hholeHeight⟩ := Size.isNonneg_iff.mp hnonneg
    by_cases hlarge : (a.size.width < hole.size.width || a.size.height < hole.size.height) = true
    · rw [if_pos hlarge]
      refine ⟨nofun, fun hfits => ?_⟩
      rw [Bool.or_eq_true, decide_eq_true_iff, decide_eq_true_iff] at hlarge
      rcases hlarge with hlarge | hlarge
      · exact absurd hlarge (Scalar.not_lt_of_le hfits.width.2)
      · exact absurd hlarge (Scalar.not_lt_of_le hfits.height.2)
    · rw [if_neg hlarge]
      rw [Bool.or_eq_true, decide_eq_true_iff, decide_eq_true_iff, not_or] at hlarge
      refine ⟨fun _ => ⟨⟨hholeWidth, ?_⟩, hholeHeight, ?_⟩, fun _ => rfl⟩
      · exact Scalar.le_of_not_lt (OrderedScalar.isNaN_right _ _ hholeWidth)
          (OrderedScalar.isNaN_right _ _ hwidth) hlarge.1
      · exact Scalar.le_of_not_lt (OrderedScalar.isNaN_right _ _ hholeHeight)
          (OrderedScalar.isNaN_right _ _ hheight) hlarge.2
  · rw [Bool.eq_false_iff.mpr hnonneg, Bool.not_false, if_pos rfl]
    refine ⟨nofun, fun hfits => absurd ?_ hnonneg⟩
    exact Size.isNonneg_iff.mpr ⟨hfits.width.1, hfits.height.1⟩

/-- An aperture is let through exactly if it fits. -/
theorem check_eq_ok_iff : a.check = .ok () ↔ a.Fits := by
  unfold check
  by_cases hnonneg : a.size.isNonneg = true
  · rw [hnonneg, Bool.not_true, if_neg Bool.false_ne_true]
    obtain ⟨hwidth, hheight⟩ := Size.isNonneg_iff.mp hnonneg
    by_cases hvertices : a.shape.hasVertices = true
    · rw [hvertices, Bool.not_true, if_neg Bool.false_ne_true]
      have hshape := Shape.hasVertices_iff.mp hvertices
      cases hhole : a.hole with
      | none =>
          refine ⟨fun _ => ⟨hwidth, hheight, hshape, fun hole heq => ?_⟩, fun _ => rfl⟩
          rw [hhole] at heq
          cases heq
      | some hole =>
          dsimp only
          rw [checkHole_eq_ok_iff hnonneg]
          refine ⟨fun hfits => ⟨hwidth, hheight, hshape, fun other heq => ?_⟩,
            fun hfits => hfits.hole hole hhole⟩
          rw [hhole] at heq
          cases heq
          exact hfits
    · rw [Bool.eq_false_iff.mpr hvertices, Bool.not_false, if_pos rfl]
      exact ⟨nofun, fun hfits => absurd (Shape.hasVertices_iff.mpr hfits.vertices) hvertices⟩
  · rw [Bool.eq_false_iff.mpr hnonneg, Bool.not_false, if_pos rfl]
    exact ⟨nofun, fun hfits => absurd (Size.isNonneg_iff.mpr ⟨hfits.width, hfits.height⟩) hnonneg⟩

end Aperture

/-! ## Tables -/

namespace ApertureTable

variable {table : ApertureTable α} {a : Aperture α}

omit [Scalar α] in
theorem get?_eq_none_iff {number : Nat} :
    table.get? number = none ↔ ∀ a ∈ table.entries, a.number ≠ number := by
  simp [get?]

omit [Scalar α] in
theorem define_eq_ok_iff {next : ApertureTable α} :
    table.define a = .ok next ↔ table.get? a.number = none ∧ next = ⟨table.entries ++ [a]⟩ := by
  unfold define
  cases table.get? a.number with
  | none =>
      dsimp only
      rw [and_iff_right rfl]
      exact ⟨fun h => by cases h; rfl, fun h => by rw [h]; rfl⟩
  | some taken => exact ⟨nofun, fun h => nomatch h.1⟩

omit [Scalar α] in
/-- Under a number that only one aperture has, this one is found. -/
theorem get?_of_mem (h : table.entries.Pairwise fun a b => a.number ≠ b.number)
    (ha : a ∈ table.entries) : table.get? a.number = some a := by
  obtain ⟨entries⟩ := table
  unfold get?
  dsimp only at h ha ⊢
  induction h with
  | nil => cases ha
  | @cons first rest hfirst hrest ih =>
      rcases List.mem_cons.mp ha with rfl | ha
      · exact List.find?_cons_of_pos (beq_self_eq_true a.number)
      · rw [List.find?_cons_of_neg (by simpa using hfirst a ha)]
        exact ih ha

end ApertureTable

namespace Gerber

/-! ## Definitions among the tokens -/

/-- Whether a token is an aperture definition. -/
def Token.defines (t : Token) : Bool := t.kind == .extended && "AD".toList.isPrefixOf t.text

variable (α) in
/-- The aperture that a token states. -/
def Token.aperture? (t : Token) : Option (Aperture α) :=
  if t.defines then Definition.stated? (t.text.drop 2) else none

variable {t : Token}

theorem Token.exists_text_of_defines (h : t.defines = true) :
    t.kind = .extended ∧ ∃ rest, t.text = 'A' :: 'D' :: rest := by
  rw [defines, Bool.and_eq_true, beq_iff_eq, List.isPrefixOf_iff_prefix] at h
  obtain ⟨hkind, rest, hrest⟩ := h
  exact ⟨hkind, rest, hrest.symm⟩

/-! ## Steps of the reader -/

namespace Reading

variable {r next last : Reading α}

theorem apertures_of_word {line : Nat} {text : List Char} (h : r.word line text = .ok next) :
    next.apertures = r.apertures := by
  obtain ⟨w, -, hcases⟩ := word_eq_ok h
  rcases hcases with ⟨-, rfl⟩ | ⟨-, rfl⟩ | ⟨p, -, rfl⟩ | ⟨p, f, -, hnext⟩
  · rfl
  · rfl
  · exact prepared_apertures r line p
  · rcases fields_cases hnext with ⟨-, -, -, number, rfl⟩ | ⟨-, operation, -, hop⟩
    · exact prepared_apertures r line p
    · obtain ⟨format, target, offset, -, -, -, rfl⟩ := operate_eq_ok hop
      exact prepared_apertures r line p

/-- Tokens that are no definitions leave the table as it is. -/
theorem apertures_of_not_defines (ht : t.defines = false) (h : r.token t = .ok next) :
    next.apertures = r.apertures := by
  unfold token at h
  cases hkind : t.kind with
  | word =>
      rw [hkind] at h
      exact apertures_of_word h
  | extended =>
      rw [hkind] at h
      obtain ⟨e, he, h⟩ := bind_eq_ok.mp h
      cases e with
      | block b => cases b <;> cases h <;> rfl
      | define a =>
          rcases Extended.read?_cases he with ⟨b, hsame, -⟩ | ⟨rest, b, htext, -, -⟩ | hsame
          · cases hsame
          · rw [Token.defines, hkind, htext] at ht
            cases ht
          · cases hsame
      | nothing =>
          cases h
          rfl

/-- A definition is let through exactly if the aperture that it states may be used, under a number
that is not taken yet. -/
theorem token_eq_ok_iff_of_defines [OrderedScalar α] (ht : t.defines = true) :
    r.token t = .ok next ↔ ∃ a, t.aperture? α = some a ∧ 10 ≤ a.number ∧ a.Fits ∧
      r.apertures.get? a.number = none ∧
      next = { r with apertures := ⟨r.apertures.entries ++ [a]⟩ } := by
  obtain ⟨hkind, rest, htext⟩ := Token.exists_text_of_defines ht
  have hstated : t.aperture? α = Definition.stated? rest := by
    rw [Token.aperture?, if_pos ht, htext]
    rfl
  have hread : Extended.read? t.text =
      (Definition.read? t.text rest >>= fun a => pure (.define a) :
        Except (Defect α) (Extended α)) := by
    rw [htext]
    rfl
  rw [token, hkind, hstated]
  dsimp only
  rw [extended, hread]
  constructor
  · intro h
    obtain ⟨e, he, h⟩ := bind_eq_ok.mp h
    obtain ⟨a, ha, hsame⟩ := bind_eq_ok.mp he
    cases hsame
    obtain ⟨hstates, hten, hchecked⟩ := Definition.read?_eq_ok_iff.mp ha
    dsimp only at h
    split at h
    next apertures hdefine =>
      cases h
      obtain ⟨hfree, rfl⟩ := ApertureTable.define_eq_ok_iff.mp hdefine
      exact ⟨a, hstates, hten, Aperture.check_eq_ok_iff.mp hchecked, hfree, rfl⟩
    next => cases h
  · rintro ⟨a, hstates, hten, hfits, hfree, rfl⟩
    have ha : Definition.read? t.text rest = .ok a :=
      Definition.read?_eq_ok_iff.mpr ⟨hstates, hten, Aperture.check_eq_ok_iff.mpr hfits⟩
    have hdefine := ApertureTable.define_eq_ok_iff.mpr ⟨hfree, rfl⟩
    refine bind_eq_ok.mpr ⟨.define a, bind_eq_ok.mpr ⟨a, ha, rfl⟩, ?_⟩
    dsimp only
    rw [hdefine]
    rfl

/-- A table holds what the definitions so far state: usable apertures under different numbers. -/
structure Tabulates (r : Reading α) (past : List Token) : Prop where
  entries : r.apertures.entries.map some = (past.filter Token.defines).map (Token.aperture? α)
  usable : ∀ a ∈ r.apertures.entries, 10 ≤ a.number ∧ a.Fits
  distinct : r.apertures.entries.Pairwise fun a b => a.number ≠ b.number

theorem Tabulates.start : (start : Reading α).Tabulates [] := ⟨rfl, nofun, .nil⟩

variable [OrderedScalar α] {past tokens : List Token}

theorem Tabulates.token (h : r.Tabulates past) (hnext : r.token t = .ok next) :
    next.Tabulates (past ++ [t]) := by
  cases ht : t.defines with
  | false =>
      have happertures := apertures_of_not_defines ht hnext
      refine ⟨?_, ?_, ?_⟩
      · rw [happertures, h.entries, List.filter_append]
        simp [ht]
      · rw [happertures]
        exact h.usable
      · rw [happertures]
        exact h.distinct
  | true =>
      obtain ⟨a, hstates, hten, hfits, hfree, rfl⟩ := (token_eq_ok_iff_of_defines ht).mp hnext
      refine ⟨?_, ?_, ?_⟩
      · rw [List.map_append, h.entries, List.filter_append, List.map_append]
        simp [ht, hstates]
      · exact List.forall_mem_append.mpr ⟨h.usable, by simpa using ⟨hten, hfits⟩⟩
      · refine List.pairwise_append.mpr ⟨h.distinct, List.pairwise_singleton _ _, ?_⟩
        intro b hb c hc
        rw [List.mem_singleton.mp hc]
        exact ApertureTable.get?_eq_none_iff.mp hfree b hb

theorem tabulates_of_foldlM (h : tokens.foldlM Reading.token .start = .ok r) :
    r.Tabulates tokens := by
  induction tokens using List.reverseRecOn generalizing r with
  | nil =>
      cases h
      exact .start
  | append_singleton front t ih =>
      obtain ⟨middle, last, hmiddle, hlast, hsame⟩ := exists_of_foldlM_split h
      cases hsame
      exact (ih hmiddle).token hlast

end Reading

/-- A definition that cannot stand behind some tokens: it states no aperture, or none that may be
used, or one under a number that one of them states. -/
def Token.Offends (α : Type) [Scalar α] (before : List Token) (t : Token) : Prop :=
  t.defines = true ∧ ∀ a : Aperture α, t.aperture? α = some a → 10 ≤ a.number → a.Fits →
    ∃ earlier ∈ before, ∃ b, earlier.aperture? α = some b ∧ b.number = a.number

theorem Reading.Tabulates.exists_defect [OrderedScalar α] {r : Reading α} {before : List Token}
    (h : r.Tabulates before) (ht : t.Offends α before) :
    ∃ defect, r.token t = .error defect := by
  obtain ⟨hdefines, hoffends⟩ := ht
  cases hresult : r.token t with
  | error defect => exact ⟨defect, rfl⟩
  | ok next =>
      obtain ⟨a, hstates, hten, hfits, hfree, -⟩ := (token_eq_ok_iff_of_defines hdefines).mp hresult
      obtain ⟨earlier, hearlier, b, hb, hnumber⟩ := hoffends a hstates hten hfits
      -- What an earlier token states is in the table.
      have hmem : some b ∈ r.apertures.entries.map some := by
        rw [h.entries, ← hb]
        refine List.mem_map_of_mem (List.mem_filter.mpr ⟨hearlier, ?_⟩)
        unfold Token.aperture? at hb
        split at hb
        next hdefines => exact hdefines
        next => cases hb
      obtain ⟨_, hentry, hsame⟩ := List.mem_map.mp hmem
      cases hsame
      exact absurd hnumber (ApertureTable.get?_eq_none_iff.mp hfree _ hentry)

end Gerber

namespace Gerber.Document

variable {α : Type} [Numeral α]

/-- The table of a document has one entry for every definition up to the end marker: the aperture
that it states, which fits, under a number from ten on that no other one has. The first definition
for which this cannot be is what a text is refused for, if nothing before it is. -/
theorem apertures_tabulate [OrderedScalar α] (text : List Char) :
    (∀ d : Document α, ofText? text = .ok d →
      let definitions := (Token.run α (Token.ofText text)).filter Token.defines
      d.apertures.size = definitions.length ∧
      d.apertures.entries.map some = definitions.map (Token.aperture? α) ∧
      (∀ a ∈ d.apertures.entries,
        10 ≤ a.number ∧ a.Fits ∧ d.apertures.get? a.number = some a) ∧
      d.apertures.entries.Pairwise fun a b => a.number ≠ b.number) ∧
    ∀ before t after, Token.run α (Token.ofText text) = before ++ t :: after →
      (∃ r : Reading α, before.foldlM Reading.token .start = .ok r) → t.Offends α before →
      ∃ reason, (ofText? text : Except Fault (Document α)) = .error (.malformed t.line reason) := by
  constructor
  · intro d hd definitions
    obtain ⟨last, hlast, -, rfl⟩ := ofTokens?_eq_ok_iff.mp (ofText?_eq_ok_iff.mp hd)
    have htable := Reading.tabulates_of_foldlM hlast
    refine ⟨?_, htable.entries, fun a ha => ?_, htable.distinct⟩
    · have hlength := congrArg List.length htable.entries
      rwa [List.length_map, List.length_map] at hlength
    · obtain ⟨hten, hfits⟩ := htable.usable a ha
      exact ⟨hten, hfits, ApertureTable.get?_of_mem htable.distinct ha⟩
  · rintro before t after hrun ⟨r, hr⟩ ht
    obtain ⟨defect, hdefect⟩ := (Reading.tabulates_of_foldlM hr).exists_defect ht
    have hne : Token.ofText text ≠ [] := by
      intro hnil
      rw [hnil] at hrun
      simp [Token.run] at hrun
    rw [ofText?_of_ne_nil hne]
    exact ⟨_, readFrom_of_defect hrun rfl hr hdefect⟩

/-- A circle with a hole is the one entry of its table. A rectangle cannot take the number of a
circle. -/
theorem apertures_tabulate_taken :
    let text := "%ADD10C,0.5X0.2*%M02*".toList
    let first : Token := ⟨1, .extended, "ADD10C,0.5".toList⟩
    let second : Token := ⟨2, .extended, "ADD10R,1X2".toList⟩
    let twice := "%ADD10C,0.5*%\n%ADD10R,1X2*%M02*".toList
    (∃ d : Document Float, ofText? text = .ok d ∧ d.apertures.size = 1 ∧
      ∀ a ∈ d.apertures.entries, 10 ≤ a.number ∧ a.Fits ∧ d.apertures.get? a.number = some a) ∧
    (∃ after, Token.run Float (Token.ofText twice) = [first] ++ second :: after) ∧
      (∃ r : Reading Float, [first].foldlM Reading.token .start = .ok r) ∧
      second.Offends Float [first] ∧
      ∃ reason, (ofText? twice : Except Fault (Document Float)) = .error (.malformed 2 reason) := by
  intro text first second twice
  have hrun : Token.run Float (Token.ofText twice) =
      [first] ++ second :: [⟨2, .word, "M02".toList⟩] := by decide +kernel
  have hread : ∃ r : Reading Float, [first].foldlM Reading.token .start = .ok r :=
    isOk_iff.mp (by decide +kernel)
  have hoffends : second.Offends Float [first] := by
    refine ⟨by decide, fun a ha _ _ => ⟨first, List.mem_cons_self, ?_⟩⟩
    have hfirst : (first.aperture? Float).map Aperture.number = some 10 := by decide +kernel
    have hsecond : (second.aperture? Float).map Aperture.number = some 10 := by decide +kernel
    obtain ⟨b, hb, hnumber⟩ := Option.map_eq_some_iff.mp hfirst
    rw [ha, Option.map_some, Option.some_inj] at hsecond
    exact ⟨b, hb, hnumber.trans hsecond.symm⟩
  refine ⟨?_, ⟨_, hrun⟩, hread, hoffends, ?_⟩
  · obtain ⟨d, hd⟩ := isOk_iff.mp
      (show (ofText? text : Except Fault (Document Float)).isOk = true by decide +kernel)
    obtain ⟨hsize, -, hentries, -⟩ := (apertures_tabulate text).1 d hd
    have hone : ((Token.run Float (Token.ofText text)).filter Token.defines).length = 1 := by
      decide +kernel
    exact ⟨d, hd, hsize.trans hone, hentries⟩
  · exact (apertures_tabulate twice).2 [first] second _ hrun hread hoffends

end Gerber.Document

end BoardMill
