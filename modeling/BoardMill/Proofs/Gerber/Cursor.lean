import BoardMill.Proofs.Gerber.Modal
import Mathlib.Data.List.Induction

/-! # One cursor for readers and drawers

The reader computes centers of arcs from its own last point. Whoever carries out the blocks
has a current point too. Both are the target of the last block that goes somewhere, so they
are the same after every token, and centers are where the drawer looks for them.
-/

namespace BoardMill.Gerber

open Outcome

variable {α : Type} [Scalar α]

theorem State.cursor_of_foldlM {table : ApertureTable α} {s : State α}
    {blocks : List (Located (Block α))} (h : blocks.foldlM State.apply (.start table) = .ok s) :
    s.cursor = cursorAfter (blocks.map Located.value) := by
  rw [State.eq_afterAll_of_foldlM h]
  have hfollows := (State.Follows.start table).afterAll blocks
  rw [List.nil_append] at hfollows
  exact hfollows.cursor

namespace Reading

variable {r next last : Reading α} {t : Token}

theorem Remembers.cursor_eq {past : List Token} (h : r.Remembers past) :
    r.cursor = cursorAfter (r.blocks.toList.map Located.value) := by
  rw [h.cursor, cursorAfter_drawn]

theorem center_of_drawing_eq {operation : Operation} {target offset p : Point α}
    {mode : Interpolation} {center : Option (Point α)}
    (h : r.drawing operation target offset = .interpolate mode p center) :
    (center.isSome ↔ mode ≠ .linear) ∧
      ∀ c, center = some c → c = ⟨r.cursor.x + offset.x, r.cursor.y + offset.y⟩ := by
  cases operation with
  | interpolate =>
      cases h
      cases r.mode with
      | linear => simp
      | clockwise => simp [eq_comm]
      | counterclockwise => simp [eq_comm]
  | move => cases h
  | flash => cases h

/-! ## Where blocks come from -/

/-- A token adds a block that goes somewhere as the last one of its blocks. Its others go
nowhere. -/
theorem operates_of_block {before after : List (Located (Block α))} {b : Located (Block α)}
    (hnext : r.token t = .ok next) (hblocks : next.blocks.toList = before ++ b :: after)
    (hbefore : r.blocks.toList <+: before) (hb : b.value.target?.isSome) :
    after = [] ∧ drawn before = drawn r.blocks.toList ∧
      ∃ f format operation offset, r.Operates t next f format operation offset ∧
        b = ⟨t.line, ({ r with mode := next.mode } : Reading α).drawing operation next.cursor
          offset⟩ := by
  obtain ⟨between, rfl⟩ := hbefore
  rw [List.append_assoc] at hblocks
  have hnot {added : List (Located (Block α))} (hstill : ∀ b ∈ added, b.value.target? = none) :
      b ∉ added := by
    intro hmem
    rw [hstill b hmem] at hb
    cases hb
  obtain ⟨-, ⟨-, hstays⟩ | ⟨-, f, format, operation, offset, hoperates⟩⟩ := token_step hnext
  · obtain ⟨added, hadded, hstill⟩ := hstays.blocks
    have hsame := List.append_cancel_left (hblocks.symm.trans hadded)
    exact absurd (hsame ▸ by simp) (hnot hstill)
  · obtain ⟨added, hadded, hstill⟩ := hoperates.blocks
    rw [List.append_assoc] at hadded
    have hsame := List.append_cancel_left (hblocks.symm.trans hadded)
    rcases split_concat hsame.symm with ⟨rfl, rfl, rfl⟩ | ⟨later, rfl, -⟩
    · refine ⟨rfl, ?_, f, format, operation, offset, hoperates, rfl⟩
      rw [drawn_append, drawn_eq_nil hstill, List.append_nil]
    · exact absurd (by simp) (hnot hstill)

/-- Every block of a reading has been added by one of the tokens. -/
theorem exists_added {before after : List (Located (Block α))} {b : Located (Block α)}
    {tokens : List Token} (h : tokens.foldlM token .start = .ok last)
    (hblocks : last.blocks.toList = before ++ b :: after) :
    ∃ front t rest r next added, tokens = front ++ t :: rest ∧
      front.foldlM token .start = .ok r ∧ r.token t = .ok next ∧
        r.blocks.toList <+: before ∧ next.blocks.toList = before ++ b :: added := by
  -- The last token has added the block itself, or the block was there before it.
  induction tokens using List.reverseRecOn generalizing last after with
  | nil =>
      cases h
      simp [start] at hblocks
  | append_singleton front t ih =>
      obtain ⟨r, next, hr, hlast, hsame⟩ := exists_of_foldlM_split h
      cases hsame
      have hold : r.blocks.toList <+: last.blocks.toList := blocks_prefix_of_token hlast
      have hnew : before ++ [b] <+: last.blocks.toList := ⟨after, by simp [hblocks]⟩
      have hearlier : before ++ [b] <+: r.blocks.toList ∨ r.blocks.toList <+: before := by
        rcases List.prefix_or_prefix_of_prefix hold hnew with hprefix | hprefix
        · rcases List.prefix_concat_iff.mp hprefix with heq | hprefix
          · exact .inl (heq ▸ List.prefix_rfl)
          · exact .inr hprefix
        · exact .inl hprefix
      rcases hearlier with ⟨after, hafter⟩ | hbefore
      · have hsplit : r.blocks.toList = before ++ b :: after := by simp [← hafter]
        obtain ⟨front, u, rest, hu⟩ := ih hr hsplit
        obtain ⟨r, next, added, rfl, hemitted⟩ := hu
        exact ⟨front, u, rest ++ [t], r, next, added, by simp, hemitted⟩
      · exact ⟨front, t, [], r, last, after, rfl, hr, hlast, hbefore, hblocks⟩

end Reading

/-- A token adds a block, behind the blocks before it, once some tokens have been read. -/
def Token.Adds (front : List Token) (t : Token) (before : List (Located (Block α)))
    (b : Located (Block α)) : Prop :=
  ∃ r next : Reading α, front.foldlM Reading.token .start = .ok r ∧ r.token t = .ok next ∧
    r.blocks.toList <+: before ∧ next.blocks.toList = before ++ [b]

/-- An interpolation comes of a word. Its center is the offset of the word from the point that
the blocks before it lead to. -/
theorem Reading.exists_center {last : Reading α} {tokens : List Token}
    {before after : List (Located (Block α))} {b : Located (Block α)} {mode : Interpolation}
    {target : Point α} {center : Option (Point α)}
    (h : tokens.foldlM Reading.token .start = .ok last)
    (hblocks : last.blocks.toList = before ++ b :: after)
    (hb : b.value = .interpolate mode target center) :
    (center.isSome ↔ mode ≠ .linear) ∧
      ∃ front t rest f format offset, tokens = front ++ t :: rest ∧ t.Adds front before b ∧
        t.fields? α = some f ∧ latest? (Token.format? α) front = some format ∧
        format.point? f.i f.j ⟨0.0, 0.0⟩ = some offset ∧
        ∀ c, center = some c →
          let cursor := cursorAfter (before.map Located.value)
          c = ⟨cursor.x + offset.x, cursor.y + offset.y⟩ := by
  obtain ⟨front, t, rest, r, next, added, rfl, hr, hnext, hprefix, hadded⟩ :=
    exists_added h hblocks
  have hsome : b.value.target?.isSome := by rw [hb]; rfl
  obtain ⟨rfl, hdrawn, f, format, operation, offset, hoperates, hblock⟩ :=
    operates_of_block hnext hadded hprefix hsome
  have hremembers : r.Remembers front := remembers_of_foldlM hr
  obtain ⟨hsome_iff, hcenter⟩ := center_of_drawing_eq ((congrArg Located.value hblock).symm.trans hb)
  have hformat : latest? (Token.format? α) front = some format := by
    rw [← hremembers.format, hoperates.format_eq]
  have hcursor : r.cursor = cursorAfter (before.map Located.value) := by
    rw [← cursorAfter_drawn, hdrawn, hremembers.cursor]
  refine ⟨hsome_iff, front, t, rest, f, format, offset, rfl, ⟨r, next, hr, hnext, hprefix, hadded⟩,
    hoperates.fields_eq, hformat, hoperates.offset_eq, fun c hc => ?_⟩
  rw [← hcursor]
  exact hcenter c hc

namespace Document

variable {α : Type} [Numeral α]

/-- After any tokens of a document, whoever has carried out the blocks so far is where the
reader is. Every interpolation has a center exactly if it follows an arc, and the center is
the point where it starts moved by the offset of its word. -/
theorem cursors_agree {tokens : List Token} {d : Document α}
    (h : Document.ofTokens? tokens = .ok d) :
    (∀ front, front <+: Token.run α tokens →
      ∃ r, front.foldlM Reading.token .start = .ok r ∧ r.blocks.toList <+: d.blocks ∧
        ∀ table s, r.blocks.toList.foldlM State.apply (.start table) = .ok s →
          s.cursor = r.cursor) ∧
    ∀ before b after mode target center, d.blocks = before ++ b :: after →
      b.value = .interpolate mode target center →
      (center.isSome ↔ mode ≠ .linear) ∧
      ∃ front t rest f format offset, Token.run α tokens = front ++ t :: rest ∧
        t.Adds front before b ∧ t.fields? α = some f ∧
        latest? (Token.format? α) front = some format ∧
        format.point? f.i f.j ⟨0.0, 0.0⟩ = some offset ∧
        ∀ c, center = some c →
          ∀ table s, before.foldlM State.apply (.start table) = .ok s →
            c = ⟨s.cursor.x + offset.x, s.cursor.y + offset.y⟩ := by
  obtain ⟨last, hlast, -, rfl⟩ := ofTokens?_eq_ok_iff.mp h
  constructor
  · rintro front ⟨rest, hrest⟩
    rw [← hrest, List.foldlM_append] at hlast
    obtain ⟨r, hr, hlast⟩ := bind_eq_ok.mp hlast
    refine ⟨r, hr, Reading.blocks_prefix_of_foldlM hlast, fun table s hs => ?_⟩
    rw [State.cursor_of_foldlM hs, (Reading.remembers_of_foldlM hr).cursor_eq]
  · intro before b after mode target center hblocks hb
    obtain ⟨hsome, front, t, rest, f, format, offset, hrun, hadds, hf, hformat, hoffset, hcenter⟩ :=
      Reading.exists_center hlast hblocks hb
    refine ⟨hsome, front, t, rest, f, format, offset, hrun, hadds, hf, hformat, hoffset, ?_⟩
    intro c hc table s hs
    rw [State.cursor_of_foldlM hs]
    exact hcenter c hc

/-- Whether a document was read that is a move and an arc behind its format. -/
def isMoveAndArc : Except Fault (Document Float) → Bool
  | .ok ⟨[⟨_, .format _⟩, ⟨_, .move _⟩, ⟨_, .interpolate .counterclockwise _ (some _)⟩], _⟩ => true
  | _ => false

/-- A quarter of a circle around the origin, from the point of the move before it. -/
theorem cursors_agree_quarter :
    let format : Token := ⟨1, .extended, "FSLAX24Y24".toList⟩
    let move : Token := ⟨2, .word, "X10000Y0D02".toList⟩
    let arc : Token := ⟨3, .word, "G03X0Y10000I-10000D01".toList⟩
    let tokens := [format, move] ++ [arc, ⟨4, .word, "M02".toList⟩]
    ∃ d : Document Float, Document.ofTokens? tokens = .ok d ∧
      (∃ (r : Reading Float) (s : State Float),
        [format, move].foldlM Reading.token .start = .ok r ∧ r.blocks.toList <+: d.blocks ∧
        r.blocks.toList.foldlM State.apply (.start .empty) = .ok s ∧ s.cursor = r.cursor) ∧
      ∃ (before : List (Located (Block Float))) (b : Located (Block Float)) (s : State Float)
        (target center offset : Point Float),
        d.blocks = before ++ [b] ∧
        b.value = .interpolate .counterclockwise target (some center) ∧
        before.foldlM State.apply (.start .empty) = .ok s ∧
        center = ⟨s.cursor.x + offset.x, s.cursor.y + offset.y⟩ := by
  intro format move arc tokens
  have hprefix : [format, move] <+: Token.run Float tokens :=
    ⟨[arc, ⟨4, .word, "M02".toList⟩], by decide +kernel⟩
  have hcarried : (match [format, move].foldlM Reading.token (.start : Reading Float) with
      | .ok r => (r.blocks.toList.foldlM State.apply (.start .empty)).isOk
      | .error _ => false) = true := by decide +kernel
  have hread : isMoveAndArc (Document.ofTokens? tokens) = true := by decide +kernel
  unfold isMoveAndArc at hread
  split at hread
  next formatLine format' moveLine start arcLine target center apertures hd =>
    obtain ⟨hfronts, harcs⟩ := cursors_agree hd
    refine ⟨_, hd, ?_, ?_⟩
    · obtain ⟨r, hr, hblocks, hcursor⟩ := hfronts _ hprefix
      rw [hr] at hcarried
      dsimp only at hcarried
      cases hs : r.blocks.toList.foldlM State.apply (.start .empty) with
      | error fault =>
          rw [hs] at hcarried
          cases hcarried
      | ok s => exact ⟨r, s, hr, hblocks, hs, hcursor _ s hs⟩
    · let before : List (Located (Block Float)) :=
        [⟨formatLine, .format format'⟩, ⟨moveLine, .move start⟩]
      obtain ⟨-, front, t, rest, f, decoded, offset, -, -, -, -, -, hcenter⟩ :=
        harcs before ⟨arcLine, _⟩ [] _ _ _ rfl rfl
      exact ⟨before, _, { State.start .empty with cursor := start }, target, center, offset,
        rfl, rfl, rfl, hcenter center rfl .empty _ rfl⟩
  next => cases hread

end Document

end BoardMill.Gerber
