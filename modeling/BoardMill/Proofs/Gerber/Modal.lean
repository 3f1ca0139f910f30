import BoardMill.Proofs.Gerber.ReaderSteps

/-! # What words leave unsaid

What the reader carries along is what the last of the tokens read says. The words that
operate therefore give one block each, in order, and what such a word leaves out is found in
the tokens before it.
-/

namespace BoardMill.Gerber

open Outcome

variable {α : Type} [Scalar α]

/-! ## Blocks of operations -/

/-- The blocks that go somewhere. -/
def drawn (blocks : List (Located (Block α))) : List (Located (Block α)) :=
  blocks.filter fun b => b.value.target?.isSome

/-- The operation that a block comes from. -/
def Block.operation? : Block α → Option Operation
  | flash _ => some .flash
  | move _ => some .move
  | interpolate .. => some .interpolate
  | _ => none

namespace Reading

theorem target?_drawing (r : Reading α) (operation : Operation) (target offset : Point α) :
    (r.drawing operation target offset).target? = some target := by
  cases operation <;> rfl

theorem operation?_drawing (r : Reading α) (operation : Operation) (target offset : Point α) :
    (r.drawing operation target offset).operation? = some operation := by
  cases operation <;> rfl

theorem mode_of_drawing_eq {r : Reading α} {operation : Operation} {target offset p : Point α}
    {mode : Interpolation} {center : Option (Point α)}
    (h : r.drawing operation target offset = .interpolate mode p center) : mode = r.mode := by
  cases operation with
  | interpolate =>
      cases h
      rfl
  | move => cases h
  | flash => cases h

end Reading

omit [Scalar α] in
theorem drawn_append (first second : List (Located (Block α))) :
    drawn (first ++ second) = drawn first ++ drawn second := List.filter_append ..

omit [Scalar α] in
theorem drawn_eq_nil {blocks : List (Located (Block α))}
    (h : ∀ b ∈ blocks, b.value.target? = none) : drawn blocks = [] := by
  rw [drawn, List.filter_eq_nil_iff]
  intro b hb
  simp [h b hb]

theorem cursorAfter_drawn (blocks : List (Located (Block α))) :
    cursorAfter ((drawn blocks).map Located.value) = cursorAfter (blocks.map Located.value) := by
  unfold cursorAfter drawn
  rw [List.filterMap_map, List.filterMap_map, List.filterMap_filter]
  congr 3
  funext b
  cases h : b.value.target? <;> simp [h]

namespace Reading

variable {r next last : Reading α} {t : Token}

omit [Scalar α] in
theorem Stays.drawn_eq (h : r.Stays next) : drawn next.blocks.toList = drawn r.blocks.toList := by
  obtain ⟨added, hblocks, hstill⟩ := h.blocks
  rw [hblocks, drawn_append, drawn_eq_nil hstill, List.append_nil]

theorem Operates.drawn_eq {f : Fields} {format : CoordinateFormat} {operation : Operation}
    {offset : Point α} (h : r.Operates t next f format operation offset) :
    drawn next.blocks.toList = drawn r.blocks.toList ++
      [⟨t.line, ({ r with mode := next.mode } : Reading α).drawing operation next.cursor offset⟩] := by
  obtain ⟨added, hblocks, hstill⟩ := h.blocks
  rw [hblocks, drawn_append, drawn_append, drawn_eq_nil hstill, List.append_nil]
  congr 1
  simp [drawn, target?_drawing]

/-! ## What is carried along -/

/-- A reading carries along what the tokens read say last. -/
structure Remembers (r : Reading α) (past : List Token) : Prop where
  format : r.format = latest? (Token.format? α) past
  mode : r.mode = (latest? (Token.mode? α) past).getD .linear
  operation : r.operation = latest? (Token.operation? α) past
  -- Words may leave out coordinates, so the cursor is told from the blocks that they gave.
  cursor : r.cursor = cursorAfter ((drawn r.blocks.toList).map Located.value)
  count : (drawn r.blocks.toList).length = past.countP (Token.operates α)

theorem Remembers.start : (start : Reading α).Remembers [] := ⟨rfl, rfl, rfl, rfl, rfl⟩

/-- Reading on keeps to what the tokens say. -/
theorem Remembers.token {past : List Token} (h : r.Remembers past) (hnext : r.token t = .ok next) :
    next.Remembers (past ++ [t]) := by
  obtain ⟨hheeds, hstep⟩ := token_step hnext
  refine ⟨?_, ?_, ?_, ?_, ?_⟩
  · rw [hheeds.format, h.format, latest?_append]
  · rw [hheeds.mode, h.mode, latest?_append]
    cases t.mode? α <;> rfl
  · rw [hheeds.operation, h.operation, latest?_append]
  · rcases hstep with ⟨-, hstays⟩ | ⟨-, f, format, operation, offset, hoperates⟩
    · rw [hstays.cursor, hstays.drawn_eq, h.cursor]
    · rw [hoperates.drawn_eq, List.map_append, List.map_singleton, cursorAfter_append,
        target?_drawing]
      rfl
  · rw [List.countP_append, ← h.count]
    rcases hstep with ⟨hop, hstays⟩ | ⟨hop, f, format, operation, offset, hoperates⟩
    · simp [hstays.drawn_eq, hop]
    · simp [hoperates.drawn_eq, hop]

theorem Remembers.foldlM {past tokens : List Token} (h : r.Remembers past)
    (hlast : tokens.foldlM Reading.token r = .ok last) : last.Remembers (past ++ tokens) := by
  induction tokens generalizing r past with
  | nil =>
      cases hlast
      simpa using h
  | cons t rest ih =>
      rw [List.foldlM_cons] at hlast
      obtain ⟨next, hnext, hlast⟩ := bind_eq_ok.mp hlast
      simpa using ih (h.token hnext) hlast

theorem remembers_of_foldlM {tokens : List Token}
    (h : tokens.foldlM Reading.token .start = .ok r) : r.Remembers tokens := by
  simpa using Remembers.start.foldlM h

end Reading

/-! ## Runs of the reader -/

omit [Scalar α] in
theorem Token.exists_run_cons (t : Token) (rest : List Token) :
    ∃ later, Token.run α (t :: rest) = t :: later := by
  rw [Token.run]
  split
  · exact ⟨[], rfl⟩
  · exact ⟨_, rfl⟩

namespace Document

variable {α : Type} [Numeral α] {lastLine : Nat} {r : Reading α} {d : Document α}

theorem readFrom_of_ended (h : r.ended = true) (tokens : List Token) :
    readFrom lastLine r tokens = .ok r.document := by
  cases tokens <;> rw [readFrom, if_pos h] <;> rfl

/-- A document comes of reading all tokens up to the end marker, if there is one. -/
theorem readFrom_eq_ok_iff {tokens : List Token} (hr : r.ended = false) :
    readFrom lastLine r tokens = .ok d ↔
      ∃ last, (Token.run α tokens).foldlM Reading.token r = .ok last ∧ last.ended = true ∧
        last.document = d := by
  induction tokens generalizing r with
  | nil =>
      rw [readFrom, hr]
      constructor
      · intro h
        cases h
      · rintro ⟨last, hlast, hended, -⟩
        cases hlast
        rw [hr] at hended
        cases hended
  | cons t rest ih =>
      cases hnext : r.token t with
      | error defect =>
          obtain ⟨later, hrun⟩ := Token.exists_run_cons (α := α) t rest
          rw [readFrom_cons_of_error hr hnext, hrun, List.foldlM_cons, hnext]
          simp [bind, Except.bind]
      | ok next =>
          have hended := (Reading.token_step hnext).1.ended
          rw [hr, Bool.false_or] at hended
          rw [readFrom_cons_of_ok hr hnext, Token.run]
          split
          next hends =>
            rw [readFrom_of_ended (hended.trans hends)]
            simp [hnext, bind, Except.bind, pure, Except.pure, hended.trans hends]
          next hends =>
            rw [ih (hended.trans (Bool.eq_false_iff.mpr hends)), List.foldlM_cons, hnext]
            rfl

theorem ofTokens?_eq_ok_iff {tokens : List Token} :
    ofTokens? tokens = .ok d ↔
      ∃ last, (Token.run α tokens).foldlM Reading.token .start = .ok last ∧ last.ended = true ∧
        last.document = d :=
  readFrom_eq_ok_iff rfl

theorem ofText?_of_ne_nil {text : List Char} (h : Token.ofText text ≠ []) :
    (ofText? text : Except Fault (Document α)) = ofTokens? (Token.ofText text) := by
  unfold ofText?
  split
  next hnil => exact absurd hnil h
  next => rfl

theorem ofText?_eq_ok_iff {text : List Char} :
    ofText? text = .ok d ↔ ofTokens? (Token.ofText text) = .ok d := by
  unfold ofText?
  split
  next hnil =>
    rw [hnil]
    exact ⟨nofun, nofun⟩
  next => rfl

/-- Tokens are refused on the line of one of them, or on the last line. -/
theorem exists_line_of_readFrom {tokens : List Token} {fault : Fault}
    (h : readFrom lastLine r tokens = .error fault) :
    ∃ line reason, fault = .malformed line reason ∧
      (line = lastLine ∨ ∃ t ∈ tokens, line = t.line) := by
  induction tokens generalizing r with
  | nil =>
      unfold readFrom at h
      split at h
      · cases h
      · cases h
        exact ⟨lastLine, _, rfl, .inl rfl⟩
  | cons t rest ih =>
      unfold readFrom at h
      split at h
      · cases h
      · split at h
        · obtain ⟨line, reason, hfault, hline⟩ := ih h
          refine ⟨line, reason, hfault, hline.imp_right ?_⟩
          rintro ⟨other, hmem, hother⟩
          exact ⟨other, List.mem_cons_of_mem _ hmem, hother⟩
        · cases h
          exact ⟨t.line, _, rfl, .inr ⟨t, List.mem_cons_self, rfl⟩⟩

/-- Tokens are refused on the line of the first that does not come through, unless there is an
end marker before it. -/
theorem readFrom_of_defect {tokens before after : List Token} {t : Token} {middle : Reading α}
    {defect : Defect α} (hrun : Token.run α tokens = before ++ t :: after)
    (hr : r.ended = false) (hbefore : before.foldlM Reading.token r = .ok middle)
    (ht : middle.token t = .error defect) :
    readFrom lastLine r tokens = .error (.malformed t.line defect.message) := by
  induction before generalizing r tokens with
  | nil =>
      cases hbefore
      cases tokens with
      | nil => cases hrun
      | cons first rest =>
          obtain ⟨later, hfirst⟩ := Token.exists_run_cons (α := α) first rest
          rw [hfirst] at hrun
          cases hrun
          exact readFrom_cons_of_error hr ht lastLine rest
  | cons other before ih =>
      cases tokens with
      | nil => cases hrun
      | cons first rest =>
          rw [List.foldlM_cons] at hbefore
          obtain ⟨next, hnext, hmiddle⟩ := bind_eq_ok.mp hbefore
          rw [Token.run] at hrun
          split at hrun
          · -- The run would be over with the end marker.
            simp at hrun
          next hends =>
            obtain ⟨rfl, hlater⟩ := List.cons_eq_cons.mp hrun
            have hended := (Reading.token_step hnext).1.ended
            rw [hr, Bool.eq_false_iff.mpr hends] at hended
            rw [readFrom_cons_of_ok hr hnext]
            exact ih hlater hended hmiddle

end Document

namespace Reading

variable {r next last : Reading α} {t : Token}

theorem blocks_prefix_of_token (h : r.token t = .ok next) :
    r.blocks.toList <+: next.blocks.toList := by
  obtain ⟨-, ⟨-, hstays⟩ | ⟨-, f, format, operation, offset, hoperates⟩⟩ := token_step h
  · obtain ⟨added, hblocks, -⟩ := hstays.blocks
    exact ⟨added, hblocks.symm⟩
  · obtain ⟨added, hblocks, -⟩ := hoperates.blocks
    exact ⟨_, (hblocks.trans (List.append_assoc ..)).symm⟩

theorem blocks_prefix_of_foldlM {tokens : List Token}
    (h : tokens.foldlM token r = .ok last) : r.blocks.toList <+: last.blocks.toList := by
  induction tokens generalizing r with
  | nil =>
      cases h
      exact List.prefix_rfl
  | cons t rest ih =>
      rw [List.foldlM_cons] at h
      obtain ⟨next, hnext, h⟩ := bind_eq_ok.mp h
      exact (blocks_prefix_of_token hnext).trans (ih h)

end Reading

/-! ## Words and their blocks -/

/-- A block is the one of a word: what the word leaves out is found in the tokens before it,
and coordinates in the blocks that the words before it have given. -/
structure Token.Resolves (before : List Token) (earlier : List (Located (Block α))) (t : Token)
    (b : Located (Block α)) : Prop where
  line : b.line = t.line
  operation : ∃ operation,
    (t.operation? α).or (latest? (Token.operation? α) before) = some operation ∧
      b.value.operation? = some operation
  mode : ∀ mode target center, b.value = .interpolate mode target center →
    mode = ((t.mode? α).or (latest? (Token.mode? α) before)).getD .linear
  target : ∃ fields format target, t.fields? α = some fields ∧
    latest? (Token.format? α) before = some format ∧
      format.point? fields.x fields.y (cursorAfter (earlier.map Located.value)) = some target ∧
        b.value.target? = some target

/-- The block that a word adds is the one of the word. -/
theorem Reading.resolves_of_operates {r next : Reading α} {t : Token} {before : List Token}
    (hr : r.Remembers before) (hheeds : r.Heeds t next) {f : Fields} {format : CoordinateFormat}
    {operation : Operation} {offset : Point α}
    (h : r.Operates t next f format operation offset) :
    t.Resolves before (drawn r.blocks.toList)
      ⟨t.line, ({ r with mode := next.mode } : Reading α).drawing operation next.cursor offset⟩ where
  line := rfl
  operation := by
    refine ⟨operation, ?_, operation?_drawing ..⟩
    rw [← hr.operation, ← hheeds.operation, h.operation_eq]
  mode mode target center hb := by
    rw [mode_of_drawing_eq hb]
    change next.mode = _
    rw [hheeds.mode, hr.mode]
    cases t.mode? α <;> rfl
  target := by
    refine ⟨f, format, next.cursor, h.fields_eq, ?_, ?_, target?_drawing ..⟩
    · rw [← hr.format, h.format_eq]
    · rw [← hr.cursor, h.target_eq]

/-- The words that operate are told apart by their number, and so are the blocks that go
somewhere. -/
theorem Reading.exists_resolved {last : Reading α} {before after : List Token} {t : Token}
    (h : (before ++ t :: after).foldlM token .start = .ok last) (hop : t.operates α = true) :
    let count := before.countP (Token.operates α)
    ∃ b, (drawn last.blocks.toList)[count]? = some b ∧
      t.Resolves before ((drawn last.blocks.toList).take count) b := by
  intro count
  obtain ⟨r, next, hr, hnext, hafter⟩ := exists_of_foldlM_split h
  have hremembers : r.Remembers before := remembers_of_foldlM hr
  obtain ⟨later, hlater⟩ := blocks_prefix_of_foldlM hafter
  obtain ⟨hheeds, ⟨hnot, -⟩ | ⟨-, f, format, operation, offset, hoperates⟩⟩ := token_step hnext
  · rw [hop] at hnot
    cases hnot
  · have hresolves := resolves_of_operates hremembers hheeds hoperates
    have hcount : (drawn r.blocks.toList).length = count := hremembers.count
    rw [← hlater, drawn_append, hoperates.drawn_eq, ← hcount]
    refine ⟨_, ?_, by simpa using hresolves⟩
    simp

/-- Every word up to the end marker that operates gives one block that goes somewhere, in the
order of the words, and there are no others. Without an operation or a format in the tokens
up to such a word there is no document. -/
theorem Document.words_resolve {α : Type} [Numeral α] (tokens : List Token) :
    (∀ d : Document α, Document.ofTokens? tokens = .ok d →
      (drawn d.blocks).length = (Token.run α tokens).countP (Token.operates α) ∧
      ∀ before t after, Token.run α tokens = before ++ t :: after → t.operates α = true →
        let count := before.countP (Token.operates α)
        ∃ b, (drawn d.blocks)[count]? = some b ∧
          t.Resolves before ((drawn d.blocks).take count) b) ∧
    ∀ before t after, Token.run α tokens = before ++ t :: after → t.operates α = true →
      ((t.operation? α).or (latest? (Token.operation? α) before) = none ∨
        latest? (Token.format? α) before = none) →
      ∃ fault, (Document.ofTokens? tokens : Except Fault (Document α)) = .error fault := by
  constructor
  · intro d hd
    obtain ⟨last, hlast, -, rfl⟩ := ofTokens?_eq_ok_iff.mp hd
    refine ⟨(Reading.remembers_of_foldlM hlast).count, fun before t after hsplit hop => ?_⟩
    rw [hsplit] at hlast
    exact Reading.exists_resolved hlast hop
  · intro before t after hsplit hop hmissing
    cases hd : (Document.ofTokens? tokens : Except Fault (Document α)) with
    | error fault => exact ⟨fault, rfl⟩
    | ok d =>
        -- The word would have been resolved, and with it both of what is missing.
        obtain ⟨last, hlast, -, -⟩ := ofTokens?_eq_ok_iff.mp hd
        rw [hsplit] at hlast
        obtain ⟨b, -, hresolves⟩ := Reading.exists_resolved hlast hop
        obtain ⟨operation, hoperation, -⟩ := hresolves.operation
        obtain ⟨fields, format, target, -, hformat, -⟩ := hresolves.target
        rw [hoperation, hformat] at hmissing
        rcases hmissing with hmissing | hmissing <;> cases hmissing

/-- The second of two words takes its operation and its first coordinate from the first one,
and an aperture is selected in between. The text is over before a third one. Without a format
the first word would not be read. -/
theorem Document.words_resolve_repeated :
    let format : Token := ⟨1, .extended, "FSLAX24Y24".toList⟩
    let first : Token := ⟨2, .word, "G01X10000Y0D01".toList⟩
    let select : Token := ⟨3, .word, "G54D10".toList⟩
    let second : Token := ⟨4, .word, "G03Y20000I5000".toList⟩
    let rest : List Token := [⟨5, .word, "M02".toList⟩, ⟨6, .word, "X0D02".toList⟩]
    let tokens := [format, first, select, second] ++ rest
    (∃ (d : Document Float) (b : Located (Block Float)),
      Document.ofTokens? tokens = .ok d ∧ (drawn d.blocks).length = 2 ∧
        (drawn d.blocks)[1]? = some b ∧
        second.Resolves [format, first, select] ((drawn d.blocks).take 1) b) ∧
    Token.run Float [first] = [] ++ first :: [] ∧
    (latest? (Token.format? Float) [] = none) ∧
    ∃ fault, (Document.ofTokens? [first] : Except Fault (Document Float)) = .error fault := by
  intro format first select second rest tokens
  have hrun : Token.run Float tokens =
      [format, first, select] ++ second :: [⟨5, .word, "M02".toList⟩] := by decide +kernel
  have halone : Token.run Float [first] = [] ++ first :: [] := by decide +kernel
  have hfirst : first.operates Float = true := by decide +kernel
  have hsecond : second.operates Float = true := by decide +kernel
  refine ⟨?_, halone, rfl, ?_⟩
  · have hread : (Document.ofTokens? tokens : Except Fault (Document Float)).isOk = true := by
      decide +kernel
    cases hd : (Document.ofTokens? tokens : Except Fault (Document Float)) with
    | error fault =>
        rw [hd] at hread
        cases hread
    | ok d =>
        obtain ⟨hlength, hwords⟩ := (Document.words_resolve tokens).1 d hd
        obtain ⟨b, hb, hresolves⟩ := hwords _ second _ hrun hsecond
        have hone : [format, first, select].countP (Token.operates Float) = 1 := by decide +kernel
        have htwo : (Token.run Float tokens).countP (Token.operates Float) = 2 := by decide +kernel
        rw [hone] at hb hresolves
        exact ⟨d, b, rfl, hlength.trans htwo, hb, hresolves⟩
  · exact (Document.words_resolve [first]).2 [] first [] halone hfirst (.inr rfl)

/-- A word behind the end marker operates but gives no block. -/
theorem Document.ofTokens?_word_behind_end :
    let word : Token := ⟨3, .word, "X1Y1D02".toList⟩
    let tokens : List Token := [⟨1, .extended, "FSLAX24Y24".toList⟩, ⟨2, .word, "M02".toList⟩, word]
    word.operates Float = true ∧ tokens.countP (Token.operates Float) = 1 ∧
      ∃ d : Document Float, Document.ofTokens? tokens = .ok d ∧ drawn d.blocks = [] := by
  intro word tokens
  refine ⟨by decide +kernel, by decide +kernel, ?_⟩
  exact ⟨_, rfl, rfl⟩

end BoardMill.Gerber
