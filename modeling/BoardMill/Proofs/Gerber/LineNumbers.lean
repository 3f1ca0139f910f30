import BoardMill.Proofs.Atomicity
import BoardMill.Proofs.Gerber.Modal
import BoardMill.Proofs.Gerber.Pass
import BoardMill.Proofs.Gerber.Scanning
import BoardMill.Proofs.Gerber.WellFormed

/-! # Line numbers

Tokens stand in the order of their lines, and each of their lines is one of the text. A token puts
its line on the blocks that it adds, and is refused on it. A pass over the blocks is refused on the
line of one of them.
-/

namespace BoardMill

/-- The line of the block that the graphics state refuses. -/
def Fault.blockLine? : Fault → Option Nat
  | unknownAperture _ line | noApertureSelected line | invalidRegion line _ => some line
  | _ => none

namespace Gerber

open Outcome

/-! ## Lines of tokens -/

namespace Token

variable {p : Place} {line start : Nat} {kind : TokenKind} {piece text : List Char}

/-- The first line on which the next token can start. -/
def Place.floor (line : Nat) : Place → Nat
  | between => line
  | inside _ start _ => start

/-- Reading on does not lower the first line, and does not raise it above the line of the scan. -/
theorem Place.floor_next (hp : p.floor line ≤ line) (c : Char) :
    p.floor line ≤ (p.next line c).floor (line + [c].count '\n') ∧
      (p.next line c).floor (line + [c].count '\n') ≤ line + [c].count '\n' := by
  cases p with
  | between =>
      rw [next]
      split_ifs <;> simp [floor]
  | inside kind start piece =>
      change start ≤ line at hp
      cases kind with
      | word =>
          rw [next]
          split_ifs <;> simp only [floor] <;> omega
      | extended =>
          rw [next]
          split_ifs with _ _ hbreak <;> simp only [floor] <;> try omega
          all_goals subst hbreak; simp only [List.count_singleton_self]; omega

theorem Place.startsIn_floor (p : Place) {P : Nat → Prop} (hfloor : P (p.floor line)) :
    p.StartsIn P line := by
  rcases p with - | ⟨- | -, start, piece⟩
  · trivial
  · exact .inl hfloor
  · exact hfloor

theorem floor_le_of_scan (hp : p.floor line ≤ line) :
    ∀ t ∈ scan p line text, p.floor line ≤ t.line :=
  forall_line_of_scan (P := (p.floor line ≤ ·)) (fun _ _ _ _ => hp.trans (Nat.le_add_right _ _))
    (p.startsIn_floor le_rfl)

theorem le_of_scan (hp : p.floor line ≤ line) :
    ∀ t ∈ scan p line text, t.line ≤ line + text.count '\n' := by
  refine forall_line_of_scan (P := (· ≤ line + text.count '\n')) ?_
    (p.startsIn_floor (hp.trans (Nat.le_add_right _ _)))
  rintro before c after rfl
  rw [List.count_append]
  omega

theorem pairwise_ofPiece (R : Token → Token → Prop) : (ofPiece line kind piece).Pairwise R := by
  unfold ofPiece
  dsimp only
  split
  · exact .nil
  · exact List.pairwise_singleton _ _

/-- A character ends at most the token that is open. -/
theorem emits_cases (p : Place) (line : Nat) (c : Char) :
    p.emits c = [] ∨ ∃ kind piece, p.emits c = ofPiece (p.floor line) kind piece := by
  cases p with
  | between => exact .inl rfl
  | inside kind start piece =>
      rw [Place.emits]
      split
      · exact .inr ⟨kind, piece, rfl⟩
      · exact .inl rfl

/-- Tokens stand in the order of their lines. -/
theorem pairwise_line_of_scan (hp : p.floor line ≤ line) :
    (scan p line text).Pairwise fun first second => first.line ≤ second.line := by
  induction text generalizing p line with
  | nil =>
      cases p with
      | between => exact .nil
      | inside kind start piece => exact pairwise_ofPiece _
  | cons c text ih =>
      obtain ⟨hrises, hbelow⟩ := Place.floor_next hp c
      rw [scan_cons]
      rcases emits_cases p line c with hnone | ⟨kind, piece, hone⟩
      · rw [hnone]
        exact ih hbelow
      · rw [hone, List.pairwise_append]
        refine ⟨pairwise_ofPiece _, ih hbelow, fun first hfirst second hsecond => ?_⟩
        rw [(line_of_mem_ofPiece hfirst).1]
        exact hrises.trans (floor_le_of_scan hbelow second hsecond)

theorem run_prefix {α : Type} (tokens : List Token) : run α tokens <+: tokens := by
  induction tokens with
  | nil => exact List.nil_prefix
  | cons t rest ih =>
      rw [run]
      split
      · exact ⟨rest, rfl⟩
      · exact (List.prefix_cons_inj t).mpr ih

end Token

/-! ## Lines of blocks -/

namespace Reading

section Steps

variable {α : Type} {r middle next : Reading α} {line : Nat}

/-- Reading went on, and all blocks that it added are on one line. -/
def AddsOn (r : Reading α) (line : Nat) (next : Reading α) : Prop :=
  ∃ added, next.blocks.toList = r.blocks.toList ++ added ∧ ∀ b ∈ added, b.line = line

theorem AddsOn.of_blocks_eq (h : next.blocks = r.blocks) : r.AddsOn line next :=
  ⟨[], by rw [h, List.append_nil], nofun⟩

theorem AddsOn.push (r : Reading α) (line : Nat) (b : Block α) : r.AddsOn line (r.push line b) :=
  ⟨[⟨line, b⟩], Array.toList_push, by simp⟩

theorem AddsOn.trans (hfirst : r.AddsOn line middle) (hsecond : middle.AddsOn line next) :
    r.AddsOn line next := by
  obtain ⟨first, hmiddle, hfirst⟩ := hfirst
  obtain ⟨second, hnext, hsecond⟩ := hsecond
  refine ⟨first ++ second, ?_, List.forall_mem_append.mpr ⟨hfirst, hsecond⟩⟩
  rw [hnext, hmiddle, List.append_assoc]

theorem addsOn_prepared (r : Reading α) (line : Nat) (p : Option Preparation) :
    r.AddsOn line (r.prepared line p) := by
  rcases p with - | (_ | _ | _ | _ | _)
  · exact .of_blocks_eq rfl
  · exact .of_blocks_eq rfl
  · exact .push _ _ _
  · exact .push _ _ _
  · exact .push _ _ _
  · exact .of_blocks_eq rfl

variable [Scalar α] {text : List Char} {t : Token}

theorem addsOn_of_fields {f : Fields} (h : r.fields line text f = .ok next) :
    r.AddsOn line next := by
  rcases fields_cases h with ⟨-, -, -, number, rfl⟩ | ⟨-, operation, -, hop⟩
  · exact .push _ _ _
  · obtain ⟨format, target, offset, -, -, -, rfl⟩ := operate_eq_ok hop
    exact .push _ _ _

theorem addsOn_of_word (h : r.word line text = .ok next) : r.AddsOn line next := by
  obtain ⟨w, -, ⟨-, rfl⟩ | ⟨-, rfl⟩ | ⟨p, -, rfl⟩ | ⟨p, f, -, hfields⟩⟩ := word_eq_ok h
  · exact .of_blocks_eq rfl
  · exact .of_blocks_eq rfl
  · exact addsOn_prepared r line p
  · exact (addsOn_prepared r line p).trans (addsOn_of_fields hfields)

theorem addsOn_of_extended (h : r.extended line text = .ok next) : r.AddsOn line next := by
  unfold extended at h
  obtain ⟨e, -, h⟩ := bind_eq_ok.mp h
  cases e with
  | block b =>
      have hpush := AddsOn.push r line b
      dsimp only at h
      split at h <;> cases h <;> exact hpush
  | define a =>
      dsimp only at h
      split at h
      · cases h
        exact .of_blocks_eq rfl
      · cases h
  | nothing =>
      cases h
      exact .of_blocks_eq rfl

/-- A token puts its line on the blocks that it adds. -/
theorem addsOn_of_token (h : r.token t = .ok next) : r.AddsOn t.line next := by
  unfold token at h
  split at h
  · exact addsOn_of_extended h
  · exact addsOn_of_word h

end Steps

variable {α : Type} [Scalar α] {r last : Reading α}

/-- The blocks that some tokens add are on lines of these, and in order if these are. -/
theorem exists_added_of_foldlM {tokens : List Token} (h : tokens.foldlM token r = .ok last) :
    ∃ added, last.blocks.toList = r.blocks.toList ++ added ∧
      (∀ b ∈ added, ∃ t ∈ tokens, b.line = t.line) ∧
      (tokens.Pairwise (fun first second => first.line ≤ second.line) →
        added.Pairwise fun first second => first.line ≤ second.line) := by
  induction tokens generalizing r with
  | nil =>
      cases h
      exact ⟨[], (List.append_nil _).symm, nofun, fun _ => .nil⟩
  | cons t rest ih =>
      rw [List.foldlM_cons] at h
      obtain ⟨next, hnext, hrest⟩ := bind_eq_ok.mp h
      obtain ⟨first, hfirst, hline⟩ := addsOn_of_token hnext
      obtain ⟨later, hlater, hlines, horder⟩ := ih hrest
      refine ⟨first ++ later, by rw [hlater, hfirst, List.append_assoc], ?_, fun htokens => ?_⟩
      · intro b hb
        rcases List.mem_append.mp hb with hb | hb
        · exact ⟨t, List.mem_cons_self, hline b hb⟩
        · obtain ⟨other, hother, hb⟩ := hlines b hb
          exact ⟨other, List.mem_cons_of_mem _ hother, hb⟩
      · obtain ⟨hbefore, hothers⟩ := List.pairwise_cons.mp htokens
        refine List.pairwise_append.mpr ⟨?_, horder hothers, fun b hb c hc => ?_⟩
        · refine List.pairwise_of_forall_mem_list fun b hb c hc => ?_
          rw [hline b hb, hline c hc]
        · obtain ⟨other, hother, hc⟩ := hlines c hc
          rw [hline b hb, hc]
          exact hbefore other hother

end Reading

/-! ## Lines of refused blocks -/

section Refusals

variable {α : Type} {s : State α} {b : Located (Block α)} {fault : Fault}

theorem Block.blockLine?_of_ready {b : Block α} {line : Nat} (h : b.ready line s = .error fault) :
    fault.blockLine? = some line := by
  rcases b.ready_cases line s with hready | ⟨hready, -⟩ <;> rw [hready] at h <;> cases h
  rfl

theorem State.blockLine?_of_apply (h : s.apply b = .error fault) :
    fault.blockLine? = some b.line := by
  obtain ⟨line, b⟩ := b
  have hrequire (h : s.require line = .error fault) : fault.blockLine? = some line := by
    unfold require at h
    split at h <;> cases h
    rfl
  unfold apply at h
  cases b with
  | select number =>
      dsimp only at h
      split at h <;> cases h
      rfl
  | flash target =>
      dsimp only at h
      split at h
      · cases h
        rfl
      · rcases bind_eq_error.mp h with h | ⟨_, _, h⟩
        · exact hrequire h
        · cases h
  | interpolate mode target center =>
      dsimp only at h
      split at h
      · rcases bind_eq_error.mp h with h | ⟨_, _, h⟩
        · exact hrequire h
        · cases h
      · cases h
  | regionStart =>
      dsimp only at h
      split at h <;> cases h
      rfl
  | regionEnd =>
      dsimp only at h
      split at h <;> cases h
      rfl
  | _ => cases h

/-- A pass that stops names the line of a block, or the last line. -/
theorem exists_line_of_stopFrom? {σ : Type} {look : Look α σ}
    (hlook : ∀ x b s fault, look x b s = .error fault → fault.blockLine? = some b.line)
    {lastLine count : Nat} {x : σ} {blocks : List (Located (Block α))}
    (h : stopFrom? look lastLine s x blocks = some (count, fault)) :
    fault.blockLine? = some lastLine ∨ ∃ b ∈ blocks, fault.blockLine? = some b.line := by
  induction blocks generalizing s x count with
  | nil =>
      obtain ⟨other, hother, hsame⟩ := Option.map_eq_some_iff.mp h
      cases hsame
      obtain ⟨-, rfl⟩ := State.finish_eq_error_iff.mp (failure?_eq_some.mp hother)
      exact .inl rfl
  | cons b rest ih =>
      unfold stopFrom? at h
      split at h
      next hfault =>
        cases h
        exact .inr ⟨b, List.mem_cons_self, hlook _ _ _ _ hfault⟩
      next y hy =>
        split at h
        next hfault =>
          cases h
          exact .inr ⟨b, List.mem_cons_self, State.blockLine?_of_apply hfault⟩
        next next hnext =>
          obtain ⟨⟨later, other⟩, hrest, hsame⟩ := Option.map_eq_some_iff.mp h
          cases hsame
          rcases ih hrest with hlast | ⟨c, hc, hline⟩
          · exact .inl hlast
          · exact .inr ⟨c, List.mem_cons_of_mem _ hc, hline⟩

end Refusals

namespace Document

variable {α : Type}

/-- Bounds are refused on the line of a block. -/
theorem exists_block_of_bounds [Scalar α] {d : Document α} {fault : Fault}
    (h : d.bounds = .error fault) : ∃ b ∈ d.blocks, fault.blockLine? = some b.line := by
  have hstop := failure?_bounds d
  rw [h, failure?_error] at hstop
  obtain ⟨⟨count, _⟩, hstopped, rfl⟩ := Option.map_eq_some_iff.mp hstop.symm
  have hlook : ∀ x (b : Located (Block α)) s fault, growing x b s = .error fault →
      fault.blockLine? = some b.line := by
    intro x b s fault hfault
    rw [growing, Block.grow_eq] at hfault
    cases hready : b.value.ready b.line s with
    | ok _ =>
        rw [hready] at hfault
        cases hfault
    | error other =>
        rw [hready] at hfault
        cases hfault
        exact Block.blockLine?_of_ready hready
  rcases exists_line_of_stopFrom? hlook hstopped with hlast | hblock
  · -- Something opened the region that is still open behind the last block.
    cases hblocks : d.blocks.getLast? with
    | none =>
        rw [List.getLast?_eq_none_iff] at hblocks
        rw [bounds, hblocks] at h
        cases h
    | some b =>
        unfold lastLine at hlast
        rw [hblocks] at hlast
        exact ⟨b, List.mem_of_getLast? hblocks, hlast⟩
  · exact hblock

variable [Numeral α]

/-- A program is refused on the line of a block, unless the tape is full. -/
theorem exists_block_of_document {d : Document α} {s : GCode.Sink α} {title : String} {fault : Fault}
    (h : (s.document d title).1 = .error fault) :
    fault = GCode.Tape.fullFault ∨ ∃ b ∈ d.blocks, fault.blockLine? = some b.line := by
  have hresult := (s.complete_tape (d.body s.machine s.place s.engaged title)).2
  rw [← GCode.Sink.document, h] at hresult
  split at hresult
  next =>
    have hbody := failure?_body s.machine s.place s.engaged title d
    rw [← hresult, failure?_error, eq_comm, failure?_eq_some] at hbody
    exact .inr (exists_block_of_bounds hbody)
  next hfull =>
    cases hresult
    exact .inl (GCode.Tape.write_eq_error hfull)

/-- A text is refused on the line of one of its tokens, or on the first line if there is none. -/
theorem exists_token_of_ofText? {text : List Char} {fault : Fault}
    (h : (ofText? text : Except Fault (Document α)) = .error fault) :
    ∃ line reason, fault = .malformed line reason ∧
      ((Token.ofText text = [] ∧ line = 1) ∨ ∃ t ∈ Token.ofText text, line = t.line) := by
  by_cases hnone : Token.ofText text = []
  · unfold ofText? at h
    rw [hnone] at h
    cases h
    exact ⟨1, _, rfl, .inl ⟨hnone, rfl⟩⟩
  · rw [ofText?_of_ne_nil hnone] at h
    obtain ⟨line, reason, rfl, hlast | hline⟩ := exists_line_of_readFrom h
    · -- Without an end marker the text is refused on the line of its last token.
      rw [List.getLast?_eq_some_getLast hnone] at hlast
      exact ⟨line, reason, rfl, .inr ⟨_, List.getLast_mem hnone, hlast⟩⟩
    · exact ⟨line, reason, rfl, .inr hline⟩

/-- The lines of tokens, and so those of the blocks of a document, rise from one on and are lines of
the text. A text is refused on the line of one of its tokens, or on the first line if it has none. The
bounds and the program of a document are refused on the line of one of its blocks. -/
theorem lines_real (text : List Char) :
    (Token.ofText text).Pairwise (fun first second => first.line ≤ second.line) ∧
    (∀ t ∈ Token.ofText text, 1 ≤ t.line ∧ t.line ≤ text.count '\n' + 1) ∧
    (∀ fault, (ofText? text : Except Fault (Document α)) = .error fault →
      ∃ line reason, fault = .malformed line reason ∧
        ((Token.ofText text = [] ∧ line = 1) ∨ ∃ t ∈ Token.ofText text, line = t.line)) ∧
    ∀ d : Document α, ofText? text = .ok d →
      d.blocks.Pairwise (fun first second => first.line ≤ second.line) ∧
      (∀ b ∈ d.blocks, (∃ t ∈ Token.ofText text, b.line = t.line) ∧
        1 ≤ b.line ∧ b.line ≤ text.count '\n' + 1) ∧
      (∀ fault, d.bounds = .error fault → ∃ b ∈ d.blocks, fault.blockLine? = some b.line) ∧
      ∀ (s : GCode.Sink α) (title : String) fault, (s.document d title).1 = .error fault →
        fault = GCode.Tape.fullFault ∨ ∃ b ∈ d.blocks, fault.blockLine? = some b.line := by
  have horder : (Token.ofText text).Pairwise fun first second => first.line ≤ second.line :=
    Token.pairwise_line_of_scan le_rfl
  have hlines : ∀ t ∈ Token.ofText text, 1 ≤ t.line ∧ t.line ≤ text.count '\n' + 1 := fun t ht =>
    ⟨Token.floor_le_of_scan le_rfl t ht, (Token.le_of_scan le_rfl t ht).trans_eq (Nat.add_comm ..)⟩
  refine ⟨horder, hlines, fun fault => exists_token_of_ofText?, fun d hd => ?_⟩
  obtain ⟨last, hrun, -, rfl⟩ := ofTokens?_eq_ok_iff.mp (ofText?_eq_ok_iff.mp hd)
  have hread := Token.run_prefix (α := α) (Token.ofText text)
  obtain ⟨added, hadded, htokens, hsorted⟩ := Reading.exists_added_of_foldlM hrun
  have hblocks : last.document.blocks = added := hadded
  refine ⟨?_, fun b hb => ?_, fun fault => exists_block_of_bounds,
    fun s title fault => exists_block_of_document⟩
  · rw [hblocks]
    exact hsorted (horder.sublist hread.sublist)
  · rw [hblocks] at hb
    obtain ⟨t, ht, hline⟩ := htokens b hb
    have hmem := hread.subset ht
    rw [hline]
    exact ⟨⟨t, hmem, rfl⟩, hlines t hmem⟩

/-- A second command in a block of commands, a flash without an aperture further down, and a text that
is refused below empty lines. -/
theorem lines_real_flash :
    let text := "%FSLAX24Y24*\nMOMM*%\n\nX0Y0D03*\nM02*\n".toList
    let refused := "\n\nG91*\n".toList
    let fault : Fault := .noApertureSelected 4
    let sink : GCode.Sink Float := .start .default id none
    (∃ line reason, (ofText? refused : Except Fault (Document Float)) =
      .error (.malformed line reason) ∧ line = 3) ∧
    ∃ d : Document Float, ofText? text = .ok d ∧
      d.blocks.Pairwise (fun first second => first.line ≤ second.line) ∧
      (d.bounds = .error fault ∧ ∃ b ∈ d.blocks, fault.blockLine? = some b.line) ∧
      (sink.document d "job").1 = .error fault ∧
        (fault = GCode.Tape.fullFault ∨ ∃ b ∈ d.blocks, fault.blockLine? = some b.line) := by
  intro text refused fault sink
  constructor
  · have hrefused : (ofText? refused : Except Fault (Document Float)).isOk = false := by
      decide +kernel
    have htokens : Token.ofText refused = [⟨3, .word, "G91".toList⟩] := by decide +kernel
    cases hread : (ofText? refused : Except Fault (Document Float)) with
    | ok d =>
        rw [hread] at hrefused
        cases hrefused
    | error fault =>
        obtain ⟨line, reason, rfl, ⟨hnone, -⟩ | ⟨t, ht, hline⟩⟩ :=
          (lines_real refused).2.2.1 fault hread
        · rw [htokens] at hnone
          cases hnone
        · rw [htokens, List.mem_singleton] at ht
          exact ⟨line, reason, rfl, by rw [hline, ht]⟩
  · have haccepted : (ofText? text : Except Fault (Document Float)).toOption.any (fun d =>
        failure? d.bounds == some fault && failure? (sink.document d "job").1 == some fault) = true := by
      decide +kernel
    obtain ⟨d, hd, hfaults⟩ := exists_of_any_toOption haccepted
    obtain ⟨hbounds, hprogram⟩ := (Bool.and_eq_true _ _).mp hfaults
    have hbounds := failure?_eq_some.mp (eq_of_beq hbounds)
    have hprogram := failure?_eq_some.mp (eq_of_beq hprogram)
    obtain ⟨-, -, -, hdocument⟩ := lines_real (α := Float) text
    obtain ⟨horder, -, hofBounds, hofProgram⟩ := hdocument d hd
    exact ⟨d, hd, horder, ⟨hbounds, hofBounds fault hbounds⟩, hprogram,
      hofProgram sink "job" fault hprogram⟩

end Document

end Gerber

end BoardMill
