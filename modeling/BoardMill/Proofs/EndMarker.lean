import BoardMill.Proofs.Decimal.Reading
import BoardMill.Proofs.Drill.Directives
import BoardMill.Proofs.GCode.Room
import BoardMill.Proofs.Gerber.Layouts
import BoardMill.Proofs.Gerber.Modal

/-! # What stands behind an end marker

A text that is read to its end marker is read in the same way whatever follows. For documents this
takes two steps: the characters behind the marker, stray percent signs among them, change none of
the tokens up to it, and the tokens behind it are not looked at. A document needs its marker; a
drill program ends with its text, too.
-/

namespace BoardMill

/-! ## Lines of texts in two parts -/

namespace Text

variable {β : Type} [BEq β] [LawfulBEq β] {mark : β}

/-- Pieces with a mark behind each are read on their own, whatever follows. -/
theorem terminated_append (pieces : List (List β)) (rest : List β) :
    terminated mark (marked mark pieces ++ rest) =
      terminated mark (marked mark pieces) ++ terminated mark rest := by
  obtain ⟨later, last, hsplit, hrest⟩ := exists_terminated mark rest
  rw [terminated_marked_splitOn, hrest, terminated, splitOn_marked, hsplit, List.reverse_append,
    List.reverse_append]
  simp [unfinished]

theorem terminated_ne_nil {text : List β} (h : text ≠ []) : terminated mark text ≠ [] := by
  obtain ⟨pieces, rest, hsplit, hread⟩ := exists_terminated mark text
  rw [hread]
  intro hnil
  obtain ⟨hpieces, hrest⟩ := List.append_eq_nil_iff.mp hnil
  apply h
  rw [eq_marked_append hsplit, List.map_eq_nil_iff.mp hpieces]
  cases rest with
  | nil => rfl
  | cons c rest => cases hrest

variable {text : List Char}

theorem lines_append (pieces : List (List Char)) (rest : List Char) :
    lines (marked '\n' pieces ++ rest) = lines (marked '\n' pieces) ++ lines rest := by
  rw [lines, terminated_append, List.map_append]
  rfl

/-- A text whose last character is a line feed consists of complete lines. -/
theorem exists_marked (h : ∀ c ∈ text.getLast?, c = '\n') :
    ∃ pieces, text = marked '\n' pieces := by
  obtain ⟨pieces, rest, hsplit, -⟩ := exists_terminated '\n' text
  have htext := eq_marked_append hsplit
  refine ⟨pieces, ?_⟩
  rcases List.eq_nil_or_concat rest with rfl | ⟨front, c, rfl⟩
  · rw [htext, List.append_nil]
  · rw [List.concat_eq_append] at hsplit htext
    have hc : c = '\n' := h c (by rw [htext, ← List.append_assoc, List.getLast?_concat]; rfl)
    have hmem : front ++ [c] ∈ text.splitOn '\n' := by simp [hsplit]
    exact absurd (by simp [hc]) (not_mem_of_mem_splitOn hmem)

/-- A character stands on a line of its text. -/
theorem count_lt_length_lines (before : List Char) (c : Char) (after : List Char) :
    before.count '\n' < (lines (before ++ c :: after)).length := by
  obtain ⟨pieces, rest, hsplit, -⟩ := exists_terminated '\n' before
  have hrest : '\n' ∉ rest := not_mem_of_mem_splitOn (by rw [hsplit]; simp)
  have hmarks : (marked '\n' pieces).count '\n' ≤ (lines (marked '\n' pieces)).length := by
    rw [lines, List.length_map, ← countP_terminated]
    exact List.countP_le_length
  have hmore : 0 < (lines (rest ++ c :: after)).length := by
    rw [lines, List.length_map]
    exact List.length_pos_iff.mpr (terminated_ne_nil (by simp))
  rw [eq_marked_append hsplit, List.count_append, List.count_eq_zero.mpr hrest, List.append_assoc,
    lines_append, List.length_append]
  omega

end Text

/-! ## Documents -/

namespace Gerber

open Outcome
open Text (isBlank IsBlank)

/-- Texts of complete items: blanks, words with their stars, and closed percent blocks. -/
inductive Complete : List Char → Prop
  | nil : Complete []
  | blank {c : Char} {rest : List Char} (h : isBlank c = true) (hrest : Complete rest) :
    Complete (c :: rest)
  | word {text rest : List Char} (h : ∀ c ∈ text, isMark c = false) (hrest : Complete rest) :
    Complete (text ++ '*' :: rest)
  | block {text rest : List Char} (h : '%' ∉ text) (hrest : Complete rest) :
    Complete ('%' :: text ++ '%' :: rest)

/-- The words M00 and M02, however their numbers are written. -/
def Token.Stops (t : Token) : Prop :=
  t.kind = .word ∧ ∃ number, t.text = 'M' :: number ∧
    (Decimal.readWord32? number = some 0 ∨ Decimal.readWord32? number = some 2)

/-! ### Scans of complete items -/

namespace Token

variable {p : Place} {line : Nat} {c : Char} {text : List Char}

/-- The form of the command that is open at a place, or that begins there. -/
def Place.form : Place → TokenKind
  | between => .word
  | inside kind _ _ => kind

/-- Nothing but blanks stands between the last command and a place. -/
def Place.Idle (p : Place) : Prop :=
  p = between ∨ ∃ start front, IsBlank front ∧ p = inside .word start front.reverse

theorem Place.Idle.form_eq (h : p.Idle) : p.form = .word := by
  rcases h with rfl | ⟨start, front, -, rfl⟩ <;> rfl

/-- Only percent signs change the form of commands. -/
theorem Place.form_next (hc : c ≠ '%') (p : Place) (line : Nat) :
    (p.next line c).form = p.form := by
  cases p with
  | between =>
      rw [next, if_neg hc]
      split <;> rfl
  | inside kind start piece =>
      cases kind <;> rw [next, if_neg hc] <;> split_ifs <;> rfl

theorem scans_form (htext : '%' ∉ text) (p : Place) (line : Nat) :
    ∃ tokens q, Scans p line text tokens q ∧ q.form = p.form := by
  induction text generalizing p line with
  | nil => exact ⟨[], p, .nil, rfl⟩
  | cons c text ih =>
      rw [List.mem_cons, not_or] at htext
      obtain ⟨tokens, q, hscans, hform⟩ := ih htext.2 (p.next line c) (line + [c].count '\n')
      exact ⟨_, q, hscans.cons, hform.trans (p.form_next (Ne.symm htext.1) line)⟩

/-- A character that leads from a form of commands to between commands does so behind any text
without percent signs. -/
theorem exists_scans_closed (htext : '%' ∉ text) (p : Place) (line : Nat)
    (hclose : ∀ (q : Place) (line : Nat), q.form = p.form → q.next line c = .between) :
    ∃ tokens, Scans p line (text ++ [c]) tokens .between := by
  obtain ⟨tokens, q, hscans, hform⟩ := scans_form htext p line
  have hchar := Scans.char q (line + text.count '\n') c
  rw [hclose q _ hform] at hchar
  exact ⟨_, hscans.append hchar⟩

theorem Place.next_star (p : Place) (line : Nat) (h : p.form = .word) :
    p.next line '*' = between := by
  cases p with
  | between => rfl
  | inside kind start piece =>
      cases h
      rfl

theorem Place.next_percent (p : Place) (line : Nat) (h : p.form = .extended) :
    p.next line '%' = between := by
  cases p with
  | between => cases h
  | inside kind start piece =>
      cases h
      rfl

theorem Place.Idle.next_blank (h : p.Idle) (hc : isBlank c = true) (line : Nat) :
    (p.next line c).Idle := by
  have hpercent : c ≠ '%' := by
    rintro rfl
    cases hc
  have hstar : c ≠ '*' := by
    rintro rfl
    cases hc
  rcases h with rfl | ⟨start, front, hfront, rfl⟩
  · rw [next, if_neg hpercent]
    split
    · exact .inl rfl
    · exact .inr ⟨line, [c], by simpa [IsBlank] using hc, rfl⟩
  · rw [next, if_neg hpercent, if_neg hstar]
    split
    · exact .inr ⟨start, front, hfront, rfl⟩
    · refine .inr ⟨start, front ++ [c], List.forall_mem_append.mpr ⟨hfront, by simpa using hc⟩, ?_⟩
      rw [List.reverse_append]
      rfl

/-- Complete items leave nothing open. -/
theorem exists_scans_of_complete (htext : Complete text) (hp : p.Idle) (line : Nat) :
    ∃ tokens q, Scans p line text tokens q ∧ q.Idle := by
  induction htext generalizing p line with
  | nil => exact ⟨[], p, .nil, hp⟩
  | blank h _ ih =>
      obtain ⟨tokens, q, hscans, hq⟩ := ih (hp.next_blank h line) _
      exact ⟨_, q, hscans.cons, hq⟩
  | @word text rest h _ ih =>
      have hpercent : '%' ∉ text := fun hmem => by cases h '%' hmem
      obtain ⟨first, hfirst⟩ := exists_scans_closed (c := '*') hpercent p line fun q line hform =>
        q.next_star line (hform.trans hp.form_eq)
      obtain ⟨more, q, hscans, hq⟩ := ih (.inl rfl) (line + (text ++ ['*']).count '\n')
      refine ⟨first ++ more, q, ?_, hq⟩
      have hboth := hfirst.append hscans
      rwa [List.append_assoc] at hboth
  | @block text rest h _ ih =>
      have hopens : p.next line '%' = .inside .extended line [] := by
        rcases hp with rfl | ⟨start, front, -, rfl⟩ <;> rfl
      obtain ⟨first, hfirst⟩ := exists_scans_closed (c := '%') h (p.next line '%')
        (line + ['%'].count '\n') fun q line hform =>
          q.next_percent line (hform.trans (by rw [hopens]; rfl))
      have hblock := hfirst.cons
      obtain ⟨more, q, hscans, hq⟩ := ih (.inl rfl) (line + ('%' :: (text ++ ['%'])).count '\n')
      refine ⟨p.emits '%' ++ first ++ more, q, ?_, hq⟩
      have hboth := hblock.append hscans
      rwa [List.cons_append, List.append_assoc] at hboth

/-- Where nothing is open, an end marker is read as one. -/
theorem exists_scans_marker (hp : p.Idle) (line : Nat) :
    ∃ start, Scans p line "M02*".toList [⟨start, .word, "M02".toList⟩] .between := by
  have hscans := (Scans.char p line 'M').append
    ((Scans.char _ _ '0').append ((Scans.char _ _ '2').append (Scans.char _ _ '*')))
  rcases hp with rfl | ⟨start, front, hfront, rfl⟩
  · exact ⟨line, hscans⟩
  · have hcommand : IsCommand "M02".toList := by decide
    have hmarker : ofPiece start .word (front ++ "M02".toList).reverse =
        [⟨start, .word, "M02".toList⟩] := ofPiece_command hcommand hfront
    refine ⟨start, ?_⟩
    rw [List.reverse_append] at hmarker
    rw [← hmarker]
    exact hscans

/-- Behind complete items, whatever follows an end marker only adds tokens behind it. -/
theorem exists_ofText_marker (htext : Complete text) :
    ∃ before t, t.Stops ∧
      ∀ rest, ∃ after, ofText (text ++ "M02*".toList ++ rest) = before ++ t :: after := by
  obtain ⟨before, q, hscans, hq⟩ := exists_scans_of_complete htext (.inl rfl) 1
  obtain ⟨start, hmarker⟩ := exists_scans_marker hq (1 + text.count '\n')
  refine ⟨before, ⟨start, .word, "M02".toList⟩, ⟨rfl, "02".toList, rfl, .inr (by decide)⟩, ?_⟩
  intro rest
  have hboth := hscans.append hmarker rest
  rw [List.append_assoc before, List.singleton_append] at hboth
  exact ⟨_, hboth⟩

end Token

/-! ### Stops -/

variable {α : Type}

theorem Word.read?_eq_finish_iff {text : List Char} :
    (Word.read? text : Except (Defect α) Word) = .ok .finish ↔
      ∃ number, text = 'M' :: number ∧
        (Decimal.readWord32? number = some 0 ∨ Decimal.readWord32? number = some 2) := by
  constructor
  · intro h
    rcases Word.read?_cases h with ⟨hM, -⟩ | ⟨-, -, p, hfinish⟩ | ⟨-, -, p, f, hfinish⟩
    · obtain ⟨number, rfl⟩ := List.head?_eq_some_iff.mp hM
      refine ⟨number, rfl, ?_⟩
      unfold Word.read? at h
      dsimp only at h
      by_cases hascii : (('M' :: number).any fun c => 0x80 ≤ c.toNat) = true
      · rw [if_pos hascii] at h
        cases h
      rw [if_neg hascii] at h
      split at h
      next heq =>
        cases heq
        split at h
        next hzero => exact .inl hzero
        next htwo => exact .inr htwo
        next => cases h
        next => cases h
      next heq => cases heq
      next hM _ => exact absurd rfl (hM number)
    · cases hfinish
    · cases hfinish
  · rintro ⟨number, rfl, h⟩
    have hdigits : ∀ c ∈ number, c = '+' ∨ Decimal.isDigit c = true := by
      rcases h with h | h <;> exact Decimal.isDigit_of_readWord32? h
    have hascii : (('M' :: number).any fun c => 0x80 ≤ c.toNat) = false := by
      rw [List.any_eq_false]
      intro c hc
      rw [decide_eq_true_eq]
      rcases List.mem_cons.mp hc with rfl | hc
      · decide
      rcases hdigits c hc with rfl | hc
      · decide
      · have hnine : c ≤ '9' := by simp_all [Decimal.isDigit]
        have hsmall : c.toNat ≤ 57 := hnine
        omega
    rw [Word.read?, hascii]
    rcases h with h | h <;> simp [h, pure, Except.pure]

theorem Token.ends_iff {t : Token} : t.ends α = true ↔ t.Stops := by
  rw [ends, beq_iff_eq, word?_eq_some_iff, Word.read?_eq_finish_iff]
  rfl

variable [Scalar α]

theorem Reading.token_of_stops {t : Token} (h : t.Stops) (r : Reading α) :
    r.token t = .ok { r with ended := true } := by
  obtain ⟨hkind, hnumber⟩ := h
  have hread : (Word.read? t.text : Except (Defect α) Word) = .ok .finish :=
    Word.read?_eq_finish_iff.mpr hnumber
  rw [token, hkind]
  dsimp only
  rw [word, hread]
  rfl

theorem Reading.ended_of_foldlM {r last : Reading α} {tokens : List Token}
    (h : tokens.foldlM token r = .ok last) :
    last.ended = (r.ended || tokens.any (Token.ends α)) := by
  induction tokens generalizing r with
  | nil =>
      cases h
      simp
  | cons t rest ih =>
      rw [List.foldlM_cons] at h
      obtain ⟨next, hnext, h⟩ := bind_eq_ok.mp h
      rw [ih h, (token_step hnext).1.ended, List.any_cons, Bool.or_assoc]

/-- Tokens come to an end marker with what was read before it. -/
def Reading.Stopped (tokens : List Token) (r : Reading α) : Prop :=
  ∃ before t after, tokens = before ++ t :: after ∧ (∀ earlier ∈ before, ¬ earlier.Stops) ∧
    t.Stops ∧ before.foldlM Reading.token .start = .ok r

/-! ### Reading documents -/

namespace Token

omit [Scalar α] in
variable (α) in
/-- Tokens are read to the end, or to the first end marker among them. -/
theorem run_cases (tokens : List Token) :
    ((∀ t ∈ tokens, ¬ t.Stops) ∧ run α tokens = tokens) ∨
      ∃ before t after, tokens = before ++ t :: after ∧ (∀ earlier ∈ before, ¬ earlier.Stops) ∧
        t.Stops ∧ run α tokens = before ++ [t] := by
  induction tokens with
  | nil => exact .inl ⟨nofun, rfl⟩
  | cons t rest ih =>
      rw [run]
      by_cases hstops : t.Stops
      · rw [if_pos (ends_iff.mpr hstops)]
        exact .inr ⟨[], t, rest, rfl, nofun, hstops, rfl⟩
      · rw [if_neg fun hends => hstops (ends_iff.mp hends)]
        rcases ih with ⟨hrest, hrun⟩ | ⟨before, other, after, rfl, hbefore, hother, hrun⟩
        · rw [hrun]
          exact .inl ⟨List.forall_mem_cons.mpr ⟨hstops, hrest⟩, rfl⟩
        · rw [hrun]
          exact .inr ⟨t :: before, other, after, rfl, List.forall_mem_cons.mpr ⟨hstops, hbefore⟩,
            hother, rfl⟩

omit [Scalar α] in
variable (α) in
theorem run_of_stops {before : List Token} {t : Token}
    (hbefore : ∀ earlier ∈ before, ¬ earlier.Stops) (ht : t.Stops) (after : List Token) :
    run α (before ++ t :: after) = before ++ [t] := by
  induction before with
  | nil => rw [List.nil_append, run, if_pos (ends_iff.mpr ht), List.nil_append]
  | cons first before ih =>
      obtain ⟨hfirst, hbefore⟩ := List.forall_mem_cons.mp hbefore
      rw [List.cons_append, run, if_neg fun hends => hfirst (ends_iff.mp hends), ih hbefore,
        List.cons_append]

end Token

namespace Document

variable {α : Type} [Numeral α] {r : Reading α} {d : Document α} {tokens : List Token}
  {text : List Char}

/-- Tokens give a document exactly if they come to an end marker. -/
theorem ofTokens?_eq_ok_iff_stopped :
    ofTokens? tokens = .ok d ↔ ∃ r : Reading α, r.Stopped tokens ∧ r.document = d := by
  rw [ofTokens?_eq_ok_iff]
  constructor
  · rintro ⟨last, hlast, hended, rfl⟩
    rcases Token.run_cases α tokens with
      ⟨hnone, hrun⟩ | ⟨before, t, after, htokens, hbefore, ht, hrun⟩
    · -- The reading has not begun at its end, so something must have ended it.
      rw [hrun] at hlast
      rw [Reading.ended_of_foldlM hlast, Reading.start, Bool.false_or, List.any_eq_true] at hended
      obtain ⟨t, hmem, hends⟩ := hended
      exact absurd (Token.ends_iff.mp hends) (hnone t hmem)
    · rw [hrun] at hlast
      obtain ⟨r, next, hr, hnext, hsame⟩ := exists_of_foldlM_split hlast
      rw [Reading.token_of_stops ht] at hnext
      cases hnext
      cases hsame
      exact ⟨r, ⟨before, t, after, htokens, hbefore, ht, hr⟩, rfl⟩
  · rintro ⟨r, ⟨before, t, after, rfl, hbefore, ht, hr⟩, rfl⟩
    refine ⟨{ r with ended := true }, ?_, rfl, rfl⟩
    rw [Token.run_of_stops α hbefore ht, List.foldlM_append]
    refine bind_eq_ok.mpr ⟨r, hr, ?_⟩
    rw [List.foldlM_cons, Reading.token_of_stops ht]
    rfl

/-- Tokens behind an end marker are not looked at. -/
theorem readFrom_of_stops {t : Token} (ht : t.Stops) (before after : List Token)
    (lastLine otherLine : Nat) :
    readFrom lastLine r (before ++ t :: after) = readFrom otherLine r (before ++ [t]) := by
  induction before generalizing r with
  | nil =>
      rw [List.nil_append, List.nil_append, readFrom, readFrom, Reading.token_of_stops ht]
      dsimp only
      rw [readFrom_of_ended rfl, readFrom_of_ended rfl]
  | cons first before ih =>
      rw [List.cons_append, List.cons_append, readFrom, readFrom]
      cases r.token first with
      | error defect => rfl
      | ok next =>
          dsimp only
          rw [ih]

/-- Tokens are refused on the line of one of them. -/
theorem exists_line_of_ofTokens? {fault : Fault} (hne : tokens ≠ [])
    (h : (ofTokens? tokens : Except Fault (Document α)) = .error fault) :
    ∃ t ∈ tokens, ∃ reason, fault = .malformed t.line reason := by
  obtain ⟨line, reason, rfl, hline⟩ := exists_line_of_readFrom h
  rcases hline with rfl | ⟨t, ht, rfl⟩
  · refine ⟨tokens.getLast hne, List.getLast_mem hne, reason, ?_⟩
    rw [List.getLast?_eq_some_getLast hne]
    rfl
  · exact ⟨t, ht, reason, rfl⟩

/-- Tokens stand on lines of their text. -/
theorem line_of_mem_ofText {t : Token} (h : t ∈ Token.ofText text) :
    1 ≤ t.line ∧ t.line ≤ (Text.lines text).length := by
  have hlines : ∀ before c after, text = before ++ c :: after →
      1 ≤ 1 + before.count '\n' ∧ 1 + before.count '\n' ≤ (Text.lines text).length := by
    intro before c after hsplit
    have hcount := Text.count_lt_length_lines before c after
    rw [← hsplit] at hcount
    omega
  have hopen : Token.Place.StartsIn (fun line => 1 ≤ line ∧ line ≤ (Text.lines text).length) 1
      .between := trivial
  exact Token.forall_line_of_scan hlines hopen t h

/-- Without an end marker a text is refused on one of its lines. -/
theorem exists_fault_of_not_stopped (hne : Token.ofText text ≠ [])
    (h : ∀ r : Reading α, ¬ r.Stopped (Token.ofText text)) :
    ∃ line reason, (ofText? text : Except Fault (Document α)) = .error (.malformed line reason) ∧
      1 ≤ line ∧ line ≤ (Text.lines text).length := by
  rw [ofText?_of_ne_nil hne]
  cases hresult : (ofTokens? (Token.ofText text) : Except Fault (Document α)) with
  | ok d =>
      obtain ⟨r, hr, -⟩ := ofTokens?_eq_ok_iff_stopped.mp hresult
      exact absurd hr (h r)
  | error fault =>
      obtain ⟨t, ht, reason, rfl⟩ := exists_line_of_ofTokens? hne hresult
      exact ⟨t.line, reason, rfl, line_of_mem_ofText ht⟩

theorem ofText?_eq_ok_iff_stopped :
    ofText? text = .ok d ↔ ∃ r : Reading α, r.Stopped (Token.ofText text) ∧ r.document = d := by
  rw [ofText?_eq_ok_iff, ofTokens?_eq_ok_iff_stopped]

/-- Whatever follows an end marker behind complete items makes no difference. -/
theorem ofText?_marker_append (h : Complete text) (rest : List Char) :
    (ofText? (text ++ "M02*".toList ++ rest) : Except Fault (Document α)) =
      ofText? (text ++ "M02*".toList) := by
  obtain ⟨before, t, ht, htokens⟩ := Token.exists_ofText_marker h
  obtain ⟨later, hlater⟩ := htokens rest
  obtain ⟨none, hnone⟩ := htokens []
  rw [List.append_nil] at hnone
  have hcut (text : List Char) (after : List Token) (h : Token.ofText text = before ++ t :: after) :
      (ofText? text : Except Fault (Document α)) = readFrom 1 .start (before ++ [t]) := by
    rw [ofText?_of_ne_nil (by rw [h]; simp), h, ofTokens?, readFrom_of_stops ht]
  rw [hcut _ later hlater, hcut _ none hnone]

end Document

end Gerber

/-! ## Drill programs -/

namespace Drill.Program

variable {α : Type} [Scalar α]

/-- A program ends with an end marker as it would without one. -/
theorem readFrom_of_ends {text : List Char} (h : ends (directive text) = true) (number : Nat)
    (r : Reading α) (above below : List (Option (List Char))) :
    readFrom number r (above ++ some text :: below) = readFrom number r above := by
  induction above generalizing number r with
  | nil =>
      rw [List.nil_append, readFrom, readFrom]
      dsimp only
      rw [Reading.line_of_ends h]
      dsimp only
      rw [readFrom_of_ended rfl]
      split <;> rfl
  | cons line above ih =>
      cases line with
      | none => rw [List.cons_append, readFrom, readFrom]
      | some other =>
          rw [List.cons_append, readFrom, readFrom]
          cases hnext : r.line (directive other) with
          | error defect => simp only [hnext]
          | ok next =>
              dsimp only
              rw [hnext]
              dsimp only
              rw [ih]

theorem ofText?_marker_append {text : List Char} (h : ∀ c ∈ text.getLast?, c = '\n')
    (rest : List Char) :
    (ofText? (text ++ "M30\n".toList ++ rest) : Except Fault (Program α)) = ofText? text := by
  obtain ⟨pieces, rfl⟩ := Text.exists_marked h
  have hlines : Text.lines (Text.marked '\n' pieces ++ "M30\n".toList ++ rest) =
      Text.lines (Text.marked '\n' pieces) ++ "M30".toList :: Text.lines rest := by
    have hmarker : "M30\n".toList ++ rest = Text.marked '\n' ["M30".toList] ++ rest := rfl
    rw [List.append_assoc, Text.lines_append, hmarker, Text.lines_append]
    rfl
  have hends : ends (directive "M30".toList) = true := by decide
  rw [ofText?, hlines, List.map_append, List.map_cons, readFrom_of_ends hends, ofText?]

end Drill.Program

/-- A document ends at its end marker, which a text behind complete items cannot change, and it
needs one: otherwise a text with any tokens is refused on one of its lines. A drill program ends
at its end marker, or where its text does. -/
theorem end_marker_cuts {α : Type} [Numeral α] :
    (∀ text : List Char, Gerber.Complete text → ∀ rest,
      (Gerber.Document.ofText? (text ++ "M02*".toList ++ rest) :
          Except Fault (Gerber.Document α)) =
        Gerber.Document.ofText? (text ++ "M02*".toList)) ∧
    (∀ (text : List Char) (d : Gerber.Document α),
      Gerber.Document.ofText? text = .ok d ↔
        ∃ r : Gerber.Reading α, r.Stopped (Gerber.Token.ofText text) ∧ r.document = d) ∧
    (∀ text : List Char, Gerber.Token.ofText text ≠ [] →
      (∀ r : Gerber.Reading α, ¬ r.Stopped (Gerber.Token.ofText text)) →
      ∃ line reason,
        (Gerber.Document.ofText? text : Except Fault (Gerber.Document α)) =
          .error (.malformed line reason) ∧
        1 ≤ line ∧ line ≤ (Text.lines text).length) ∧
    ∀ text : List Char, (∀ c ∈ text.getLast?, c = '\n') → ∀ rest,
      (Drill.Program.ofText? (text ++ "M30\n".toList ++ rest) :
          Except Fault (Drill.Program α)) =
        Drill.Program.ofText? (text ++ "M30\n".toList) ∧
      (Drill.Program.ofText? (text ++ "M30\n".toList) : Except Fault (Drill.Program α)) =
        Drill.Program.ofText? text := by
  refine ⟨fun text h rest => Gerber.Document.ofText?_marker_append h rest,
    fun text d => Gerber.Document.ofText?_eq_ok_iff_stopped,
    fun text hne h => Gerber.Document.exists_fault_of_not_stopped hne h, fun text h rest => ?_⟩
  have hmarker := Drill.Program.ofText?_marker_append (α := α) h []
  rw [List.append_nil] at hmarker
  exact ⟨(Drill.Program.ofText?_marker_append h rest).trans hmarker.symm, hmarker⟩

/-- Behind a comment, a percent block and a blank the marker ends the document, though a block
that never closes follows. Inside of such a block it is no word, and the text is refused. In the
drill file a tool without a size stands behind the marker. -/
theorem end_marker_cuts_block :
    let text := "G04*%FSLAX24Y24*%\n".toList
    let file := "M48\nT1C0.8\n".toList
    (Gerber.Complete text ∧
      (Gerber.Document.ofText? (text ++ "M02*".toList ++ "%M02*".toList) :
          Except Fault (Gerber.Document Float)) =
        Gerber.Document.ofText? (text ++ "M02*".toList)) ∧
    (∃ line reason,
      (Gerber.Document.ofText? (text ++ "%MOMM*\nM02*".toList) :
          Except Fault (Gerber.Document Float)) =
        .error (.malformed line reason) ∧
      1 ≤ line ∧ line ≤ (Text.lines (text ++ "%MOMM*\nM02*".toList)).length) ∧
    (∀ c ∈ file.getLast?, c = '\n') ∧
      (Drill.Program.ofText? (file ++ "M30\n".toList ++ "T2C".toList) :
          Except Fault (Drill.Program Float)) =
        Drill.Program.ofText? (file ++ "M30\n".toList) := by
  intro text file
  have hcomplete : Gerber.Complete text := by
    have hblank : Gerber.Complete ['\n'] := .blank (by decide) .nil
    have hblock : Gerber.Complete ('%' :: "FSLAX24Y24*".toList ++ '%' :: ['\n']) :=
      .block (by decide) hblank
    have hcomment : ∀ c ∈ "G04".toList, Gerber.isMark c = false := by simp [Gerber.isMark]
    exact .word hcomment hblock
  have hfile : ∀ c ∈ file.getLast?, c = '\n' := by simp [file]
  have hopen : ∀ t ∈ Gerber.Token.ofText (text ++ "%MOMM*\nM02*".toList), t.kind = .extended := by
    decide +kernel
  obtain ⟨hcut, -, hrefused, hdrill⟩ := end_marker_cuts (α := Float)
  refine ⟨⟨hcomplete, hcut text hcomplete _⟩, ?_, hfile, (hdrill file hfile _).1⟩
  refine hrefused _ (by decide +kernel) ?_
  rintro r ⟨before, t, after, hsplit, -, ht, -⟩
  have hkind := hopen t (by rw [hsplit]; simp)
  rw [ht.1] at hkind
  cases hkind

end BoardMill
