import BoardMill.Drill.Reading
import BoardMill.Gerber.Reading
import BoardMill.Proofs.Decimal.Grammar
import BoardMill.Proofs.Gerber.Scanning
import BoardMill.Proofs.Outcome
import BoardMill.Proofs.Text.Lines

/-! # Line endings

A document is scanned as if there were no carriage returns. In a drill file, those at the ends of
lines are trimmed off together with other blanks. A text is therefore read the same, or refused on the
same line with the same message, whichever of its line feeds have a carriage return in front.
-/

namespace BoardMill

namespace Text

/-- The same text with carriage returns in front of some of its line feeds. -/
inductive Returned : List Char → List Char → Prop
  | nil : Returned [] []
  | cons {text other : List Char} (c : Char) (h : Returned text other) :
    Returned (c :: text) (c :: other)
  | feed {text other : List Char} (h : Returned text other) :
    Returned ('\n' :: text) ('\r' :: '\n' :: other)

variable {text other line : List Char} {c : Char}

theorem Returned.filter_eq (h : Returned text other) :
    other.filter (· ≠ '\r') = text.filter (· ≠ '\r') := by
  induction h with
  | nil => rfl
  | cons c h ih => rw [List.filter_cons, List.filter_cons, ih]
  | feed h ih => simpa using ih

/-- The lines that end with a line feed may have a carriage return more, the last one has not. -/
theorem Returned.splitOn (h : Returned text other) :
    ∃ pieces others last, text.splitOn '\n' = pieces ++ [last] ∧
      other.splitOn '\n' = others ++ [last] ∧
      List.Forall₂ (fun line later => later = line ∨ later = line ++ ['\r']) pieces others := by
  induction h with
  | nil => exact ⟨[], [], [], rfl, rfl, .nil⟩
  | @cons text other c h ih =>
      obtain ⟨pieces, others, last, htext, hother, hlines⟩ := ih
      rw [List.splitOn_cons_eq_if_modifyHead, List.splitOn_cons_eq_if_modifyHead, htext, hother]
      split
      · exact ⟨[] :: pieces, [] :: others, last, rfl, rfl, .cons (.inl rfl) hlines⟩
      · cases hlines with
        | nil => exact ⟨[], [], c :: last, rfl, rfl, .nil⟩
        | @cons line later lines laters hline hlines =>
            refine ⟨(c :: line) :: lines, (c :: later) :: laters, last, rfl, rfl, .cons ?_ hlines⟩
            rcases hline with rfl | rfl
            · exact .inl rfl
            · exact .inr rfl
  | @feed text other h ih =>
      obtain ⟨pieces, others, last, htext, hother, hlines⟩ := ih
      refine ⟨[] :: pieces, ['\r'] :: others, last, ?_, ?_, .cons (.inr rfl) hlines⟩
      · rw [List.splitOn_cons_eq_if_modifyHead, htext]
        rfl
      · rw [List.splitOn_cons_eq_if_modifyHead, List.splitOn_cons_eq_if_modifyHead, hother]
        rfl

/-- Blanks behind a text are trimmed off. -/
theorem trim_concat (h : isBlank c = true) : trim (text ++ [c]) = trim text := by
  have hright (text : List Char) : trimRight (text ++ [c]) = trimRight text := by
    simp [trimRight, h]
  unfold trim trimLeft
  rw [List.dropWhile_append]
  split
  next hempty =>
    rw [List.isEmpty_iff.mp hempty]
    simp [h]
  next => exact hright _

end Text

namespace Gerber

variable {text other : List Char}

namespace Token

theorem scan_return (p : Place) (line : Nat) (rest : List Char) :
    scan p line ('\r' :: rest) = scan p line rest := by
  rcases p with - | ⟨- | -, start, piece⟩ <;> simp [scan]

/-- Carriage returns are not there for a scan. -/
theorem scan_filter (p : Place) (line : Nat) (text : List Char) :
    scan p line (text.filter (· ≠ '\r')) = scan p line text := by
  induction text generalizing p line with
  | nil => rfl
  | cons c text ih =>
      by_cases hc : c = '\r'
      · subst hc
        rw [scan_return, ← ih]
        rfl
      · rw [List.filter_cons_of_pos (by simpa using hc), scan_cons, scan_cons, ih]

theorem ofText_eq_of_filter (h : other.filter (· ≠ '\r') = text.filter (· ≠ '\r')) :
    ofText other = ofText text := by
  rw [ofText, ofText, ← scan_filter, h, scan_filter]

end Token

theorem Document.ofText?_eq_of_filter {α : Type} [Numeral α]
    (h : other.filter (· ≠ '\r') = text.filter (· ≠ '\r')) :
    (ofText? other : Except Fault (Document α)) = ofText? text := by
  rw [ofText?, ofText?, Token.ofText_eq_of_filter h]

end Gerber

namespace Drill

variable {α : Type} [Scalar α] {text other : List Char}

open Text (Returned lines withoutReturn)

/-- A carriage return behind a line is a part of its comment, or a blank. -/
theorem directive_concat (line : List Char) : directive (line ++ ['\r']) = directive line := by
  unfold directive
  by_cases hmark : ';' ∈ line
  · obtain ⟨before, after, rfl, hbefore⟩ := List.eq_append_cons_of_mem hmark
    rw [List.append_assoc, List.cons_append, Decimal.splitAtFirst?_append hbefore,
      Decimal.splitAtFirst?_append hbefore]
    rfl
  · have hnone : ';' ∉ line ++ ['\r'] := by simpa using hmark
    rw [Decimal.splitAtFirst?_eq_none hmark, Decimal.splitAtFirst?_eq_none hnone]
    exact Text.trim_concat (by decide)

theorem directive_withoutReturn (line : List Char) :
    directive (withoutReturn line) = directive line := by
  unfold withoutReturn
  split
  next hlast =>
    conv_rhs => rw [← List.dropLast_append_getLast? '\r' hlast]
    exact (directive_concat _).symm
  next => rfl

theorem map_directive_lines {pieces : List (List Char)} {last : List Char}
    (h : text.splitOn '\n' = pieces ++ [last]) :
    (lines text).map directive =
      pieces.map directive ++ (Text.unfinished last).map fun line => directive line.1 := by
  have hunfinished : ∀ line ∈ Text.unfinished last,
      directive (if line.2 then withoutReturn line.1 else line.1) = directive line.1 := fun line hline =>
    by rw [if_neg (Text.ne_true_of_mem_unfinished hline)]
  have hpieces : ∀ piece ∈ pieces, directive (withoutReturn piece) = directive piece :=
    fun piece _ => directive_withoutReturn piece
  rw [lines, Text.terminated_of_splitOn h, List.map_append, List.map_append, List.map_map,
    List.map_map, List.map_map]
  exact congrArg₂ (· ++ ·) (List.map_congr_left hpieces) (List.map_congr_left hunfinished)

/-- Carriage returns in front of line feeds make no difference to the directives of a text. -/
theorem map_directive_of_returned (h : Returned text other) :
    (lines other).map directive = (lines text).map directive := by
  obtain ⟨pieces, others, last, htext, hother, hlines⟩ := h.splitOn
  rw [map_directive_lines htext, map_directive_lines hother]
  congr 1
  clear htext hother
  induction hlines with
  | nil => rfl
  | cons hline _ ih =>
      rw [List.map_cons, List.map_cons, ih]
      rcases hline with rfl | rfl
      · rfl
      · rw [directive_concat]

namespace Program

/-- Lines are read by their directives. -/
theorem readFrom_congr {lines others : List (List Char)}
    (h : others.map directive = lines.map directive) (number : Nat) (r : Reading α) :
    readFrom number r (others.map some) = readFrom number r (lines.map some) := by
  induction lines generalizing others number r with
  | nil => rw [List.map_eq_nil_iff.mp h]
  | cons line lines ih =>
      obtain ⟨later, laters, rfl, hline, hlines⟩ := List.map_eq_cons_iff.mp h
      rw [List.map_cons, List.map_cons, readFrom, readFrom, hline]
      dsimp only
      split
      · rfl
      · split
        · exact ih hlines _ _
        · rfl

theorem ofText?_eq_of_returned (h : Returned text other) :
    (ofText? other : Except Fault (Program α)) = ofText? text :=
  readFrom_congr (map_directive_of_returned h) 1 .start

end Program

end Drill

/-- Whichever line feeds of a text have a carriage return in front, it is read as the same document
and the same drill program, or is refused on the same line with the same message. Texts that differ
in carriage returns only, wherever these stand, have the same tokens on the same lines. -/
theorem line_endings_immaterial {α : Type} [Numeral α] :
    (∀ text other : List Char, Text.Returned text other →
      (Gerber.Document.ofText? other : Except Fault (Gerber.Document α)) =
        Gerber.Document.ofText? text ∧
      (Drill.Program.ofText? other : Except Fault (Drill.Program α)) =
        Drill.Program.ofText? text) ∧
    ∀ text other : List Char, other.filter (· ≠ '\r') = text.filter (· ≠ '\r') →
      Gerber.Token.ofText other = Gerber.Token.ofText text := by
  refine ⟨fun text other h => ⟨?_, ?_⟩, fun text other => Gerber.Token.ofText_eq_of_filter⟩
  · exact Gerber.Document.ofText?_eq_of_filter h.filter_eq
  · exact Drill.Program.ofText?_eq_of_returned h

/-- An unknown command below an empty line, and carriage returns inside of a word. -/
theorem line_endings_immaterial_unknown :
    let text := "\nQ\n".toList
    let other := "\r\nQ\n".toList
    let word := "G01*".toList
    let broken := "G\r0\r1\r*".toList
    (Text.Returned text other ∧
      (Gerber.Document.ofText? other : Except Fault (Gerber.Document Float)) =
        .error (.malformed 2 "malformed word: Q") ∧
      (Drill.Program.ofText? other : Except Fault (Drill.Program Float)) =
        .error (.malformed 2 "unparsable drill directive: Q")) ∧
    broken.filter (· ≠ '\r') = word.filter (· ≠ '\r') ∧
      Gerber.Token.ofText broken = [⟨1, .word, word.dropLast⟩] := by
  intro text other word broken
  obtain ⟨hreturned, htokens⟩ := line_endings_immaterial (α := Float)
  have hfeed : Text.Returned text other := .feed (.cons 'Q' (.cons '\n' .nil))
  have hbroken : broken.filter (· ≠ '\r') = word.filter (· ≠ '\r') := by decide
  obtain ⟨hdocument, hdrill⟩ := hreturned text other hfeed
  refine ⟨⟨hfeed, hdocument.trans ?_, hdrill.trans ?_⟩, hbroken,
    (htokens word broken hbroken).trans ?_⟩
  · exact Outcome.failure?_eq_some.mp (by decide +kernel)
  · exact Outcome.failure?_eq_some.mp (by decide +kernel)
  · decide

end BoardMill
