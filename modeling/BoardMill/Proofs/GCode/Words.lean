import BoardMill.GCode.Command
import BoardMill.Proofs.Decimal.Marks

/-! # Lines and words of programs

A line that is not a comment consists of words with blanks between them: a letter and a
number each. The words of a command can be read back from its line, because numbers are
written without blanks.
-/

namespace BoardMill.GCode

open Decimal (Marked)

variable {α : Type} [Numeral α]

def Command.line (c : Command α) : List Char := c.text.toList

/-- The words of a line. A comment has none. -/
def wordsOf (line : List Char) : List (List Char) :=
  if line.head? = some ';' then [] else line.splitOn ' '

def coordinateWord (letter : Char) (x : α) : List Char := letter :: (Numeral.fixed 4 x).toList

def feedWord (feed : α) : List Char := 'F' :: (Numeral.plain feed).toList

def speedWord (speed : Nat) : List Char := 'S' :: Decimal.toDigits speed

namespace Command

def words : Command α → List (List Char)
  | comment _ => []
  | setup => [['G', '9', '0'], ['G', '4', '0'], ['G', '1', '7'], ['G', '2', '1']]
  | rapidZ z => [['G', '0', '0'], coordinateWord 'Z' z]
  | rapid p => [['G', '0', '0'], coordinateWord 'X' p.x, coordinateWord 'Y' p.y]
  | home => [['G', '0', '0'], ['X', '0'], ['Y', '0']]
  | spindleOn speed => [['M', '3'], speedWord speed]
  | spindleOff => [['M', '5']]
  | plunge z feed => [['G', '0', '1'], coordinateWord 'Z' z, feedWord feed]
  | cut p feed =>
    [['G', '0', '1'], coordinateWord 'X' p.x, coordinateWord 'Y' p.y, feedWord feed]
  | arc clockwise p offset feed =>
    [['G', '0', if clockwise then '2' else '3'], coordinateWord 'X' p.x, coordinateWord 'Y' p.y,
      coordinateWord 'I' offset.x, coordinateWord 'J' offset.y, feedWord feed]
  | pause => [['M', '0']]
  | finish => [['M', '3', '0']]

@[simp] theorem line_comment (remark : Remark α) :
    (comment remark).line = ';' :: ' ' :: remark.text.toList := by
  simp [line, text, toString]

/-- The line of a command that is not a comment is made of its words. -/
theorem line_eq_words (c : Command α) (hc : ∀ remark, c ≠ comment remark) :
    c.line = [' '].intercalate c.words := by
  cases c with
  | comment remark => exact absurd rfl (hc remark)
  | spindleOn speed =>
      simp [line, text, words, speedWord, Decimal.toDigits, toString, List.intercalate]
  | arc clockwise p offset feed =>
      cases clockwise <;>
        simp [line, text, words, coordinateWord, feedWord, toString, List.intercalate]
  | _ => simp [line, text, words, coordinateWord, feedWord, toString, List.intercalate]

end Command

/-! ## What separates words and lines -/

/-- The characters between words and between lines. -/
def IsBreak (c : Char) : Prop := c = ' ' ∨ c = '\n'

instance : DecidablePred IsBreak := fun c => inferInstanceAs (Decidable (c = ' ' ∨ c = '\n'))

/-- A text within a word. -/
def Unbroken (text : List Char) : Prop := ∀ c ∈ text, ¬ IsBreak c

instance : DecidablePred Unbroken := fun text => List.decidableBAll (fun c => ¬ IsBreak c) text

theorem Unbroken.not_mem {text : List Char} (h : Unbroken text) {c : Char} (hc : IsBreak c) :
    c ∉ text :=
  fun hmem => h c hmem hc

/-- What is written in number marks is within a word. -/
theorem unbroken_of_marked {text : List Char} (h : Marked text) : Unbroken text := by
  rintro c hmem (rfl | rfl)
  · exact h.not_mem rfl hmem
  · exact h.not_mem rfl hmem

theorem unbroken_cons {c : Char} {text : List Char} (hc : ¬ IsBreak c) (h : Unbroken text) :
    Unbroken (c :: text) :=
  List.forall_mem_cons.mpr ⟨hc, h⟩

theorem not_mem_intercalate {sep c : Char} (hsep : c ≠ sep) {words : List (List Char)}
    (hwords : ∀ w ∈ words, c ∉ w) : c ∉ [sep].intercalate words := by
  induction words with
  | nil => exact List.not_mem_nil
  | cons w rest ih =>
      obtain ⟨hfirst, hothers⟩ := List.forall_mem_cons.mp hwords
      cases rest with
      | nil => rwa [List.intercalate_singleton]
      | cons next rest =>
          rw [List.intercalate_cons_cons, List.mem_append, List.mem_append, List.mem_singleton]
          rintro ((hmem | rfl) | hmem)
          · exact hfirst hmem
          · exact hsep rfl
          · exact ih hothers hmem

variable [PlainNumeral α]

theorem unbroken_coordinateWord {letter : Char} (hletter : ¬ IsBreak letter) (x : α) :
    Unbroken (coordinateWord letter x) :=
  unbroken_cons hletter (unbroken_of_marked (PlainNumeral.marked_fixed 4 x))

theorem unbroken_feedWord (feed : α) : Unbroken (feedWord feed) :=
  unbroken_cons (by decide) (unbroken_of_marked (PlainNumeral.marked_plain feed))

omit [Numeral α] [PlainNumeral α] in
theorem unbroken_speedWord (speed : Nat) : Unbroken (speedWord speed) :=
  unbroken_cons (by decide) (unbroken_of_marked (Decimal.marked_toDigits speed))

namespace Command

/-- The words of a command have no breaks. -/
theorem unbroken_of_mem_words (c : Command α) : ∀ w ∈ c.words, Unbroken w := by
  cases c with
  | comment remark => exact fun _ h => absurd h List.not_mem_nil
  | setup =>
      rw [words]
      decide
  | rapidZ z =>
      simp only [words, List.forall_mem_cons]
      exact ⟨by decide, unbroken_coordinateWord (by decide) z, by simp⟩
  | rapid p =>
      simp only [words, List.forall_mem_cons]
      exact ⟨by decide, unbroken_coordinateWord (by decide) p.x,
        unbroken_coordinateWord (by decide) p.y, by simp⟩
  | home =>
      rw [words]
      decide
  | spindleOn speed =>
      simp only [words, List.forall_mem_cons]
      exact ⟨by decide, unbroken_speedWord speed, by simp⟩
  | spindleOff =>
      rw [words]
      decide
  | plunge z feed =>
      simp only [words, List.forall_mem_cons]
      exact ⟨by decide, unbroken_coordinateWord (by decide) z, unbroken_feedWord feed, by simp⟩
  | cut p feed =>
      simp only [words, List.forall_mem_cons]
      exact ⟨by decide, unbroken_coordinateWord (by decide) p.x,
        unbroken_coordinateWord (by decide) p.y, unbroken_feedWord feed, by simp⟩
  | arc clockwise p offset feed =>
      simp only [words, List.forall_mem_cons]
      refine ⟨by cases clockwise <;> decide, unbroken_coordinateWord (by decide) p.x,
        unbroken_coordinateWord (by decide) p.y, unbroken_coordinateWord (by decide) offset.x,
        unbroken_coordinateWord (by decide) offset.y, unbroken_feedWord feed, by simp⟩
  | pause =>
      rw [words]
      decide
  | finish =>
      rw [words]
      decide

omit [PlainNumeral α] in
theorem words_ne_nil (c : Command α) (hc : ∀ remark, c ≠ comment remark) : c.words ≠ [] := by
  cases c with
  | comment remark => exact absurd rfl (hc remark)
  | _ => exact List.cons_ne_nil _ _

omit [PlainNumeral α] in
theorem head?_line (c : Command α) (hc : ∀ remark, c ≠ comment remark) :
    c.line.head? ≠ some ';' := by
  rw [line_eq_words c hc]
  cases c with
  | comment remark => exact absurd rfl (hc remark)
  | _ => simp [words, List.intercalate]

/-- The words of a command are read back from its line. -/
theorem wordsOf_line (c : Command α) : wordsOf c.line = c.words := by
  by_cases hc : ∀ remark, c ≠ comment remark
  · rw [wordsOf, if_neg (head?_line c hc), line_eq_words c hc]
    refine List.splitOn_intercalate ' ' (fun w hw => ?_) (words_ne_nil c hc)
    exact (c.unbroken_of_mem_words w hw).not_mem (.inl rfl)
  · push Not at hc
    obtain ⟨remark, rfl⟩ := hc
    simp [wordsOf, words]

/-- Only the end of a program has its line. -/
theorem eq_finish_of_line {c : Command α} (h : c.line = "M30".toList) : c = finish := by
  have hwords : c.words = [['M', '3', '0']] := by
    rw [← wordsOf_line, h]
    rfl
  cases c <;> simp_all [words]

/-! ## Single lines -/

/-- A remark fits in a line if the title or the shape of the tool in it does. -/
theorem newline_not_mem_remark (remark : Remark α)
    (htitle : ∀ title, remark = .title title → '\n' ∉ title.toList)
    (htool : ∀ number shape size, remark = .tool number shape size → shape ≠ '\n') :
    '\n' ∉ remark.text.toList := by
  have hfixed (x : α) : '\n' ∉ (Numeral.fixed 4 x).toList :=
    (unbroken_of_marked (PlainNumeral.marked_fixed 4 x)).not_mem (.inr rfl)
  have hnumber (n : Nat) : '\n' ∉ Nat.toDigits 10 n :=
    (unbroken_of_marked (Decimal.marked_toDigits n)).not_mem (.inr rfl)
  cases remark with
  | title text => exact htitle text rfl
  | toolWidth width => simp [Remark.text, toString, hfixed]
  | aperture number width => simp [Remark.text, toString, hfixed, hnumber]
  | regionStart => simp [Remark.text]
  | regionEnd => simp [Remark.text]
  | polarity p => cases p <;> simp [Remark.text]
  | tool number shape size =>
      simp [Remark.text, toString, hfixed, hnumber, (htool number shape size rfl).symm]

/-- A command fits in a line if its remark does. -/
theorem newline_not_mem_line (c : Command α)
    (hremark : ∀ remark, c = comment remark → '\n' ∉ remark.text.toList) : '\n' ∉ c.line := by
  by_cases hc : ∀ remark, c ≠ comment remark
  · rw [line_eq_words c hc]
    refine not_mem_intercalate (by decide) (fun w hw => ?_)
    exact (c.unbroken_of_mem_words w hw).not_mem (.inr rfl)
  · push Not at hc
    obtain ⟨remark, rfl⟩ := hc
    simp [hremark remark rfl]

end Command

end BoardMill.GCode
