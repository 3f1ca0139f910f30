import BoardMill.Gerber.Token
import Mathlib.Data.List.Basic
import Mathlib.Data.List.TakeWhile

/-! # Scanning step by step

Every character takes a scan from one place to the next, and ends at most one token. What a scan
makes of a text therefore does not depend on what follows. A text further down gives the same
tokens further down, each on a line of the text on which something stands.
-/

namespace BoardMill.Text

variable {text front : List Char} {c : Char}

/-- All characters of a text are blank. -/
def IsBlank (text : List Char) : Prop := ∀ c ∈ text, isBlank c = true

theorem trim_append_of_isBlank (h : IsBlank front) : trim (front ++ text) = trim text := by
  rw [trim, trimLeft, List.dropWhile_append_of_pos h]
  rfl

theorem trim_eq_nil_iff : trim text = [] ↔ IsBlank text := by
  unfold trim trimRight trimLeft IsBlank
  rw [List.reverse_eq_nil_iff, List.dropWhile_eq_nil_iff]
  constructor
  · intro h c hc
    by_cases hmem : c ∈ text.dropWhile isBlank
    · exact h c (List.mem_reverse.mpr hmem)
    · rw [← List.takeWhile_append_dropWhile (p := isBlank) (l := text), List.mem_append] at hc
      exact List.mem_takeWhile_imp (hc.resolve_right hmem)
  · intro h c hc
    exact h c (List.dropWhile_sublist isBlank |>.subset (List.mem_reverse.mp hc))

theorem trimLeft_of_head (h : ∀ c ∈ text.head?, isBlank c = false) : trimLeft text = text := by
  cases text with
  | nil => rfl
  | cons c rest => simp [trimLeft, h c rfl]

theorem trimRight_of_last (h : ∀ c ∈ text.getLast?, isBlank c = false) : trimRight text = text := by
  have hreverse : trimLeft text.reverse = text.reverse := trimLeft_of_head (by simpa using h)
  rw [trimRight, ← trimLeft, hreverse, List.reverse_reverse]

theorem trimRight_cons (h : isBlank c = false) : trimRight (c :: text) = c :: trimRight text := by
  simp [trimRight, List.dropWhile_append, h]

/-- Only blanks behind the first character can be trimmed off, if that is none itself. -/
theorem trim_cons (h : isBlank c = false) : trim (c :: text) = c :: trimRight text := by
  have hleft : trimLeft (c :: text) = c :: text := by simp [trimLeft, h]
  rw [trim, hleft, trimRight_cons h]

theorem trimRight_prefix (text : List Char) : trimRight text <+: text := by
  have h := List.dropWhile_suffix isBlank (l := text.reverse)
  rw [← List.reverse_prefix] at h
  simpa [trimRight] using h

end BoardMill.Text

namespace BoardMill.Gerber.Token

open Text (isBlank trim IsBlank)

/-! ## One character -/

namespace Place

/-- Where a scan stands behind a character on a line. -/
def next (p : Place) (line : Nat) (c : Char) : Place :=
  match p with
  | between =>
    if c = '%' then inside .extended line []
    else if c = '\n' ∨ c = '\r' ∨ c = ' ' ∨ c = '\t' ∨ c = '*' then between
    else inside .word line [c]
  | inside .extended start piece =>
    if c = '%' then between
    else if c = '*' then inside .extended line []
    else if c = '\n' then
      inside .extended (if (trim piece.reverse).isEmpty then line + 1 else start) piece
    else if c = '\r' then p
    else inside .extended start (c :: piece)
  | inside .word start piece =>
    if c = '%' then inside .extended line []
    else if c = '*' then between
    else if c = '\n' ∨ c = '\r' then p
    else inside .word start (c :: piece)

/-- The tokens that end with a character. -/
def emits (p : Place) (c : Char) : List Token :=
  match p with
  | between => []
  | inside kind start piece => if c = '%' ∨ c = '*' then ofPiece start kind piece else []

end Place

variable {p q r : Place} {line start n : Nat} {kind : TokenKind} {c : Char}
  {text first second front piece : List Char} {tokens more : List Token}

theorem scan_cons (p : Place) (line : Nat) (c : Char) (rest : List Char) :
    scan p line (c :: rest) = p.emits c ++ scan (p.next line c) (line + [c].count '\n') rest := by
  have hline : [c].count '\n' = if c = '\n' then 1 else 0 := by simp [List.count_singleton]
  rw [hline]
  cases p with
  | between =>
      rw [scan, Place.emits, Place.next]
      grind
  | inside kind start piece =>
      cases kind with
      | extended =>
          rw [scan, Place.emits, Place.next]
          grind
      | word =>
          rw [scan, Place.emits, Place.next]
          grind

/-! ## Pieces of a text -/

/-- A scan reads a text from a place on: it gives tokens and stands at another place behind it,
whatever follows. -/
def Scans (p : Place) (line : Nat) (text : List Char) (tokens : List Token) (q : Place) : Prop :=
  ∀ rest, scan p line (text ++ rest) = tokens ++ scan q (line + text.count '\n') rest

namespace Scans

theorem nil : Scans p line [] [] p := fun _ => rfl

theorem char (p : Place) (line : Nat) (c : Char) :
    Scans p line [c] (p.emits c) (p.next line c) := fun rest => scan_cons p line c rest

theorem append (hfirst : Scans p line first tokens q)
    (hsecond : Scans q (line + first.count '\n') second more r) :
    Scans p line (first ++ second) (tokens ++ more) r := by
  intro rest
  rw [List.append_assoc, hfirst, hsecond, List.count_append, List.append_assoc, Nat.add_assoc]

theorem cons (h : Scans (p.next line c) (line + [c].count '\n') text tokens q) :
    Scans p line (c :: text) (p.emits c ++ tokens) q := (char p line c).append h

end Scans

/-! ## Lines -/

/-- The token a number of lines further down. -/
def below (n : Nat) (t : Token) : Token := { t with line := t.line + n }

def Place.below (n : Nat) : Place → Place
  | between => between
  | inside kind start piece => inside kind (start + n) piece

theorem ofPiece_below (line n : Nat) (kind : TokenKind) (piece : List Char) :
    ofPiece (line + n) kind piece = (ofPiece line kind piece).map (below n) := by
  unfold ofPiece
  dsimp only
  split <;> rfl

theorem Place.emits_below (p : Place) (n : Nat) (c : Char) :
    (p.below n).emits c = (p.emits c).map (Token.below n) := by
  cases p with
  | between => rfl
  | inside kind start piece =>
      rw [Place.below, emits, emits, ofPiece_below]
      split <;> rfl

theorem Place.next_below (p : Place) (line n : Nat) (c : Char) :
    (p.below n).next (line + n) c = (p.next line c).below n := by
  cases p with
  | between =>
      simp only [Place.below, next]
      split_ifs <;> rfl
  | inside kind start piece =>
      cases kind with
      | word =>
          simp only [Place.below, next]
          split_ifs <;> rfl
      | extended =>
          simp only [Place.below, next]
          split_ifs <;> simp [Nat.add_right_comm]

/-- A text further down gives the same tokens, further down. -/
theorem scan_below (p : Place) (line n : Nat) (text : List Char) :
    scan (p.below n) (line + n) text = (scan p line text).map (below n) := by
  induction text generalizing p line with
  | nil =>
      cases p with
      | between => rfl
      | inside kind start piece => exact ofPiece_below start n kind piece
  | cons c text ih =>
      rw [scan_cons, scan_cons, List.map_append, Place.emits_below, Place.next_below, ← ih,
        Nat.add_right_comm]

theorem line_of_mem_ofPiece {t : Token} (h : t ∈ ofPiece line kind piece) :
    t.line = line ∧ ¬ IsBlank piece.reverse := by
  unfold ofPiece at h
  dsimp only at h
  split at h
  · exact absurd h List.not_mem_nil
  next hpiece =>
    rw [List.mem_singleton.mp h]
    refine ⟨rfl, fun hblank => hpiece ?_⟩
    rw [Text.trim_eq_nil_iff.mpr hblank]
    rfl

/-- The command that is open at a place starts on one of some lines, or has not begun yet on the
line of the scan. -/
def Place.StartsIn (P : Nat → Prop) (line : Nat) : Place → Prop
  | between => True
  | inside .word start _ => P start
  | inside .extended start piece => P start ∨ (IsBlank piece.reverse ∧ start = line)

theorem Place.StartsIn.next {P : Nat → Prop} (hp : p.StartsIn P line) (hline : P line) (c : Char) :
    (p.next line c).StartsIn P (line + [c].count '\n') := by
  cases p with
  | between =>
      rw [Place.next]
      split_ifs
      · exact .inl hline
      · trivial
      · exact hline
  | inside kind start piece =>
      cases kind with
      | word =>
          rw [Place.next]
          split_ifs
          · exact .inl hline
          · trivial
          · exact hp
          · exact hp
      | extended =>
          rw [Place.next]
          split_ifs with hpercent hstar hbreak hblank hreturn
          · trivial
          · exact .inl hline
          · -- Nothing has begun yet, so the line that comes next is as good as this one.
            rw [hbreak]
            exact .inr ⟨Text.trim_eq_nil_iff.mp (List.isEmpty_iff.mp hblank), rfl⟩
          · exact .inl (hp.resolve_right fun h =>
              hblank (List.isEmpty_iff.mpr (Text.trim_eq_nil_iff.mpr h.1)))
          · rw [hreturn]
            exact hp
          · exact .inl (hp.elim id fun h => h.2 ▸ hline)

theorem Place.StartsIn.ofPiece {P : Nat → Prop} (hp : (inside kind start piece).StartsIn P line) :
    ∀ t ∈ ofPiece start kind piece, P t.line := by
  intro t ht
  obtain ⟨hline, hpiece⟩ := line_of_mem_ofPiece ht
  rw [hline]
  cases kind with
  | word => exact hp
  | extended => exact hp.resolve_right fun h => hpiece h.1

/-- Tokens start on lines on which something stands. -/
theorem forall_line_of_scan {P : Nat → Prop}
    (htext : ∀ before c after, text = before ++ c :: after → P (line + before.count '\n'))
    (hp : p.StartsIn P line) : ∀ t ∈ scan p line text, P t.line := by
  induction text generalizing p line with
  | nil =>
      cases p with
      | between => nofun
      | inside kind start piece => exact hp.ofPiece
  | cons c text ih =>
      rw [scan_cons, List.forall_mem_append]
      constructor
      · cases p with
        | between => nofun
        | inside kind start piece =>
            rw [Place.emits]
            split
            · exact hp.ofPiece
            · nofun
      · refine ih (fun before other after hsplit => ?_) (hp.next (htext [] c text rfl) c)
        have h := htext (c :: before) other after (by rw [hsplit, List.cons_append])
        rwa [← List.singleton_append, List.count_append, ← Nat.add_assoc] at h

end BoardMill.Gerber.Token
