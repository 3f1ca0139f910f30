import BoardMill.Proofs.Gerber.Scanning
import Mathlib.Tactic.MkIffOfInductiveProp

/-! # Layouts of commands

Commands can be written out in many ways: with blanks between them, broken into lines, with
comments among them, and extended commands one or many to a pair of percent signs. Every such
layout is read as its commands, each on the line of its first character.
-/

namespace BoardMill.Gerber

open Text (isBlank trim trimRight IsBlank)

/-! ## Written commands -/

/-- The characters that only break lines. -/
def isBreak (c : Char) : Bool := c == '\n' || c == '\r'

/-- The characters that may stand between commands. -/
def isGap (c : Char) : Bool := isBreak c || c == ' ' || c == '\t'

/-- The characters that end commands. -/
def isMark (c : Char) : Bool := c == '*' || c == '%'

/-- A text without the breaks of lines in it. -/
def unbroken (text : List Char) : List Char := text.filter fun c => !isBreak c

/-- The texts of commands: without marks and breaks, with no blank at either end, and no
comments. -/
@[mk_iff]
structure IsCommand (text : List Char) : Prop where
  ne_nil : text ≠ []
  plain : ∀ c ∈ text, isMark c = false ∧ isBreak c = false
  head : ∀ c ∈ text.head?, isBlank c = false
  last : ∀ c ∈ text.getLast?, isBlank c = false
  not_comment : Token.isComment text = false

/-- The texts of comments: without marks. -/
@[mk_iff]
structure IsRemark (text : List Char) : Prop where
  plain : ∀ c ∈ text, isMark c = false
  comment : Token.isComment text = true

/-- Texts are checked character by character. -/
instance (text : List Char) : Decidable (IsCommand text) :=
  decidable_of_iff (text ≠ [] ∧ text.all (fun c => !isMark c && !isBreak c) = true ∧
    text.head?.all (!isBlank ·) = true ∧ text.getLast?.all (!isBlank ·) = true ∧
      Token.isComment text = false) (by simp [isCommand_iff, Option.all_eq_true])

instance (text : List Char) : Decidable (IsRemark text) :=
  decidable_of_iff (text.all (!isMark ·) = true ∧ Token.isComment text = true)
    (by simp [isRemark_iff])

/-- A text as it is written: its first character, and the others with breaks of lines among
them. -/
structure Written where
  first : Char
  rest : List Char

/-- The text that is written. -/
def Written.text (w : Written) : List Char := w.first :: unbroken w.rest

/-- A character between commands, a command, or a comment. -/
inductive Item where
  | gap (c : Char) (h : isGap c = true)
  | command (w : Written) (h : IsCommand w.text)
  | comment (w : Written) (h : IsRemark w.text)

namespace Item

/-- Commands and comments are ended by a star. -/
def chars : Item → List Char
  | gap c _ => [c]
  | command w _ | comment w _ => w.first :: w.rest ++ ['*']

def text? : Item → Option (List Char)
  | command w _ => some w.text
  | _ => none

/-- What is read of an item that begins on a line. -/
def tokens (kind : TokenKind) (line : Nat) (i : Item) : List Token :=
  (i.text?.map fun text => ⟨line, kind, text⟩).toList

end Item

/-- What is read of parts in a row, each on the line behind the parts before it. -/
def tokensAlong {β : Type} (chars : β → List Char) (tokens : Nat → β → List Token) :
    Nat → List β → List Token
  | _, [] => []
  | line, part :: rest =>
    tokens line part ++ tokensAlong chars tokens (line + (chars part).count '\n') rest

/-- Items outside of percent signs, which are words, or between two of them. -/
structure Stretch where
  kind : TokenKind
  items : List Item

namespace Stretch

def chars (s : Stretch) : List Char :=
  match s.kind with
  | .word => s.items.flatMap Item.chars
  | .extended => '%' :: s.items.flatMap Item.chars ++ ['%']

def tokens (line : Nat) (s : Stretch) : List Token :=
  tokensAlong Item.chars (Item.tokens s.kind) line s.items

def commands (s : Stretch) : List (TokenKind × List Char) :=
  (s.items.filterMap Item.text?).map (s.kind, ·)

end Stretch

/-- A way to write commands out. -/
abbrev Layout := List Stretch

namespace Layout

/-- The text that is written. -/
def chars (l : Layout) : List Char := l.flatMap Stretch.chars

/-- The commands with the lines of their first characters. -/
def tokens (l : Layout) : List Token := tokensAlong Stretch.chars Stretch.tokens 1 l

/-- The commands without their lines. -/
def commands (l : Layout) : List (TokenKind × List Char) := l.flatMap Stretch.commands

end Layout

/-! ## Pieces -/

variable {text front : List Char}

theorem IsCommand.trim_eq (h : IsCommand text) : trim text = text := by
  rw [trim, Text.trimLeft_of_head h.head, Text.trimRight_of_last h.last]

/-- Comments stay comments without the blanks behind them. -/
theorem isComment_trim (h : Token.isComment text = true) : Token.isComment (trim text) = true := by
  have hG : isBlank 'G' = false := by decide
  have h4 : isBlank '4' = false := by decide
  unfold Token.isComment at h
  split at h
  next rest =>
    rw [Text.trim_cons hG, Text.trimRight_cons (by decide), Text.trimRight_cons h4]
    rfl
  next _ rest =>
    rw [Text.trim_cons hG, Text.trimRight_cons h4, Token.isComment]
    obtain ⟨more, hmore⟩ := Text.trimRight_prefix rest
    cases hright : trimRight rest with
    | nil => rfl
    | cons c others =>
        rw [← hmore, hright] at h
        exact h
  next => cases h

theorem first_of_isComment {c : Char} {rest : List Char}
    (h : Token.isComment (c :: rest) = true) : c = 'G' := by
  unfold Token.isComment at h
  split at h
  next heq => exact (List.cons.inj heq).1
  next heq => exact (List.cons.inj heq).1
  next => cases h

namespace Token

variable {p : Place} {line start : Nat} {kind : TokenKind} {c : Char} {piece : List Char}

theorem ofPiece_command (h : IsCommand text) (hfront : IsBlank front) :
    ofPiece line kind (front ++ text).reverse = [⟨line, kind, text⟩] := by
  have htrim : trim (front ++ text) = text := by rw [Text.trim_append_of_isBlank hfront, h.trim_eq]
  simp [ofPiece, htrim, h.ne_nil, h.not_comment]

theorem ofPiece_remark (h : IsRemark text) (hfront : IsBlank front) :
    ofPiece line kind (front ++ text).reverse = [] := by
  have hcomment : isComment (trim (front ++ text)) = true := by
    rw [Text.trim_append_of_isBlank hfront]
    exact isComment_trim h.comment
  simp [ofPiece, hcomment]

theorem ofPiece_blank (h : IsBlank front) : ofPiece line kind front.reverse = [] := by
  simp [ofPiece, Text.trim_eq_nil_iff.mpr h]

/-! ## Scans of items -/

theorem Place.emits_of_not_mark (h : isMark c = false) (p : Place) : p.emits c = [] := by
  simp only [isMark, Bool.or_eq_false_iff, beq_eq_false_iff_ne] at h
  cases p with
  | between => rfl
  | inside kind start piece => simp [emits, h]

/-- Inside of a command that has begun, breaks of lines do not count. -/
theorem Place.next_inside (h : isMark c = false) (hpiece : ¬ IsBlank piece.reverse) :
    (inside kind start piece).next line c =
      inside kind start (if isBreak c then piece else c :: piece) := by
  simp only [isMark, Bool.or_eq_false_iff, beq_eq_false_iff_ne] at h
  have hbegun : trim piece.reverse ≠ [] := by rwa [ne_eq, Text.trim_eq_nil_iff]
  cases kind <;> by_cases hfeed : c = '\n' <;> by_cases hreturn : c = '\r' <;>
    simp [next, isBreak, h, hbegun, hfeed, hreturn]

/-- The rest of a command that has begun is read without the breaks of lines in it. -/
theorem scans_inside (htext : ∀ c ∈ text, isMark c = false) (hpiece : ¬ IsBlank piece.reverse) :
    Scans (.inside kind start piece) line text []
      (.inside kind start ((unbroken text).reverse ++ piece)) := by
  induction text generalizing piece line with
  | nil => exact .nil
  | cons c text ih =>
      obtain ⟨hc, htext⟩ := List.forall_mem_cons.mp htext
      have hmore : ¬ IsBlank (c :: piece).reverse := by
        intro hblank
        apply hpiece
        intro d hd
        exact hblank d (by simp_all)
      have hstep := Scans.char (.inside kind start piece) line c
      rw [Place.emits_of_not_mark hc, Place.next_inside hc hpiece] at hstep
      cases hbreak : isBreak c with
      | true =>
          have hrest := hstep.append (by rw [hbreak]; exact ih htext hpiece)
          simpa [unbroken, hbreak] using hrest
      | false =>
          have hrest := hstep.append (by rw [hbreak]; exact ih htext hmore)
          simpa [unbroken, hbreak] using hrest

/-- A scan is ready for an item of a kind on a line: nothing of it has begun. -/
def Place.Ready (line : Nat) (p : Place) : TokenKind → Prop
  | .word => p = between
  | .extended => ∃ gap, IsBlank gap ∧ p = inside .extended line gap.reverse

namespace Place.Ready

/-- Gaps leave a scan ready. -/
theorem gap (hp : p.Ready line kind) (hc : isGap c = true) :
    ∃ q, Scans p line [c] [] q ∧ q.Ready (line + [c].count '\n') kind := by
  have hchar := Scans.char p line c
  have hcases : c = '\n' ∨ c = '\r' ∨ c = ' ' ∨ c = '\t' := by
    simpa [isGap, isBreak, or_assoc] using hc
  have hmark : isMark c = false := by rcases hcases with rfl | rfl | rfl | rfl <;> decide
  rw [Place.emits_of_not_mark hmark] at hchar
  refine ⟨_, hchar, ?_⟩
  cases kind with
  | word =>
      obtain rfl := hp
      rcases hcases with rfl | rfl | rfl | rfl <;> rfl
  | extended =>
      obtain ⟨front, hfront, rfl⟩ := hp
      have htrim : trim front = [] := Text.trim_eq_nil_iff.mpr hfront
      rcases hcases with rfl | rfl | rfl | rfl
      · exact ⟨front, hfront, by simp [next, htrim]⟩
      · exact ⟨front, hfront, by simp [next]⟩
      · refine ⟨front ++ [' '], ?_, by simp [next]⟩
        exact List.forall_mem_append.mpr ⟨hfront, List.forall_mem_singleton.mpr rfl⟩
      · refine ⟨front ++ ['\t'], ?_, by simp [next]⟩
        exact List.forall_mem_append.mpr ⟨hfront, List.forall_mem_singleton.mpr rfl⟩

/-- The first character of a text begins it. -/
theorem begins (hp : p.Ready line kind) (hmark : isMark c = false) (hblank : isBlank c = false) :
    ∃ front, IsBlank front ∧
      Scans p line [c] [] (.inside kind line (front ++ [c]).reverse) := by
  have hchar := Scans.char p line c
  rw [Place.emits_of_not_mark hmark] at hchar
  have hne : ∀ d, isBlank d = true ∨ isMark d = true → c ≠ d := by
    rintro d hd rfl
    simp_all
  cases kind with
  | word =>
      obtain rfl := hp
      refine ⟨[], nofun, ?_⟩
      have hnext : between.next line c = .inside .word line [c] := by
        simp [next, hne '\n' (by decide), hne '\r' (by decide), hne ' ' (by decide),
          hne '\t' (by decide), hne '*' (by decide), hne '%' (by decide)]
      rwa [hnext] at hchar
  | extended =>
      obtain ⟨front, hfront, rfl⟩ := hp
      refine ⟨front, hfront, ?_⟩
      have hnext : (inside .extended line front.reverse).next line c =
          .inside .extended line (front ++ [c]).reverse := by
        simp [next, hne '\n' (by decide), hne '\r' (by decide), hne '*' (by decide),
          hne '%' (by decide)]
      rwa [hnext] at hchar

/-- A star makes a scan ready again. -/
theorem star (kind : TokenKind) (start line : Nat) (piece : List Char) :
    ∃ q, Scans (.inside kind start piece) line ['*'] (ofPiece start kind piece) q ∧
      q.Ready line kind := by
  have hchar := Scans.char (.inside kind start piece) line '*'
  refine ⟨_, hchar, ?_⟩
  cases kind with
  | word => rfl
  | extended => exact ⟨[], nofun, rfl⟩

/-- A written text with its star is read as it is meant, on the line on which it begins. -/
theorem written (hp : p.Ready line kind) {w : Written} (hmark : ∀ c ∈ w.text, isMark c = false)
    (hblank : isBlank w.first = false) :
    ∃ front q, IsBlank front ∧
      Scans p line (w.first :: w.rest ++ ['*']) (ofPiece line kind (front ++ w.text).reverse) q ∧
      q.Ready (line + (w.first :: w.rest ++ ['*']).count '\n') kind := by
  have hrest : ∀ c ∈ w.rest, isMark c = false := by
    intro c hc
    cases hbreak : isBreak c with
    | true =>
        simp only [isBreak, Bool.or_eq_true, beq_iff_eq] at hbreak
        rcases hbreak with rfl | rfl <;> decide
    | false => exact hmark c (List.mem_cons_of_mem _ (List.mem_filter.mpr ⟨hc, by simp [hbreak]⟩))
  obtain ⟨front, hfront, hfirst⟩ := hp.begins (hmark w.first List.mem_cons_self) hblank
  have hbegun : ¬ IsBlank (front ++ [w.first]).reverse.reverse := by
    intro h
    have hfirst := h w.first (by simp)
    rw [hblank] at hfirst
    cases hfirst
  have hbody := hfirst.append (scans_inside hrest hbegun)
  have hpiece : (unbroken w.rest).reverse ++ (front ++ [w.first]).reverse =
      (front ++ w.text).reverse := by
    simp [Written.text]
  obtain ⟨q, hstar, hq⟩ := star kind line (line + ([w.first] ++ w.rest).count '\n')
    (front ++ w.text).reverse
  rw [hpiece] at hbody
  refine ⟨front, q, hfront, hbody.append hstar, ?_⟩
  have hcount : (w.first :: w.rest ++ ['*']).count '\n' = ([w.first] ++ w.rest).count '\n' := by
    rw [List.count_append]
    rfl
  rwa [hcount]

/-- Items are read as what they are. -/
theorem item (hp : p.Ready line kind) (i : Item) :
    ∃ q, Scans p line i.chars (i.tokens kind line) q ∧
      q.Ready (line + i.chars.count '\n') kind := by
  cases i with
  | gap c h => exact hp.gap h
  | command w h =>
      obtain ⟨front, q, hfront, hscans, hq⟩ := hp.written (fun c hc => (h.plain c hc).1)
        (h.head w.first rfl)
      rw [ofPiece_command h hfront] at hscans
      exact ⟨q, hscans, hq⟩
  | comment w h =>
      have hfirst : isBlank w.first = false := by
        rw [first_of_isComment h.comment]
        decide
      obtain ⟨front, q, hfront, hscans, hq⟩ := hp.written h.plain hfirst
      rw [ofPiece_remark h hfront] at hscans
      exact ⟨q, hscans, hq⟩

end Place.Ready

/-- Parts in a row are read one after the other if each of them leaves the scan ready for the
next one. -/
theorem scans_along {β : Type} (ready : Nat → Place → Prop) {chars : β → List Char}
    {tokens : Nat → β → List Token}
    (hpart : ∀ part line p, ready line p →
      ∃ q, Scans p line (chars part) (tokens line part) q ∧
        ready (line + (chars part).count '\n') q)
    (parts : List β) (hp : ready line p) :
    ∃ q, Scans p line (parts.flatMap chars) (tokensAlong chars tokens line parts) q ∧
      ready (line + (parts.flatMap chars).count '\n') q := by
  induction parts generalizing line p with
  | nil => exact ⟨p, .nil, hp⟩
  | cons part rest ih =>
      obtain ⟨middle, hfirst, hmiddle⟩ := hpart part line p hp
      obtain ⟨q, hrest, hq⟩ := ih hmiddle
      refine ⟨q, hfirst.append hrest, ?_⟩
      rwa [List.flatMap_cons, List.count_append, ← Nat.add_assoc]

/-- Nothing comes of what stands behind the last star of a percent block. -/
theorem scans_closing {gap : List Char} (h : IsBlank gap) :
    Scans (.inside .extended start gap.reverse) line ['%'] [] .between := by
  have hempty : (Place.inside .extended start gap.reverse).emits '%' = [] := ofPiece_blank h
  have hchar := Scans.char (.inside .extended start gap.reverse) line '%'
  rwa [hempty] at hchar

/-- A stretch leads from between commands to between commands. -/
theorem scans_stretch (s : Stretch) (line : Nat) :
    Scans .between line s.chars (s.tokens line) .between := by
  obtain ⟨kind, items⟩ := s
  cases kind with
  | word =>
      obtain ⟨q, hitems, rfl⟩ := scans_along (fun line p => p.Ready line .word)
        (fun i _ _ hp => hp.item i) items rfl
      exact hitems
  | extended =>
      have hopen : (Place.inside .extended line []).Ready line .extended := ⟨[], nofun, rfl⟩
      obtain ⟨q, hitems, gap, hgap, rfl⟩ :=
        scans_along (fun line p => p.Ready line .extended)
          (fun i _ _ hp => hp.item i) items hopen
      have hblock := (Scans.char .between line '%').append (hitems.append (scans_closing hgap))
      rw [List.append_nil] at hblock
      exact hblock

/-- A layout is read as its commands, whatever follows. -/
theorem scans_layout (l : Layout) : Scans .between 1 l.chars l.tokens .between := by
  have hstretch : ∀ (s : Stretch) (line : Nat) (p : Place), p = .between →
      ∃ q, Scans p line s.chars (s.tokens line) q ∧ q = .between := by
    rintro s line p rfl
    exact ⟨.between, scans_stretch s line, rfl⟩
  obtain ⟨q, hscans, rfl⟩ := scans_along (fun _ p => p = .between) hstretch l rfl
  exact hscans

/-! ## Reading layouts -/

theorem ofText_append {l : Layout} (rest : List Char) :
    ofText (l.chars ++ rest) = l.tokens ++ (ofText rest).map (below (l.chars.count '\n')) := by
  rw [ofText, scans_layout l, ofText, ← scan_below]
  rfl

theorem map_tokensAlong {β γ : Type} {chars : β → List Char} {tokens : Nat → β → List Token}
    {told : Token → γ} {tell : β → List γ}
    (hpart : ∀ line part, (tokens line part).map told = tell part) (line : Nat) (parts : List β) :
    (tokensAlong chars tokens line parts).map told = parts.flatMap tell := by
  induction parts generalizing line with
  | nil => rfl
  | cons part rest ih => rw [tokensAlong, List.map_append, hpart, ih, List.flatMap_cons]

/-- The form and the text of a token. -/
def command (t : Token) : TokenKind × List Char := (t.kind, t.text)

theorem map_command_tokens (l : Layout) : l.tokens.map command = l.commands := by
  have hitem (kind : TokenKind) (line : Nat) (i : Item) :
      (i.tokens kind line).map command = (i.text?.map (kind, ·)).toList := by
    cases i <;> rfl
  have hstretch (line : Nat) (s : Stretch) : (s.tokens line).map command = s.commands := by
    rw [Stretch.tokens, map_tokensAlong (hitem s.kind), Stretch.commands, List.map_filterMap,
      List.filterMap_eq_flatMap_toList]
  exact map_tokensAlong hstretch 1 l

/-- Every list of commands can be laid out. -/
theorem exists_layout {commands : List (TokenKind × List Char)}
    (h : ∀ c ∈ commands, IsCommand c.2) : ∃ l : Layout, l.commands = commands := by
  induction commands with
  | nil => exact ⟨[], rfl⟩
  | cons first rest ih =>
      obtain ⟨hfirst, hrest⟩ := List.forall_mem_cons.mp h
      obtain ⟨l, rfl⟩ := ih hrest
      obtain ⟨kind, text⟩ := first
      cases text with
      | nil => exact absurd rfl hfirst.ne_nil
      | cons c text =>
          have htext : unbroken text = text := by
            refine List.filter_eq_self.mpr fun d hd => ?_
            simp [(hfirst.plain d (List.mem_cons_of_mem _ hd)).2]
          have hcommand : IsCommand (Written.text ⟨c, text⟩) := by
            rw [Written.text, htext]
            exact hfirst
          refine ⟨⟨kind, [.command ⟨c, text⟩ hcommand]⟩ :: l, ?_⟩
          simp [Layout.commands, Stretch.commands, Item.text?, Written.text, htext]

/-- Commands can be laid out, and every layout of them is read as these commands, each on the line
of its first character. Two layouts in a row are read one after the other, the second further
down. -/
theorem layouts_read_back :
    (∀ commands : List (TokenKind × List Char), (∀ c ∈ commands, IsCommand c.2) →
      ∃ l : Layout, l.commands = commands) ∧
    (∀ l : Layout, ofText l.chars = l.tokens ∧ (ofText l.chars).map command = l.commands) ∧
    ∀ first second : Layout, ofText (first.chars ++ second.chars) =
      ofText first.chars ++ (ofText second.chars).map (below (first.chars.count '\n')) := by
  have hread (l : Layout) : ofText l.chars = l.tokens := by
    have h := ofText_append (l := l) []
    rw [List.append_nil] at h
    rw [h]
    exact List.append_nil _
  refine ⟨fun commands h => exists_layout h, fun l => ⟨hread l, ?_⟩, fun first second => ?_⟩
  · rw [hread, map_command_tokens]
  · rw [ofText_append, hread first]

/-- Three commands: two of them in one percent block, the second broken into lines, and a word
behind a comment that is broken into lines, too. -/
theorem layouts_read_back_broken :
    let commands : List (TokenKind × List Char) :=
      [(.extended, "FSLAX24Y24".toList), (.extended, "MOMM".toList), (.word, "D10".toList)]
    (∀ c ∈ commands, IsCommand c.2) ∧ (∃ l : Layout, l.commands = commands) ∧
      ofText "%FSLAX24Y24*\n MO\r\nMM*G04 both axes*%\r\nG04 a\nb*D1\r\n0*".toList =
        [⟨1, .extended, "FSLAX24Y24".toList⟩, ⟨2, .extended, "MOMM".toList⟩,
          ⟨5, .word, "D10".toList⟩] := by
  intro commands
  have hcommands : ∀ c ∈ commands, IsCommand c.2 := by decide
  refine ⟨hcommands, layouts_read_back.1 commands hcommands, ?_⟩
  let block : Stretch := ⟨.extended,
    [.command ⟨'F', "SLAX24Y24".toList⟩ (by decide), .gap '\n' rfl, .gap ' ' rfl,
      .command ⟨'M', "O\r\nMM".toList⟩ (by decide),
      .comment ⟨'G', "04 both axes".toList⟩ (by decide)]⟩
  let words : Stretch := ⟨.word,
    [.gap '\r' rfl, .gap '\n' rfl, .comment ⟨'G', "04 a\nb".toList⟩ (by decide),
      .command ⟨'D', "1\r\n0".toList⟩ (by decide)]⟩
  exact (layouts_read_back.2.1 [block, words]).1

end Token

end BoardMill.Gerber
