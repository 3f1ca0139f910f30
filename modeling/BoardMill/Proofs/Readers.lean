import BoardMill.Proofs.Board.Bytes
import BoardMill.Proofs.EndMarker

/-! # Reading bytes and reading texts

The bytes of a text are read as the text, in one piece or line by line. Bytes that are no text are
told apart: a document is refused for them wherever they stand, and a drill file only if it is
still being read when its lines come to them.
-/

namespace BoardMill

open Text (marked terminated)

namespace Utf8

/-- The line feeds of a text are those of its bytes. -/
theorem count_encode (text : List Char) : (encode text).count 0x0A = text.count '\n' := by
  induction text with
  | nil => rfl
  | cons c text ih =>
      rw [encode_cons, List.count_append, ih]
      by_cases hc : c = '\n'
      · subst hc
        rw [List.count_cons_self, Nat.add_comm]
        rfl
      · have hnone : 0x0A ∉ encodeChar c := by
          intro hmem
          have hline : '\n' ∈ [c] := newline_mem_of_encode (by simpa [encode] using hmem)
          exact hc (List.mem_singleton.mp hline).symm
        rw [List.count_eq_zero.mpr hnone, List.count_cons_of_ne hc, Nat.zero_add]

/-- Bytes that are there, but begin with no character. -/
structure Stray (bytes : List UInt8) : Prop where
  ne_nil : bytes ≠ []
  no_char : ∀ c more, bytes ≠ encodeChar c ++ more

theorem stray_iff {bytes : List UInt8} : Stray bytes ↔ bytes ≠ [] ∧ first? bytes = none := by
  constructor
  · rintro ⟨hne, hstray⟩
    refine ⟨hne, ?_⟩
    cases hfirst : first? bytes with
    | none => rfl
    | some found => exact absurd (eq_of_first? hfirst) (hstray found.1 found.2)
  · rintro ⟨hne, hfirst⟩
    refine ⟨hne, ?_⟩
    rintro c more rfl
    rw [(reads_encodeChar c).first?_append] at hfirst
    cases hfirst

/-- Bytes that are no text are those of a text up to stray ones. -/
theorem exists_stray {bytes : List UInt8} (h : ∀ text, bytes ≠ encode text) :
    ∃ text rest, bytes = encode text ++ rest ∧ Stray rest := by
  obtain ⟨text, rest, rfl, hrest, -⟩ := exists_decode bytes
  refine ⟨text, rest, rfl, stray_iff.mpr ⟨?_, hrest⟩⟩
  rintro rfl
  exact h text (List.append_nil _)

/-- The texts of the lines above the first one that is not text. They have line feeds behind
them. -/
def LinesAbove (texts : List (List Char)) (bytes : List UInt8) : Prop :=
  ∃ line below, terminated 0x0A bytes =
      texts.map (fun text => (encode text, true)) ++ line :: below ∧
    ∀ text, line.1 ≠ encode text

theorem marked_lines (texts : List (List Char)) :
    marked 0x0A ((texts.map fun text => (encode text, true)).map Prod.fst) =
      encode (marked '\n' texts) := by
  rw [encode_marked, List.map_map]
  rfl

theorem exists_linesAbove {bytes : List UInt8} (h : ∀ text, bytes ≠ encode text) :
    ∃ texts, LinesAbove texts bytes := by
  rcases exists_text_or_line bytes with ⟨text, htext⟩ | ⟨above, line, below, hsplit, habove, hline⟩
  · exact absurd htext (h text)
  · have hmem : above ∈ Set.range (List.map fun text => (encode text, true)) := by
      rw [Set.range_list_map]
      rintro ⟨bytes, ended⟩ hmem
      obtain ⟨text, rfl⟩ := habove _ hmem
      -- Only the last line can be without its line feed, and another one follows.
      rw [← Text.terminated_marked_split hsplit, Text.terminated_marked_splitOn] at hmem
      obtain ⟨piece, -, hpiece⟩ := List.mem_map.mp hmem
      cases hpiece
      exact ⟨text, rfl⟩
    obtain ⟨texts, rfl⟩ := hmem
    exact ⟨texts, line, below, hsplit, hline⟩

end Utf8

namespace Gerber.Document

variable {α : Type} [Numeral α]

theorem ofBytes?_encode (text : List Char) :
    (ofBytes? (Utf8.encode text) : Except Fault (Document α)) = ofText? text := by
  rw [ofBytes?, Utf8.decode_encode]

/-- A document is refused for stray bytes on the line on which they stand. -/
theorem ofBytes?_of_stray (text : List Char) {rest : List UInt8} (h : Utf8.Stray rest) :
    (ofBytes? (Utf8.encode text ++ rest) : Except Fault (Document α)) =
      .error (.malformed (1 + (Utf8.encode text).count 0x0A) "invalid UTF-8 in Gerber file") := by
  obtain ⟨hne, hrest⟩ := Utf8.stray_iff.mp h
  have hdecode : Utf8.decode (Utf8.encode text ++ rest) = (text, rest) :=
    Utf8.decodeOnto_encode [] text hrest
  rw [ofBytes?, hdecode, Utf8.count_encode]
  cases rest with
  | nil => exact absurd rfl hne
  | cons b rest => rfl

end Gerber.Document

namespace Drill.Program

variable {α : Type} [Scalar α]

/-- Whatever follows lines that are refused, they are. -/
theorem readFrom_append_of_error {number : Nat} {r : Reading α}
    {above : List (Option (List Char))} {fault : Fault}
    (h : readFrom number r above = .error fault) (below : List (Option (List Char))) :
    readFrom number r (above ++ below) = .error fault := by
  induction above generalizing number r with
  | nil => cases h
  | cons line above ih =>
      cases line with
      | none => rwa [List.cons_append, readFrom] at *
      | some text =>
          rw [readFrom] at h
          rw [List.cons_append, readFrom]
          split at h
          · cases h
          next hended =>
            rw [if_neg hended]
            dsimp only at h ⊢
            cases hnext : r.line (directive text) with
            | error defect =>
                rw [hnext] at h
                exact h
            | ok next =>
                rw [hnext] at h
                exact ih h

/-- Whatever follows lines with an end marker, they are read as they are. -/
theorem readFrom_append_of_marksEnd {above : List (Option (List Char))} (h : marksEnd above = true)
    (number : Nat) (r : Reading α) (below : List (Option (List Char))) :
    readFrom number r (above ++ below) = readFrom number r above := by
  obtain ⟨line, hmem, hline⟩ := List.any_eq_true.mp h
  cases line with
  | none => cases hline
  | some text =>
      obtain ⟨before, after, rfl⟩ := List.append_of_mem hmem
      rw [List.append_assoc, List.cons_append, readFrom_of_ends hline, readFrom_of_ends hline]

variable (α) in
/-- The lines of a text settle what comes of a file: one of them is refused, or is the end
marker. -/
def Settles (text : List Char) : Prop :=
  (∃ fault, (ofText? text : Except Fault (Program α)) = .error fault) ∨
    ∃ line ∈ Text.lines text, ends (directive line) = true

/-- Lines that settle what comes of a file are all of it that counts. -/
theorem readFrom_append_of_settles {text : List Char} (h : Settles α text)
    (below : List (Option (List Char))) :
    readFrom 1 .start ((Text.lines text).map some ++ below) =
      (ofText? text : Except Fault (Program α)) := by
  rcases h with ⟨fault, hfault⟩ | ⟨line, hline, hends⟩
  · rw [hfault]
    exact readFrom_append_of_error hfault below
  · refine readFrom_append_of_marksEnd ?_ 1 .start below
    exact List.any_eq_true.mpr ⟨some line, List.mem_map_of_mem hline, hends⟩

theorem not_marksEnd_of_not_settles {text : List Char} (h : ¬ Settles α text) :
    marksEnd ((Text.lines text).map some) = false := by
  rw [marksEnd, List.any_eq_false]
  intro line hline hends
  obtain ⟨found, hfound, rfl⟩ := List.mem_map.mp hline
  exact h (.inr ⟨found, hfound, hends⟩)

theorem ofBytes?_encode (text : List Char) :
    (ofBytes? (Utf8.encode text) : Except Fault (Program α)) = ofText? text := by
  rw [ofBytes?, byteLines_encode, ofText?]

/-- Lines of a file that are text, as lines of that text. -/
theorem map_lineText?_encode {bytes : List UInt8} {texts : List (List Char)}
    {line : List UInt8 × Bool} {below : List (List UInt8 × Bool)}
    (h : terminated 0x0A bytes = texts.map (Utf8.encode ·, true) ++ line :: below) :
    (texts.map (Utf8.encode ·, true)).map lineText? =
      (Text.lines (marked '\n' texts)).map some := by
  rw [← byteLines_encode, ← Utf8.marked_lines, byteLines_eq, Text.terminated_marked_split h]

variable {bytes : List UInt8} {texts : List (List Char)}

/-- Lines above the first one that is not text settle what comes of a file if they settle what
comes of their text. -/
theorem ofBytes?_of_settles (h : Utf8.LinesAbove texts bytes) {first : List (List Char)}
    (hfirst : first <+: texts) (hsettles : Settles α (marked '\n' first)) :
    (ofBytes? bytes : Except Fault (Program α)) = ofText? (marked '\n' first) := by
  obtain ⟨line, below, h, -⟩ := h
  obtain ⟨later, rfl⟩ := hfirst
  have hsplit : ∃ next others, terminated 0x0A bytes =
      first.map (Utf8.encode ·, true) ++ next :: others := by
    rw [h, List.map_append, List.append_assoc]
    cases later with
    | nil => exact ⟨line, below, rfl⟩
    | cons next later => exact ⟨(Utf8.encode next, true), _, rfl⟩
  obtain ⟨next, others, hsplit⟩ := hsplit
  rw [ofBytes?, byteLines_eq, hsplit, List.map_append, map_lineText?_encode hsplit]
  exact readFrom_append_of_settles hsettles _

/-- Otherwise the file is refused on the line that is not text. -/
theorem ofBytes?_of_not_settles (h : Utf8.LinesAbove texts bytes)
    (hsettles : ¬ Settles α (marked '\n' texts)) :
    (ofBytes? bytes : Except Fault (Program α)) =
      .error (.malformed (texts.length + 1)
        "invalid text: stream did not contain valid UTF-8") := by
  obtain ⟨line, below, hsplit, hline⟩ := h
  have habove : ∀ earlier ∈ texts.map (Utf8.encode ·, true), ∃ text, earlier.1 = Utf8.encode text :=
    List.forall_mem_map.mpr fun text _ => ⟨text, rfl⟩
  rw [ofBytes?_of_not_text hsplit habove hline, Utf8.marked_lines, ofBytes?_encode,
    byteLines_encode, not_marksEnd_of_not_settles hsettles, List.length_map]
  cases hresult : (ofText? (marked '\n' texts) : Except Fault (Program α)) with
  | error fault => exact absurd (.inl ⟨fault, hresult⟩) hsettles
  | ok p => rfl

end Drill.Program

/-- The bytes of a text are read as the text is. Other bytes are those of a text up to stray ones,
and have lines above the first one that is not text. A document is refused for them on the line of
the first stray one. A drill file is refused on the line that is not text, unless lines above it
settle what comes of it. -/
theorem readers_agree {α : Type} [Numeral α] :
    (∀ text : List Char,
      (Gerber.Document.ofBytes? (Utf8.encode text) : Except Fault (Gerber.Document α)) =
        Gerber.Document.ofText? text ∧
      (Drill.Program.ofBytes? (Utf8.encode text) : Except Fault (Drill.Program α)) =
        Drill.Program.ofText? text) ∧
    (∀ bytes : List UInt8, (∀ text, bytes ≠ Utf8.encode text) →
      (∃ text rest, bytes = Utf8.encode text ++ rest ∧ Utf8.Stray rest) ∧
        ∃ texts, Utf8.LinesAbove texts bytes) ∧
    (∀ (text : List Char) (rest : List UInt8), Utf8.Stray rest →
      (Gerber.Document.ofBytes? (Utf8.encode text ++ rest) : Except Fault (Gerber.Document α)) =
        .error (.malformed (1 + (Utf8.encode text).count 0x0A) "invalid UTF-8 in Gerber file")) ∧
    ∀ (texts : List (List Char)) (bytes : List UInt8), Utf8.LinesAbove texts bytes →
      (∀ first, first <+: texts → Drill.Program.Settles α (marked '\n' first) →
        (Drill.Program.ofBytes? bytes : Except Fault (Drill.Program α)) =
          Drill.Program.ofText? (marked '\n' first)) ∧
      (¬ Drill.Program.Settles α (marked '\n' texts) →
        (Drill.Program.ofBytes? bytes : Except Fault (Drill.Program α)) =
          .error (.malformed (texts.length + 1)
            "invalid text: stream did not contain valid UTF-8")) := by
  refine ⟨fun text => ⟨?_, ?_⟩, fun bytes hbytes => ⟨?_, ?_⟩, fun text rest hrest => ?_,
    fun texts bytes habove => ⟨fun first hfirst hsettles => ?_, fun hsettles => ?_⟩⟩
  · exact Gerber.Document.ofBytes?_encode text
  · exact Drill.Program.ofBytes?_encode text
  · exact Utf8.exists_stray hbytes
  · exact Utf8.exists_linesAbove hbytes
  · exact Gerber.Document.ofBytes?_of_stray text hrest
  · exact Drill.Program.ofBytes?_of_settles habove hfirst hsettles
  · exact Drill.Program.ofBytes?_of_not_settles habove hsettles

/-- A stray byte behind the end marker: a document is refused for it, and a drill file is not. Above
the end marker the drill file is refused, too. -/
theorem readers_agree_stray :
    let stray : List UInt8 := [0xFF]
    let above := ["M48".toList]
    let file := ["M48".toList, "M30".toList]
    (∀ text, stray ≠ Utf8.encode text) ∧ (∃ texts, Utf8.LinesAbove texts stray) ∧
      (Utf8.Stray stray ∧
        (Gerber.Document.ofBytes? (Utf8.encode "M02*\n".toList ++ stray) :
            Except Fault (Gerber.Document Float)) =
          .error (.malformed 2 "invalid UTF-8 in Gerber file")) ∧
      (Utf8.LinesAbove file (Utf8.encode (marked '\n' file) ++ stray) ∧
        Drill.Program.Settles Float (marked '\n' file) ∧
        (Drill.Program.ofBytes? (Utf8.encode (marked '\n' file) ++ stray) :
            Except Fault (Drill.Program Float)) = Drill.Program.ofText? (marked '\n' file)) ∧
      Utf8.LinesAbove above (Utf8.encode (marked '\n' above) ++ stray) ∧
        ¬ Drill.Program.Settles Float (marked '\n' above) ∧
        (Drill.Program.ofBytes? (Utf8.encode (marked '\n' above) ++ stray) :
            Except Fault (Drill.Program Float)) =
          .error (.malformed 2 "invalid text: stream did not contain valid UTF-8") := by
  intro stray above file
  obtain ⟨-, hother, hdocument, hdrill⟩ := readers_agree (α := Float)
  have hbytes : ∀ text, stray ≠ Utf8.encode text := Utf8.decode?_eq_none_iff.mp (by decide +kernel)
  have hstray : Utf8.Stray stray := Utf8.stray_iff.mpr ⟨List.cons_ne_nil _ _, by decide⟩
  have hfile : Utf8.LinesAbove file (Utf8.encode (marked '\n' file) ++ stray) :=
    ⟨(stray, false), [], by decide +kernel, hbytes⟩
  have habove : Utf8.LinesAbove above (Utf8.encode (marked '\n' above) ++ stray) :=
    ⟨(stray, false), [], by decide +kernel, hbytes⟩
  have hsettles : Drill.Program.Settles Float (marked '\n' file) :=
    .inr ⟨"M30".toList, by decide +kernel, by decide +kernel⟩
  have hopen : ¬ Drill.Program.Settles Float (marked '\n' above) := by
    have hread : (Drill.Program.ofText? (marked '\n' above) :
        Except Fault (Drill.Program Float)).isOk = true := by decide +kernel
    have hlines : ∀ line ∈ Text.lines (marked '\n' above),
        Drill.ends (Drill.directive line) = false := by decide +kernel
    rintro (⟨fault, hfault⟩ | ⟨line, hline, hends⟩)
    · rw [hfault] at hread
      cases hread
    · rw [hlines line hline] at hends
      cases hends
  refine ⟨hbytes, (hother stray hbytes).2, ⟨hstray, ?_⟩, ⟨hfile, hsettles, ?_⟩, habove, hopen, ?_⟩
  · exact hdocument "M02*\n".toList stray hstray
  · exact (hdrill file _ hfile).1 file List.prefix_rfl hsettles
  · exact (hdrill above _ habove).2 hopen

end BoardMill
