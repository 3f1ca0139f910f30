import BoardMill.Proofs.Board.Order
import BoardMill.Proofs.Drill.Directives
import BoardMill.Proofs.Drill.Passes
import BoardMill.Proofs.Files.Seeing
import BoardMill.Proofs.Gerber.LineNumbers
import BoardMill.Proofs.Text.Lines
import BoardMill.Proofs.Text.Utf8
import Mathlib.Data.Set.List

/-! # Bytes that are not text

The readers of single files take bytes. That of documents says on which line they are not text, and
so does that of drill files, unless the file is refused above, or ends there. A board is loaded from
texts: a file of it that is not text cannot even be accessed.
-/

namespace BoardMill

open Outcome
open Noting (Appends FailsOnly)
open NotingT (Sees)

variable {α : Type}

namespace Fault

/-- The text of a file is refused. -/
def IsMalformed (fault : Fault) : Prop := ∃ line reason, fault = .malformed line reason

/-- What a file holds is refused, not the access to it. -/
def IsOfContent (fault : Fault) : Prop := ∀ reason, fault ≠ .fileAccess reason

variable {fault : Fault}

theorem IsMalformed.exitCode_eq (h : fault.IsMalformed) : fault.exitCode = 3 := by
  obtain ⟨line, reason, rfl⟩ := h
  rfl

theorem IsMalformed.isOfContent (h : fault.IsMalformed) : fault.IsOfContent := by
  obtain ⟨line, reason, rfl⟩ := h
  exact nofun

theorem isOfContent_of_blockLine? {line : Nat} (h : fault.blockLine? = some line) :
    fault.IsOfContent := by
  rintro reason rfl
  cases h

end Fault

/-! ## Lines of bytes -/

namespace Utf8

open Text (marked terminated unfinished)

theorem encode_marked (pieces : List (List Char)) :
    encode (marked '\n' pieces) = marked 0x0A (pieces.map encode) := by
  rw [marked, encode, List.flatMap_assoc, marked, List.flatMap_map]
  refine List.flatMap_congr fun piece _ => ?_
  rw [List.flatMap_append]
  rfl

/-- The lines of a text are those of its bytes. -/
theorem terminated_encode (text : List Char) :
    terminated 0x0A (encode text) =
      (terminated '\n' text).map fun line => (encode line.1, line.2) := by
  obtain ⟨pieces, rest, hsplit, hlines⟩ := Text.exists_terminated '\n' text
  have hfree : ∀ piece ∈ pieces ++ [rest], 0x0A ∉ encode piece := fun piece hpiece hbyte =>
    Text.not_mem_of_mem_splitOn (hsplit ▸ hpiece) (newline_mem_of_encode hbyte)
  obtain ⟨hpieces, hrest⟩ := List.forall_mem_append.mp hfree
  rw [List.forall_mem_singleton] at hrest
  have hbytes : encode text = marked 0x0A (pieces.map encode) ++ encode rest := by
    rw [Text.eq_marked_append hsplit, encode_append, encode_marked]
  have hunfinished : unfinished (encode rest) =
      (unfinished rest).map fun line => (encode line.1, line.2) := by
    cases rest with
    | nil => rfl
    | cons c rest => simp [unfinished]
  rw [hbytes, Text.terminated_marked_append (List.forall_mem_map.mpr hpieces) hrest, hlines,
    List.map_append, List.map_map, List.map_map, hunfinished]
  rfl

/-- Lines that are text make a text. -/
theorem exists_text_of_lines {bytes : List UInt8}
    (h : ∀ line ∈ terminated 0x0A bytes, ∃ text, line.1 = encode text) :
    ∃ text, bytes = encode text := by
  obtain ⟨pieces, rest, hsplit, hlines⟩ := Text.exists_terminated 0x0A bytes
  rw [hlines, List.forall_mem_append, List.forall_mem_map] at h
  obtain ⟨hpieces, hunfinished⟩ := h
  have hmem : pieces ∈ Set.range (List.map encode) := by
    rw [Set.range_list_map]
    exact fun piece hpiece => (hpieces piece hpiece).imp fun _ htext => htext.symm
  have hrest : ∃ text, rest = encode text := by
    cases rest with
    | nil => exact ⟨[], rfl⟩
    | cons b rest => exact hunfinished (b :: rest, false) (by simp [unfinished])
  obtain ⟨texts, rfl⟩ := hmem
  obtain ⟨last, rfl⟩ := hrest
  refine ⟨marked '\n' texts ++ last, ?_⟩
  rw [Text.eq_marked_append hsplit, encode_append, encode_marked]

/-- A byte sequence is that of a text, or has a first line that is not text. -/
theorem exists_text_or_line (bytes : List UInt8) :
    (∃ text, bytes = encode text) ∨
      ∃ above line below, terminated 0x0A bytes = above ++ line :: below ∧
        (∀ earlier ∈ above, ∃ text, earlier.1 = encode text) ∧ ∀ text, line.1 ≠ encode text := by
  cases hfind : (terminated 0x0A bytes).find? fun line => (decode? line.1).isNone with
  | none =>
      refine .inl (exists_text_of_lines fun line hline => isSome_decode?_iff.mp ?_)
      rw [Option.isSome_iff_ne_none]
      simpa using List.find?_eq_none.mp hfind line hline
  | some line =>
      obtain ⟨hnone, above, below, hsplit, habove⟩ := List.find?_eq_some_iff_append.mp hfind
      refine .inr ⟨above, line, below, hsplit, fun earlier hearlier => ?_, ?_⟩
      · exact isSome_decode?_iff.mp (by simpa using habove earlier hearlier)
      · exact decode?_eq_none_iff.mp (Option.isNone_iff_eq_none.mp hnone)

end Utf8

/-! ## Documents -/

namespace Gerber.Document

variable [Numeral α]

/-- Only the text of a document is refused. -/
theorem isMalformed_of_readFrom {lastLine : Nat} {r : Reading α} {tokens : List Token} {fault : Fault}
    (h : readFrom lastLine r tokens = .error fault) : fault.IsMalformed := by
  obtain ⟨line, reason, hfault, -⟩ := exists_line_of_readFrom h
  exact ⟨line, reason, hfault⟩

theorem isMalformed_of_ofText? {text : List Char} {fault : Fault}
    (h : (ofText? text : Except Fault (Document α)) = .error fault) : fault.IsMalformed := by
  unfold ofText? at h
  split at h
  · cases h
    exact ⟨_, _, rfl⟩
  · exact isMalformed_of_readFrom h

/-- The bytes of a document are those of a text, or refused where they are not, wherever the end
marker stands. -/
theorem ofBytes?_cases (bytes : List UInt8) :
    (∃ text, bytes = Utf8.encode text ∧
        (ofBytes? bytes : Except Fault (Document α)) = ofText? text) ∨
      ∃ text rest, bytes = Utf8.encode text ++ rest ∧ rest ≠ [] ∧ Utf8.first? rest = none ∧
        (ofBytes? bytes : Except Fault (Document α)) =
          .error (.malformed (1 + text.count '\n') "invalid UTF-8 in Gerber file") := by
  obtain ⟨text, rest, hbytes, hrest, hdecode⟩ := Utf8.exists_decode bytes
  unfold ofBytes?
  rw [hdecode]
  cases rest with
  | nil => exact .inl ⟨text, by rw [hbytes, List.append_nil], rfl⟩
  | cons b rest => exact .inr ⟨text, b :: rest, hbytes, List.cons_ne_nil _ _, hrest, rfl⟩

theorem isMalformed_of_ofBytes? {bytes : List UInt8} {fault : Fault}
    (h : (ofBytes? bytes : Except Fault (Document α)) = .error fault) : fault.IsMalformed := by
  rcases ofBytes?_cases (α := α) bytes with
    ⟨text, -, hresult⟩ | ⟨text, rest, -, -, -, hresult⟩
  · exact isMalformed_of_ofText? (hresult.symm.trans h)
  · exact ⟨_, _, Except.error.inj (h.symm.trans hresult)⟩

end Gerber.Document

/-! ## Drill programs -/

namespace Drill.Program

variable [Scalar α]

theorem isMalformed_of_readFrom {number : Nat} {r : Reading α} {lines : List (Option (List Char))}
    {fault : Fault} (h : readFrom number r lines = .error fault) : fault.IsMalformed := by
  induction lines generalizing number r with
  | nil => cases h
  | cons line rest ih =>
      cases line with
      | none =>
          unfold readFrom at h
          split at h
          · cases h
          · cases h
            exact ⟨_, _, rfl⟩
      | some text =>
          unfold readFrom at h
          split at h
          · cases h
          · dsimp only at h
            split at h
            · exact ih h
            · cases h
              exact ⟨_, _, rfl⟩

theorem isMalformed_of_ofBytes? {bytes : List UInt8} {fault : Fault}
    (h : (ofBytes? bytes : Except Fault (Program α)) = .error fault) : fault.IsMalformed :=
  isMalformed_of_readFrom h

/-- Whether the end marker is among lines, as far as they are text. -/
def marksEnd (lines : List (Option (List Char))) : Bool :=
  lines.any (·.any fun text => ends (directive text))

/-- Lines with one that is not text are read as those above it, unless neither ends the reading
there. -/
theorem readFrom_append_none {number : Nat} {r : Reading α} {above : List (Option (List Char))}
    (htext : ∀ line ∈ above, line.isSome = true) (below : List (Option (List Char))) :
    readFrom number r (above ++ none :: below) =
      match readFrom number r above with
      | .error fault => .error fault
      | .ok p =>
        if r.ended || marksEnd above then .ok p
        else .error (.malformed (number + above.length) ("invalid text: " ++ notText)) := by
  cases hended : r.ended with
  | true =>
      rw [readFrom_of_ended hended, readFrom_of_ended hended]
      rfl
  | false =>
      rw [Bool.false_or]
      induction above generalizing number r with
      | nil =>
          have hnone : readFrom number r (none :: below) =
              .error (.malformed number ("invalid text: " ++ notText)) := by
            rw [readFrom, if_neg (by simp [hended])]
            rfl
          rw [List.nil_append, hnone]
          rfl
      | cons line rest ih =>
          obtain ⟨hline, hrest⟩ := List.forall_mem_cons.mp htext
          obtain ⟨text, rfl⟩ := Option.isSome_iff_exists.mp hline
          rw [List.cons_append, readFrom, readFrom, if_neg (by simp [hended]),
            if_neg (by simp [hended])]
          dsimp only
          cases hnext : r.line (directive text) with
          | error defect => rfl
          | ok next =>
              have hlater := (Reading.heeds_of_line hnext).ended
              rw [hended, Bool.false_or] at hlater
              have hmarks : marksEnd (some text :: rest) = (next.ended || marksEnd rest) := by
                rw [hlater]
                rfl
              rw [hmarks, List.length_cons, Nat.add_comm rest.length, ← Nat.add_assoc]
              dsimp only
              cases hstop : next.ended with
              | true =>
                  rw [readFrom_of_ended hstop, readFrom_of_ended hstop]
                  rfl
              | false =>
                  rw [Bool.false_or]
                  exact ih hrest hstop

/-- The text of a line, given its bytes and whether a line feed ends them. -/
def lineText? (line : List UInt8 × Bool) : Option (List Char) :=
  (Utf8.decode? line.1).map fun text => if line.2 then Text.withoutReturn text else text

theorem byteLines_eq (bytes : List UInt8) :
    byteLines bytes = (Text.terminated 0x0A bytes).map lineText? :=
  rfl

theorem lineText?_encode (text : List Char) (ended : Bool) :
    lineText? (Utf8.encode text, ended) =
      some (if ended then Text.withoutReturn text else text) := by
  rw [lineText?, Utf8.decode?_eq_some_iff.mpr rfl, Option.map_some]

theorem byteLines_encode (text : List Char) :
    byteLines (Utf8.encode text) = (Text.lines text).map some := by
  rw [byteLines_eq, Utf8.terminated_encode, Text.lines, List.map_map, List.map_map]
  exact List.map_congr_left fun line _ => lineText?_encode line.1 line.2

/-- A file is read up to the first line that is not text, as one that ends above it. If it is not
refused there, and its end marker does not stand there, it is refused on that line. -/
theorem ofBytes?_of_not_text {bytes : List UInt8} {above below : List (List UInt8 × Bool)}
    {line : List UInt8 × Bool} (h : Text.terminated 0x0A bytes = above ++ line :: below)
    (habove : ∀ earlier ∈ above, ∃ text, earlier.1 = Utf8.encode text)
    (hline : ∀ text, line.1 ≠ Utf8.encode text) :
    let file := Text.marked 0x0A (above.map Prod.fst)
    (ofBytes? bytes : Except Fault (Program α)) =
      match (ofBytes? file : Except Fault (Program α)) with
      | .error fault => .error fault
      | .ok p =>
        if marksEnd (byteLines file) then .ok p
        else .error (.malformed (above.length + 1) ("invalid text: " ++ notText)) := by
  intro file
  have hfile : byteLines file = above.map lineText? := by
    rw [byteLines_eq, Text.terminated_marked_split h]
  have hnone : lineText? line = none := by
    rw [lineText?, Utf8.decode?_eq_none_iff.mpr hline, Option.map_none]
  have hbytes : byteLines bytes = above.map lineText? ++ none :: below.map lineText? := by
    rw [byteLines_eq, h, List.map_append, List.map_cons, hnone]
  have htext : ∀ found ∈ above.map lineText?, found.isSome = true := by
    refine List.forall_mem_map.mpr fun ⟨earlier, ended⟩ hearlier => ?_
    obtain ⟨text, rfl⟩ := habove _ hearlier
    rw [lineText?_encode, Option.isSome_some]
  rw [ofBytes?, hbytes, readFrom_append_none htext, ofBytes?, hfile, List.length_map,
    Nat.add_comm 1]
  rfl

/-- The bytes of a drill file are those of a text, or have a first line that is not text. -/
theorem ofBytes?_cases (bytes : List UInt8) :
    (∃ text, bytes = Utf8.encode text ∧
        (ofBytes? bytes : Except Fault (Program α)) = ofText? text) ∨
      ∃ above line below, Text.terminated 0x0A bytes = above ++ line :: below ∧
        (∀ earlier ∈ above, ∃ text, earlier.1 = Utf8.encode text) ∧
        (∀ text, line.1 ≠ Utf8.encode text) ∧
        let file := Text.marked 0x0A (above.map Prod.fst)
        (ofBytes? bytes : Except Fault (Program α)) =
          match (ofBytes? file : Except Fault (Program α)) with
          | .error fault => .error fault
          | .ok p =>
            if marksEnd (byteLines file) then .ok p
            else .error (.malformed (above.length + 1) ("invalid text: " ++ notText)) := by
  rcases Utf8.exists_text_or_line bytes with ⟨text, rfl⟩ | ⟨above, line, below, h, habove, hline⟩
  · exact .inl ⟨text, rfl, by rw [ofBytes?, byteLines_encode, ofText?]⟩
  · exact .inr ⟨above, line, below, h, habove, hline, ofBytes?_of_not_text h habove hline⟩

end Drill.Program

/-! ## Layers -/

theorem Drill.Program.isOfContent_of_bounds [Scalar α] {p : Program α} {fault : Fault}
    (h : p.bounds = .error fault) : fault.IsOfContent := by
  rw [bounds_eq, ← failure?_eq_some, failure?_map, failure?_eq_some] at h
  obtain ⟨_, _, _, -, -, hoffends⟩ := foldlM_load_eq_error_iff.mp h
  cases hoffends <;> exact nofun

namespace Layer

/-- Numbering does not fail at all. -/
theorem failsOnly_numberFrom {P : Fault → Prop} (earlier : Layer α) (number : Nat)
    (layers : List (Layer α)) : FailsOnly P (numberFrom earlier number layers) := by
  induction layers generalizing earlier number with
  | nil => exact .pure []
  | cons l rest ih =>
      have htail (l : Layer α) (number : Nat) :
          FailsOnly P (numberFrom l number rest >>= fun later => pure (l :: later)) :=
        (ih l number).bind fun _ => .pure _
      exact .ite (.bind (.note _) fun _ => htail _ _) (htail _ _)

theorem failsOnly_number {P : Fault → Prop} (layers : List (Layer α)) :
    FailsOnly P (number layers) := by
  cases layers with
  | nil => exact .pure []
  | cons l rest => exact (failsOnly_numberFrom l 1 rest).bind fun _ => .pure _

variable [Numeral α]

theorem isOfContent_of_bounds {l : Layer α} {fault : Fault} (h : l.bounds = .error fault) :
    fault.IsOfContent := by
  unfold bounds at h
  split at h
  · obtain ⟨b, -, hline⟩ := Gerber.Document.exists_block_of_bounds h
    exact Fault.isOfContent_of_blockLine? hline
  · exact Drill.Program.isOfContent_of_bounds h

/-- The layer of a text is only refused for the text. -/
theorem failsOnly_ofText (name : String) (text : List Char) :
    FailsOnly Fault.IsMalformed (ofText name text : Noting (Option (Layer α))) := by
  have hdrill : FailsOnly Fault.IsMalformed (ofDrillText name text : Noting (Layer α)) :=
    (FailsOnly.ofExcept fun _ => Drill.Program.isMalformed_of_readFrom).bind fun _ =>
      (FailsOnly.note _).bind fun _ => .pure _
  unfold ofText
  refine .ite (hdrill.bind fun _ => .pure _) (.ite (.pure none) ?_)
  split
  · exact .pure _
  next fault hfault =>
    exact .ite ((FailsOnly.note _).bind fun _ => .pure none)
      (.throw (Gerber.Document.isMalformed_of_ofText? hfault))

end Layer

/-! ## Boards -/

namespace Board

variable [Numeral α]

theorem failsOnly_ofLayers (layers : List (Layer α)) :
    FailsOnly Fault.IsOfContent (ofLayers layers : Noting (Board α)) := by
  refine (Layer.failsOnly_number _).bind fun numbered => (FailsOnly.ofExcept fun fault h => ?_).bind
    fun _ => .pure _
  obtain ⟨before, l, after, box, -, -, hfault⟩ := foldlM_eq_error_iff.mp h
  rcases bind_eq_error.mp hfault with hbounds | ⟨_, _, hfault⟩
  · exact Layer.isOfContent_of_bounds hbounds
  · cases hfault

/-- The layer of a file in a file tree. -/
def layerIn (t : FileTree) (path : String) : Noting (Option (Layer α)) :=
  if !(t.find? path.toList).isSome then return none else do
    let text ← NotingT.ofExcept (t.text path)
    Layer.ofText path text

theorem sees_layerOfFile (t : FileTree) (path : String) :
    Sees t (layerOfFile path) (layerIn (α := α) t path) := by
  refine .look rfl (.ite (.pure none) ?_)
  exact .look (t.run_readText path) ((Sees.ofExcept _).bind fun text =>
    .lift (Layer.appends_ofText path text))

theorem appends_layerIn (t : FileTree) (path : String) : Appends (layerIn (α := α) t path) :=
  .ite (.pure none) ((Appends.ofExcept _).bind fun text => Layer.appends_ofText path text)

/-- The board of the layers found under a base name, of which there is at least one. -/
def ofNamed (base : String) (layers : List (Layer α)) : Noting (Board α) :=
  match layers with
  | [] => throw (.fileAccess s!"no layer files found for {base}")
  | layers => ofLayers layers

theorem appends_ofNamed (base : String) (layers : List (Layer α)) :
    Appends (ofNamed base layers) := by
  cases layers with
  | nil => exact .throw _
  | cons l rest => exact appends_ofLayers _

theorem sees_ofFiles (t : FileTree) (base : String) :
    Sees t (ofFiles base) (do
      let found ← fileEndings.mapM fun ending => layerIn t (base ++ ending)
      ofNamed base (found.filterMap id) : Noting (Board α)) := by
  refine (Sees.mapM (fun ending => sees_layerOfFile t (base ++ ending)) fileEndings).bind
    fun found => ?_
  cases found.filterMap id with
  | nil => exact .throw _
  | cons l rest => exact .lift (appends_ofLayers _)

/-- What comes of the file at a path. -/
def loaded (t : FileTree) (path : String) : Except Fault (Option (Layer α)) :=
  ((layerOfFile path : NotingT (StateM FileTree) _).outcome.run t).1.1

theorem loaded_eq (t : FileTree) (path : String) :
    loaded t path = (layerIn (α := α) t path).outcome.1 := by
  rw [loaded, (sees_layerOfFile t path).run_outcome]

/-- A file of a board cannot be accessed exactly if it is there and gives no text. -/
theorem loaded_eq_fileAccess_iff {t : FileTree} {path reason : String} :
    (loaded t path : Except Fault (Option (Layer α))) = .error (.fileAccess reason) ↔
      t.Refuses path reason := by
  rw [loaded_eq, FileTree.refuses_iff, layerIn]
  cases hfound : (t.find? path.toList).isSome with
  | false => exact ⟨nofun, fun h => nomatch h.1⟩
  | true =>
      rw [if_neg (by decide), Noting.outcome_bind _ fun text => Layer.appends_ofText path text]
      cases htext : t.text path with
      | ok text =>
          refine ⟨fun h => ?_, fun h => nomatch h.2⟩
          exact absurd rfl (((Layer.failsOnly_ofText path text).of_outcome h).isOfContent reason)
      | error fault =>
          change (.error fault : Except Fault (Option (Layer α))) = _ ↔ _
          simp

theorem outcome_ofFiles (t : FileTree) (base : String) :
    ((ofFiles base : NotingT (StateM FileTree) (Board α)).outcome.run t).1.1 =
      (fileEndings.mapM fun ending => loaded t (base ++ ending)) >>= fun found =>
        (ofNamed base (found.filterMap id)).outcome.1 := by
  rw [(sees_ofFiles t base).run_outcome, Noting.outcome_bind _ fun _ => appends_ofNamed base _,
    Noting.outcome_mapM fun _ => appends_layerIn t _]
  simp only [loaded_eq]

/-- A board cannot be accessed exactly if the first of its files that do not come through is there
and gives no text, or if none of them gives a layer. -/
theorem ofFiles_eq_fileAccess_iff {t : FileTree} {base reason : String} :
    ((ofFiles base : NotingT (StateM FileTree) (Board α)).outcome.run t).1.1 =
        .error (.fileAccess reason) ↔
      (∃ before ending after, fileEndings = before ++ ending :: after ∧
          (∀ earlier ∈ before, ∃ found : Option (Layer α), loaded t (base ++ earlier) = .ok found) ∧
          t.Refuses (base ++ ending) reason) ∨
        (∀ ending ∈ fileEndings,
            (loaded t (base ++ ending) : Except Fault (Option (Layer α))) = .ok none) ∧
          reason = s!"no layer files found for {base}" := by
  rw [outcome_ofFiles, bind_eq_error, mapM_eq_error_iff]
  refine or_congr ?_ ?_
  · simp only [loaded_eq_fileAccess_iff]
  · constructor
    · rintro ⟨found, hfound, h⟩
      rw [mapM_eq_ok_iff] at hfound
      cases hlayers : found.filterMap id with
      | nil =>
          rw [hlayers] at h
          refine ⟨fun ending hending => ?_, ?_⟩
          · have hmem := List.mem_map_of_mem (f := fun ending => loaded (α := α) t (base ++ ending))
              hending
            rw [hfound] at hmem
            obtain ⟨value, hvalue, hloaded⟩ := List.mem_map.mp hmem
            have hvalue : value = none := List.filterMap_eq_nil_iff.mp hlayers value hvalue
            rw [← hloaded, hvalue]
          · cases h
            rfl
      | cons l rest =>
          rw [hlayers] at h
          exact absurd rfl ((failsOnly_ofLayers (l :: rest)).of_outcome h reason)
    · rintro ⟨hnone, rfl⟩
      refine ⟨fileEndings.map fun _ => none, mapM_eq_ok_iff.mpr ?_, ?_⟩
      · rw [List.map_map]
        exact List.map_congr_left hnone
      · rfl

/-- What is wrong with the bytes of a single file is a matter of its text. A document is refused on
the line of the first bytes that are not text. A drill file is refused on its first line that is
not text, unless it is refused above, or ends there. A board is loaded from texts only: if one of
its files is there and is not text, and those before it come through, it is not even accessed, as
if it could not be read. Otherwise that happens only if none of its files gives a layer. -/
theorem refusals_of_bytes :
    (∀ bytes : List UInt8,
      let read : Except Fault (Gerber.Document α) := Gerber.Document.ofBytes? bytes
      ((∃ text, bytes = Utf8.encode text ∧ read = Gerber.Document.ofText? text) ∨
        ∃ text rest, bytes = Utf8.encode text ++ rest ∧ rest ≠ [] ∧ Utf8.first? rest = none ∧
          read = .error (.malformed (1 + text.count '\n') "invalid UTF-8 in Gerber file")) ∧
      ∀ fault, read = .error fault → fault.IsMalformed ∧ fault.exitCode = 3) ∧
    (∀ bytes : List UInt8,
      let read : Except Fault (Drill.Program α) := Drill.Program.ofBytes? bytes
      ((∃ text, bytes = Utf8.encode text ∧ read = Drill.Program.ofText? text) ∨
        ∃ above line below, Text.terminated 0x0A bytes = above ++ line :: below ∧
          (∀ earlier ∈ above, ∃ text, earlier.1 = Utf8.encode text) ∧
          (∀ text, line.1 ≠ Utf8.encode text) ∧
          let file := Text.marked 0x0A (above.map Prod.fst)
          read = match (Drill.Program.ofBytes? file : Except Fault (Drill.Program α)) with
            | .error fault => .error fault
            | .ok p =>
              if Drill.Program.marksEnd (Drill.Program.byteLines file) then .ok p
              else .error (.malformed (above.length + 1)
                "invalid text: stream did not contain valid UTF-8")) ∧
      ∀ fault, read = .error fault → fault.IsMalformed ∧ fault.exitCode = 3) ∧
    ∀ (base : String) (t : FileTree) (reason : String),
      ((ofFiles base : NotingT (StateM FileTree) (Board α)).outcome.run t).1.1 =
          .error (.fileAccess reason) ↔
        (∃ before ending after, fileEndings = before ++ ending :: after ∧
            (∀ earlier ∈ before, ∃ found : Option (Layer α),
              loaded t (base ++ earlier) = .ok found) ∧
            t.Refuses (base ++ ending) reason) ∨
          (∀ ending ∈ fileEndings,
              (loaded t (base ++ ending) : Except Fault (Option (Layer α))) = .ok none) ∧
            reason = s!"no layer files found for {base}" := by
  refine ⟨fun bytes => ⟨Gerber.Document.ofBytes?_cases bytes, fun fault hfault => ?_⟩,
    fun bytes => ⟨Drill.Program.ofBytes?_cases bytes, fun fault hfault => ?_⟩,
    fun base t reason => ofFiles_eq_fileAccess_iff⟩
  · have hmalformed := Gerber.Document.isMalformed_of_ofBytes? hfault
    exact ⟨hmalformed, hmalformed.exitCode_eq⟩
  · have hmalformed := Drill.Program.isMalformed_of_ofBytes? hfault
    exact ⟨hmalformed, hmalformed.exitCode_eq⟩

/-- A drill file whose second line is not text. -/
theorem refusals_of_bytes_header :
    let bytes := Utf8.encode "M48\n".toList ++ [0xFF, 0x0A]
    let fault := Fault.malformed 2 "invalid text: stream did not contain valid UTF-8"
    (Drill.Program.ofBytes? bytes : Except Fault (Drill.Program Float)) = .error fault ∧
      fault.IsMalformed ∧ fault.exitCode = 3 := by
  intro bytes fault
  have hread : (Drill.Program.ofBytes? bytes : Except Fault (Drill.Program Float)) =
      .error fault :=
    failure?_eq_some.mp (by decide +kernel)
  exact ⟨hread, ((refusals_of_bytes (α := Float)).2.1 bytes).2 fault hread⟩

/-- A document that is refused for its text alone, and for the access to it as part of a board. -/
theorem board_of_bytes_inaccessible :
    let bytes := ByteArray.mk #[0x25, 0xFF, 0x2A]
    let place := ["tmp", "job", "demo-F_Cu.gbr"].map String.toList
    let tree := FileTree.empty.put place (.file bytes)
    let fault := Fault.fileAccess "stream did not contain valid UTF-8"
    tree.read "demo-F_Cu.gbr".toList = .ok bytes ∧
      ((ofFiles "demo" : NotingT (StateM FileTree) (Board Float)).outcome.run tree).1.1 =
        .error fault ∧
      fault.exitCode = 5 ∧
      (Gerber.Document.ofBytes? bytes.data.toList : Except Fault (Gerber.Document Float)) =
        .error (.malformed 1 "invalid UTF-8 in Gerber file") := by
  intro bytes place tree fault
  refine ⟨?_, failure?_eq_some.mp ?_, rfl, failure?_eq_some.mp ?_⟩
  · rfl
  · decide +kernel
  · decide +kernel

end Board

end BoardMill
