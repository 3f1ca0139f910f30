import BoardMill.Board.Loading
import BoardMill.Files.Tree
import BoardMill.Proofs.Board.Layers
import BoardMill.Proofs.Board.Order

/-! # Programs of boards

The box of a board that was loaded covers those of its layers, so every layer has bounds and
with them a complete program. Writing them all is writing each one alone, shifted by the corner
of the common box, in the order of the layers.
-/

namespace BoardMill

open GCode (Command Sink Tape)
open NotingT (Returns)
open Outcome

variable {α : Type} [Numeral α]

/-- A layer written to a fresh sink with room for everything. -/
def Layer.alone (l : Layer α) (machine : Machine α) (place : Point α → Point α) :
    Except Fault Unit × Sink α :=
  let sink := Sink.start machine place none
  let title := s!"pcb-cam {l.name} ({l.suffix})"
  match l.data with
  | .gerber document => sink.document document title
  | .drill program => sink.drilling program title

theorem Layer.write_eq_alone (l : Layer α) (machine : Machine α) (place : Point α → Point α) :
    l.write (.start machine place none) = l.alone machine place := by
  unfold write alone
  cases l.data <;> rfl

/-- A layer that has bounds has a complete program. -/
theorem Layer.alone_of_bounds {l : Layer α} {box : Box α} (h : l.bounds = .ok box)
    (machine : Machine α) (place : Point α → Point α) : (l.alone machine place).1 = .ok () := by
  rw [← write_eq_alone, write_start]
  exact (Sink.complete_tape _ _).2.trans (ending_of_bounds machine place h)

/-- What is written of a layer are the lines of its commands. -/
theorem Layer.alone_text {l : Layer α} {machine : Machine α} {place : Point α → Point α}
    (hok : (l.alone machine place).1 = .ok ()) :
    (l.alone machine place).2.tape.text =
      Text.marked '\n' ((l.commands machine place).map Command.line) := by
  rw [← write_eq_alone, write_start] at hok ⊢
  exact (Sink.start_complete_text hok).2

namespace Board

/-! ## The box of a board -/

theorem exists_boxes_of_foldlM {layers : List (Layer α)} {start box : Box α}
    (h : layers.foldlM (fun box l => return box.cover (← l.bounds)) start = .ok box) :
    ∃ boxes : List (Box α), (∀ l ∈ layers, ∃ own ∈ boxes, l.bounds = .ok own) ∧
      box = boxes.foldl Box.cover start := by
  induction layers generalizing start with
  | nil => exact ⟨[], fun _ hl => absurd hl List.not_mem_nil, (Except.ok.inj h).symm⟩
  | cons l rest ih =>
      rw [List.foldlM_cons] at h
      obtain ⟨grown, hgrown, h⟩ := bind_eq_ok.mp h
      obtain ⟨own, hown, hcover⟩ := bind_eq_ok.mp hgrown
      cases hcover
      obtain ⟨boxes, hboxes, rfl⟩ := ih h
      refine ⟨own :: boxes, List.forall_mem_cons.mpr ⟨⟨own, List.mem_cons_self, hown⟩, ?_⟩, rfl⟩
      intro l hl
      obtain ⟨other, hother, hbounds⟩ := hboxes l hl
      exact ⟨other, List.mem_cons_of_mem _ hother, hbounds⟩

/-- All layers that are covered have boxes, and the cover contains them. -/
theorem exists_contains_of_cover [OrderedScalar α] {layers : List (Layer α)} {box : Box α}
    (h : cover layers = .ok box) : ∀ l ∈ layers, ∃ own, l.bounds = .ok own ∧ box.Contains own := by
  intro l hl
  obtain ⟨boxes, hboxes, rfl⟩ := exists_boxes_of_foldlM h
  obtain ⟨own, hmem, hown⟩ := hboxes l hl
  obtain ⟨-, -, hcontains⟩ := Box.foldl_cover_contains Box.numeric_empty boxes
  exact ⟨own, hown, hcontains own hmem (Layer.numeric_of_bounds hown)⟩

/-! ## Loading -/

/-- A board that was loaded from an archive, or from the files of a base name. -/
inductive Loaded (b : Board α) : Prop where
  | ofArchive (archive : Archive) : (Board.ofArchive archive).outcome.1 = .ok b → Loaded b
  | ofFiles (base : String) (tree : FileTree) :
      ((Board.ofFiles base : NotingT (StateM FileTree) (Board α)).outcome.run tree).1.1 = .ok b →
        Loaded b

/-- The box of a board covers its layers. -/
def IsCovered (b : Board α) : Prop := cover b.layers = .ok b.bounds

theorem returns_ofLayers (layers : List (Layer α)) :
    Returns IsCovered (ofLayers layers : Noting (Board α)) :=
  .bind (.any _) fun _ _ => .bind (.ofExcept fun _ h => h) fun _ h => .pure h

theorem returns_ofArchive (archive : Archive) :
    Returns IsCovered (Board.ofArchive archive : Noting (Board α)) := by
  refine .bind (.any _) fun found _ => ?_
  split
  · exact .throw _
  · exact returns_ofLayers _

theorem returns_ofFiles {m : Type → Type} [Monad m] [LawfulMonad m] [Files m] (base : String) :
    Returns IsCovered (Board.ofFiles base : NotingT m (Board α)) := by
  refine .bind (.any _) fun found _ => ?_
  split
  · exact .throw _
  · exact (returns_ofLayers _).lift

/-- Whatever a board was loaded from, its box covers its layers. -/
theorem Loaded.isCovered {b : Board α} (h : b.Loaded) : b.IsCovered := by
  cases h with
  | ofArchive archive h => exact (returns_ofArchive archive).of_outcome h
  | ofFiles base tree h => exact (returns_ofFiles base).of_run h

/-! ## Writing all layers -/

variable (machine : Machine α)

section

variable {m : Type → Type} [Monad m] [LawfulMonad m] {w : Type} (b : Board α) {l : Layer α}

/-- A layer that comes through alone can only fail to be opened or to be stored. -/
theorem writeLayer_eq (openFor : Layer α → m (Except Fault w))
    (store : w → Tape → m (Except Fault w))
    (hends : (l.alone machine b.bounds.toOrigin).1 = .ok ()) :
    b.writeLayer machine none openFor store l = (do
      let writer ← liftM (openFor l) >>= NotingT.ofExcept
      let written ←
        liftM (store writer (l.alone machine b.bounds.toOrigin).2.tape) >>= NotingT.ofExcept
      NotingT.note [writtenNotice l (l.alone machine b.bounds.toOrigin).2.lines]
      return written) := by
  have hwrite : l.write (b.sink machine none) = l.alone machine b.bounds.toOrigin :=
    l.write_eq_alone machine b.bounds.toOrigin
  unfold writeLayer
  rw [hwrite]
  generalize l.alone machine b.bounds.toOrigin = written at hends ⊢
  obtain ⟨result, sink⟩ := written
  cases hends
  simp only [NotingT.ofExcept, bind_assoc, pure_bind]

/-- A layer that comes through alone is written to a writer that takes everything. -/
theorem run_writeLayer (openFor : Layer α → m w) (store : w → Tape → m w)
    (hends : (l.alone machine b.bounds.toOrigin).1 = .ok ()) (notices : List Notice) :
    (b.writeLayer machine none (fun l => .ok <$> openFor l)
        (fun writer tape => .ok <$> store writer tape) l).run.run notices =
      (fun writer => (.ok writer,
          notices ++ [writtenNotice l (l.alone machine b.bounds.toOrigin).2.lines])) <$>
        (openFor l >>= fun writer => store writer (l.alone machine b.bounds.toOrigin).2.tape) := by
  rw [writeLayer_eq machine b _ _ hends, NotingT.run_bind, NotingT.run_liftM_ofExcept,
    Functor.map_map, bind_map_left, map_bind]
  refine bind_congr fun writer => ?_
  dsimp only
  rw [NotingT.run_bind, NotingT.run_liftM_ofExcept, Functor.map_map, bind_map_left,
    map_eq_pure_bind]
  refine bind_congr fun written => ?_
  dsimp only
  rw [NotingT.run_bind, NotingT.run_note, pure_bind]
  rfl

end

end Board

/-- A board that was loaded is written to writers that take everything: one is opened for each
layer, in their order, takes the program of the layer and is handed back. Every program is as if
its layer were alone but shifted by the corner of the box of the board. The box holds those of the
layers, each program goes to the stops of its layer up to its end, and what it says of a stop is
the same on every layer. -/
theorem Board.Loaded.generates [OrderedScalar α] {b : Board α} (h : b.Loaded)
    (machine : Machine α) :
    let place := b.bounds.toOrigin
    (∀ {m : Type → Type} [Monad m] [LawfulMonad m] {w : Type} (openFor : Layer α → m w)
        (store : w → Tape → m w),
      (b.generate machine none (fun l => .ok <$> openFor l)
          (fun writer tape => .ok <$> store writer tape)).outcome = do
        let writers ← b.layers.mapM fun l => do
          let writer ← openFor l
          store writer (l.alone machine place).2.tape
        return (.ok writers,
          b.layers.map fun l => writtenNotice l (l.alone machine place).2.lines)) ∧
    (∀ l ∈ b.layers,
      (∃ own, l.bounds = .ok own ∧ b.bounds.Contains own) ∧
      (l.alone machine place).1 = .ok () ∧
      (l.alone machine place).2.tape.text =
        Text.marked '\n' ((l.commands machine place).map Command.line) ∧
      "M5\nM30\n".toList <:+ (l.alone machine place).2.tape.text ∧
      (l.commands machine place).filterMap Command.coordinates? =
        l.stops.map fun p => GCode.coordinatesText (place p)) ∧
    (∀ c : Command α, ∀ text, c.coordinates? = some text → text <:+: c.line) ∧
    ∀ first ∈ b.layers, ∀ second ∈ b.layers, ∀ i j : Nat, first.stops[i]? = second.stops[j]? →
      ((first.commands machine place).filterMap Command.coordinates?)[i]? =
        ((second.commands machine place).filterMap Command.coordinates?)[j]? := by
  intro place
  have hlayers := Board.exists_contains_of_cover h.isCovered
  have hcoordinates : ∀ l ∈ b.layers, (l.commands machine place).filterMap Command.coordinates? =
      l.stops.map fun p => GCode.coordinatesText (place p) := by
    intro l hl
    obtain ⟨own, hown, -⟩ := hlayers l hl
    have hend := Layer.ending_of_bounds machine place hown
    exact Layer.filterMap_coordinates machine place hend
  refine ⟨fun openFor store => ?_, fun l hl => ?_, fun c text => Command.coordinates_infix, ?_⟩
  · have hends : ∀ l ∈ b.layers, (l.alone machine place).1 = .ok () := fun l hl =>
      have ⟨_, hown, _⟩ := hlayers l hl
      Layer.alone_of_bounds hown machine place
    have hrun := NotingT.run_mapM
      (fun l hl => Board.run_writeLayer machine b openFor store (hends l hl)) []
    rw [map_eq_pure_bind] at hrun
    exact hrun
  · obtain ⟨own, hown, hcontains⟩ := hlayers l hl
    have hend := Layer.ending_of_bounds machine place hown
    have hok := Layer.alone_of_bounds hown machine place
    have htext := Layer.alone_text hok
    exact ⟨⟨own, hown, hcontains⟩, hok, htext, htext ▸ Sink.end_suffix_text machine hend,
      hcoordinates l hl⟩
  · intro first hfirst second hsecond i j hstop
    rw [hcoordinates first hfirst, hcoordinates second hsecond, List.getElem?_map,
      List.getElem?_map, hstop]

/-- Top copper and drills of an archive are written one after the other, each to a writer that is
named for its layer. -/
theorem Board.Loaded.generates_copperAndDrills :
    ∃ b : Board Float, b.Loaded ∧
      (∀ l ∈ b.layers,
        "M5\nM30\n".toList <:+ (l.alone .default b.bounds.toOrigin).2.tape.text) ∧
      let openFor (l : Layer Float) : StateM (List String) String := do
        modify (· ++ [l.suffix])
        return l.suffix
      let store (suffix : String) (_ : Tape) : StateM (List String) String := return suffix
      let ((result, _), opened) :=
        (b.generate .default none (fun l => .ok <$> openFor l)
          (fun writer tape => .ok <$> store writer tape)).outcome.run []
      result = .ok ["F_Cu", "drl"] ∧ opened = ["F_Cu", "drl"] := by
  let member (name text : String) : Member := ⟨name, .bytes (Utf8.encode text.toList)⟩
  let archive : Archive := ⟨[member "a-F_Cu.gbr" "%FSLAX11Y11*%G36*X0Y0D02*X10Y0D01*G37*M02*",
    member "a.drl" "T1C0.8\nT1\nX001000Y002000\nM30\n"]⟩
  obtain ⟨b, hb, hsuffixes⟩ := Board.exists_board_of_archive archive
    (fun b : Board Float => decide (b.layers.map Layer.suffix = ["F_Cu", "drl"]))
    (by decide +kernel) (by decide +kernel) (by decide +kernel)
  have hloaded : b.Loaded := .ofArchive archive hb
  obtain ⟨hgenerate, hlayers, -⟩ := hloaded.generates .default
  obtain ⟨first, rest, hfirst, hcopper, hrest⟩ :=
    List.map_eq_cons_iff.mp (of_decide_eq_true hsuffixes)
  obtain ⟨second, none, rfl, hdrills, hnone⟩ := List.map_eq_cons_iff.mp hrest
  cases List.map_eq_nil_iff.mp hnone
  refine ⟨b, hloaded, fun l hl => (hlayers l hl).2.2.2.1, ?_⟩
  intro openFor store
  have hrun := congrArg (·.run []) (hgenerate openFor store)
  rw [hfirst] at hrun
  rw [hrun]
  have hboth : [first.suffix, second.suffix] = ["F_Cu", "drl"] :=
    congrArg₂ (fun first second => [first, second]) hcopper hdrills
  exact ⟨congrArg Except.ok hboth, hboth⟩

end BoardMill
