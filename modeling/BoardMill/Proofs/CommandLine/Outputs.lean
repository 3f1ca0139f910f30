import BoardMill.CommandLine.Run
import BoardMill.Proofs.Board.Generating
import BoardMill.Proofs.CommandLine.Running
import BoardMill.Proofs.Files.Watched

/-! # What failing tasks leave of the outputs

A task that makes programs only looks at the file tree until its input is read and has bounds.
From there on nothing can go wrong but the writing itself, as what has bounds has a program.
-/

namespace BoardMill

open GCode (Sink)

variable {β γ : Type}

/-! ## Computations that leave notices -/

namespace NotingT

/-- Two computations, the first one under watch, that come to the same from looking at the tree. -/
def Looks (watched : NotingT (Watched (StateM FileTree)) β)
    (plain : NotingT (StateM FileTree) β) : Prop :=
  ∀ notices, Watched.Looks (watched.run.run notices) (plain.run.run notices)

namespace Looks

theorem pure (value : β) : Looks (Pure.pure value) (Pure.pure value) := fun notices =>
  Watched.Looks.pure ((.ok value : Except Fault β), notices)

theorem throw (fault : Fault) :
    Looks (MonadExcept.throw fault : NotingT _ β) (MonadExcept.throw fault) := fun notices =>
  Watched.Looks.pure ((.error fault : Except Fault β), notices)

theorem bind {watched : NotingT (Watched (StateM FileTree)) β} {plain : NotingT (StateM FileTree) β}
    {watchedNext : β → NotingT (Watched (StateM FileTree)) γ}
    {plainNext : β → NotingT (StateM FileTree) γ} (h : Looks watched plain)
    (hnext : ∀ value, Looks (watchedNext value) (plainNext value)) :
    Looks (watched >>= watchedNext) (plain >>= plainNext) := by
  intro notices
  rw [run_bind, run_bind]
  refine (h notices).bind fun (result, later) => ?_
  cases result with
  | ok value => exact hnext value later
  | error fault => exact .pure _

theorem effect {watched : Watched (StateM FileTree) β} {plain : StateM FileTree β}
    (h : Watched.Looks watched plain) : Looks (liftM watched) (liftM plain) := by
  intro notices
  rw [run_liftM, run_liftM]
  exact h.map _

theorem note (notices : List Notice) : Looks (NotingT.note notices) (NotingT.note notices) := by
  intro earlier
  rw [run_note, run_note]
  exact .pure _

theorem ofExcept (result : Except Fault β) :
    Looks (NotingT.ofExcept result) (NotingT.ofExcept result) := by
  cases result with
  | ok value => exact .pure value
  | error fault => exact .throw fault

theorem lift (x : Noting β) : Looks x.lift x.lift :=
  (note _).bind fun _ => ofExcept _

theorem mapM {watched : γ → NotingT (Watched (StateM FileTree)) β}
    {plain : γ → NotingT (StateM FileTree) β} (h : ∀ item, Looks (watched item) (plain item))
    (items : List γ) : Looks (items.mapM watched) (items.mapM plain) := by
  induction items with
  | nil => exact .pure []
  | cons item rest ih =>
      rw [List.mapM_cons, List.mapM_cons]
      exact (h item).bind fun _ => ih.bind fun _ => .pure _

end Looks

/-- Two computations, the first one under watch, that do the same to the tree and come to the same,
and fail exactly if something is refused. -/
def Writes (watched : NotingT (Watched (StateM FileTree)) β)
    (plain : NotingT (StateM FileTree) β) : Prop :=
  ∀ notices, Watched.Writes (fun result => ∃ fault, result.1 = .error fault)
    (watched.run.run notices) (plain.run.run notices)

namespace Writes

theorem pure (value : β) : Writes (Pure.pure value) (Pure.pure value) := by
  intro notices
  have hok : ¬ ∃ fault : Fault, (.ok value : Except Fault β) = .error fault := by simp
  exact Watched.Writes.pure hok

theorem bind {watched : NotingT (Watched (StateM FileTree)) β} {plain : NotingT (StateM FileTree) β}
    {watchedNext : β → NotingT (Watched (StateM FileTree)) γ}
    {plainNext : β → NotingT (StateM FileTree) γ} (h : Writes watched plain)
    (hnext : ∀ value, Writes (watchedNext value) (plainNext value)) :
    Writes (watched >>= watchedNext) (plain >>= plainNext) := by
  intro notices
  rw [run_bind, run_bind]
  refine (h notices).bind ?_ ?_
  · rintro ⟨_, later⟩ ⟨fault, rfl⟩
    exact ⟨(.error fault, later), ⟨fault, rfl⟩, rfl, rfl⟩
  · rintro ⟨result, later⟩ hresult
    cases result with
    | ok value => exact hnext value later
    | error fault => exact absurd ⟨fault, rfl⟩ hresult

theorem note (notices : List Notice) : Writes (NotingT.note notices) (NotingT.note notices) := by
  intro earlier
  rw [run_note, run_note]
  exact .pure (by simp)

/-- An effect with a result that is a fault if something is refused. -/
theorem effect {watched : Watched (StateM FileTree) (Except Fault β)}
    {plain : StateM FileTree (Except Fault β)}
    (h : Watched.Writes (fun result => ∃ fault, result = .error fault) watched plain) :
    Writes (liftM watched >>= ofExcept) (liftM plain >>= ofExcept) := by
  intro notices
  rw [run_liftM_ofExcept, run_liftM_ofExcept, map_eq_pure_bind, map_eq_pure_bind]
  refine h.bind ?_ fun result hresult => .pure hresult
  rintro _ ⟨fault, rfl⟩
  exact ⟨(.error fault, notices), ⟨fault, rfl⟩, rfl, rfl⟩

theorem mapM {watched : γ → NotingT (Watched (StateM FileTree)) β}
    {plain : γ → NotingT (StateM FileTree) β} {items : List γ}
    (h : ∀ item ∈ items, Writes (watched item) (plain item)) :
    Writes (items.mapM watched) (items.mapM plain) := by
  induction items with
  | nil => exact .pure []
  | cons item rest ih =>
      obtain ⟨hitem, hrest⟩ := List.forall_mem_cons.mp h
      rw [List.mapM_cons, List.mapM_cons]
      exact hitem.bind fun _ => (ih hrest).bind fun _ => .pure _

end Writes

end NotingT

namespace Board

open NotingT (Looks Writes)

theorem layerOfFile_looks (path : String) :
    Looks (layerOfFile path : NotingT _ (Option (Layer Float))) (layerOfFile path) := by
  refine Looks.bind (.effect (.isPresent path)) fun present => ?_
  cases present with
  | false => exact .pure none
  | true =>
      exact Looks.bind (.effect (.readText path)) fun result =>
        (Looks.ofExcept result).bind fun text => .lift _

theorem ofFiles_looks (base : String) :
    Looks (Board.ofFiles base : NotingT _ (Board Float)) (Board.ofFiles base) := by
  refine (Looks.mapM (fun ending => layerOfFile_looks (base ++ ending)) fileEndings).bind
    fun found => ?_
  cases found.filterMap id with
  | nil => exact .throw _
  | cons l rest => exact .lift _

/-- All layers of a board that was loaded have programs, so only their outputs can be refused. -/
theorem Loaded.generate_writes {b : Board Float} (h : b.Loaded) (machine : Machine Float) {w : Type}
    {watchedOpen : Layer Float → Watched (StateM FileTree) (Except Fault w)}
    {plainOpen : Layer Float → StateM FileTree (Except Fault w)}
    {watchedStore : w → GCode.Tape → Watched (StateM FileTree) (Except Fault w)}
    {plainStore : w → GCode.Tape → StateM FileTree (Except Fault w)}
    (hopen : ∀ l, Watched.Writes (fun result => ∃ fault, result = .error fault)
      (watchedOpen l) (plainOpen l))
    (hstore : ∀ writer tape, Watched.Writes (fun result => ∃ fault, result = .error fault)
      (watchedStore writer tape) (plainStore writer tape)) :
    Writes (b.generate machine none watchedOpen watchedStore)
      (b.generate machine none plainOpen plainStore) := by
  refine .mapM fun l hl => ?_
  obtain ⟨own, hown, -⟩ := exists_contains_of_cover h.isCovered l hl
  have hends := Layer.alone_of_bounds hown machine b.bounds.toOrigin
  rw [writeLayer_eq machine b _ _ hends, writeLayer_eq machine b _ _ hends]
  exact (Writes.effect (hopen l)).bind fun writer =>
    (Writes.effect (hstore writer _)).bind fun _ => (Writes.note _).bind fun _ => .pure _

end Board

namespace Running

/-- Two tasks, the first one under watch, that come to the same from looking at the tree. -/
def Looks (watched : Running (Watched (StateM FileTree)) β)
    (plain : Running (StateM FileTree) β) : Prop :=
  Watched.Looks watched.run plain.run

namespace Looks

theorem pure (value : β) : Looks (Pure.pure value) (Pure.pure value) :=
  Watched.Looks.pure (.ok value : Except Failure β)

theorem throw (failure : Failure) :
    Looks (MonadExcept.throw failure : Running _ β) (MonadExcept.throw failure) :=
  Watched.Looks.pure (.error failure : Except Failure β)

theorem bind {watched : Running (Watched (StateM FileTree)) β} {plain : Running (StateM FileTree) β}
    {watchedNext : β → Running (Watched (StateM FileTree)) γ}
    {plainNext : β → Running (StateM FileTree) γ} (h : Looks watched plain)
    (hnext : ∀ value, Looks (watchedNext value) (plainNext value)) :
    Looks (watched >>= watchedNext) (plain >>= plainNext) := by
  unfold Looks
  rw [ExceptT.run_bind, ExceptT.run_bind]
  refine Watched.Looks.bind h fun result => ?_
  cases result with
  | ok value => exact hnext value
  | error failure => exact .pure _

theorem effect {watched : Watched (StateM FileTree) β} {plain : StateM FileTree β}
    (h : Watched.Looks watched plain) : Looks (liftM watched) (liftM plain) :=
  h.map Except.ok

theorem ofFault (result : Except Fault β) :
    Looks (Running.ofFault result) (Running.ofFault result) := by
  cases result with
  | ok value => exact .pure value
  | error fault => exact .throw _

theorem input (path : String) : Looks (Running.input path) (Running.input path) := by
  refine Looks.bind (.effect (.read path)) fun result => ?_
  rcases result with (_ | _ | _ | _ | _ | _ | _) | bytes
  all_goals first | exact .pure _ | exact .throw _

theorem machine (i : Invocation) : Looks (Running.machine i) (Running.machine i) := by
  unfold Running.machine
  cases i.settings with
  | none => exact .pure _
  | some path =>
      refine Looks.bind (.effect (.readText path)) fun result => ?_
      cases result with
      | error fault => exact .throw _
      | ok text =>
          cases htext : Machine.ofJson text <;> simp only [htext]
          exacts [.throw _, .pure _]

theorem document (file : String) : Looks (Running.document file) (Running.document file) :=
  (input file).bind fun _ => .ofFault _

theorem drillProgram (file : String) :
    Looks (Running.drillProgram file) (Running.drillProgram file) :=
  (input file).bind fun _ => .ofFault _

theorem archiveBoard [Archive.Unpacking] (path : String) :
    Looks (Running.archiveBoard path) (Running.archiveBoard path) := by
  refine Looks.bind (.effect (.read path)) fun result => ?_
  cases result with
  | error error => exact .throw _
  | ok bytes => exact (ofFault _).bind fun archive => .ofFault _

theorem filesBoard (base : String) :
    Looks (Running.filesBoard base) (Running.filesBoard base) := by
  refine Looks.bind (.effect (Board.ofFiles_looks base [])) fun (result, _) => ?_
  rcases result with (_ | _ | _ | _ | _ | _ | _ | _ | _ | _) | board
  all_goals first | exact .pure _ | exact .throw _

end Looks

/-- Two tasks, the first one under watch, that do the same to the tree and come to the same, and
fail exactly if something is refused. -/
def Writes (watched : Running (Watched (StateM FileTree)) β)
    (plain : Running (StateM FileTree) β) : Prop :=
  Watched.Writes (fun result => ∃ failure, result = .error failure) watched.run plain.run

/-- Two tasks, the first one under watch, that do the same to the tree and come to the same, and
that leave the tree alone if they fail although nothing is refused. -/
def Careful (watched : Running (Watched (StateM FileTree)) β)
    (plain : Running (StateM FileTree) β) : Prop :=
  Watched.Careful (fun result => ∃ failure, result = .error failure) watched.run plain.run

theorem Looks.careful {watched : Running (Watched (StateM FileTree)) β}
    {plain : Running (StateM FileTree) β} (h : Looks watched plain) : Careful watched plain :=
  Watched.Looks.careful h

theorem Writes.careful {watched : Running (Watched (StateM FileTree)) β}
    {plain : Running (StateM FileTree) β} (h : Writes watched plain) : Careful watched plain :=
  Watched.Writes.careful h

theorem Looks.bind_careful {watched : Running (Watched (StateM FileTree)) β}
    {plain : Running (StateM FileTree) β}
    {watchedNext : β → Running (Watched (StateM FileTree)) γ}
    {plainNext : β → Running (StateM FileTree) γ} (h : Looks watched plain)
    (hnext : ∀ value, (∃ tree, (plain.run.run tree).1 = .ok value) →
      Careful (watchedNext value) (plainNext value)) :
    Careful (watched >>= watchedNext) (plain >>= plainNext) := by
  unfold Careful
  rw [ExceptT.run_bind, ExceptT.run_bind]
  refine Watched.Looks.bind_careful h fun result hresult => ?_
  cases result with
  | ok value => exact hnext value hresult
  | error failure => exact (throw failure : Looks (β := γ) _ _).careful

theorem Careful.map_const {watched : Running (Watched (StateM FileTree)) Unit}
    {plain : Running (StateM FileTree) Unit} (h : Careful watched plain) (value : γ) :
    Careful (watched >>= fun _ => pure value) (plain >>= fun _ => pure value) := by
  unfold Careful
  rw [ExceptT.run_bind, ExceptT.run_bind]
  intro refused tree
  obtain ⟨result, later, after, hwatched, hplain, hfailed⟩ := h refused tree
  rw [StateT.run_bind, StateT.run_bind, StateT.run_bind, hwatched, hplain]
  cases result with
  | ok _ => exact ⟨.ok value, later, after, rfl, rfl, by simp⟩
  | error failure => exact ⟨.error failure, later, after, rfl, rfl, fun _ => hfailed ⟨failure, rfl⟩⟩

/-! ## Tasks -/

theorem run_liftM_bind {m : Type → Type} [Monad m] [LawfulMonad m] (effect : m β)
    (next : β → Running m γ) :
    (liftM effect >>= next : Running m γ).run = effect >>= fun value => (next value).run := by
  rw [ExceptT.run_bind]
  change (Except.ok <$> effect) >>= _ = _
  rw [bind_map_left]

theorem output_writes (path : String) (bytes : ByteArray) :
    Writes (output path bytes) (output path bytes) := by
  unfold Writes output
  rw [run_liftM_bind, run_liftM_bind]
  refine (Watched.Writes.write path bytes).bind ?_ fun result hresult => ?_
  · rintro _ ⟨error, rfl⟩
    exact ⟨.error _, ⟨_, rfl⟩, rfl, rfl⟩
  · cases result with
    | error error => exact absurd ⟨error, rfl⟩ hresult
    | ok _ => exact Watched.Writes.pure (by simp)

theorem outputProgram_careful (path : String) {program : Except Fault Unit × Sink Float}
    (hends : program.1 = .ok ()) :
    Careful (outputProgram path program) (outputProgram path program) := by
  unfold outputProgram
  rw [hends]
  exact (output_writes path _).careful.map_const ()

/-- A file is read first and bounded then. If what has bounds has a program, only the output of
the program can be refused. -/
theorem file_careful {watchedRead : Running (Watched (StateM FileTree)) β}
    {plainRead : Running (StateM FileTree) β} (hread : Looks watchedRead plainRead) (path : String)
    {bounds : β → Except Fault (Box Float)}
    {program : β → Box Float → Except Fault Unit × Sink Float}
    (hends : ∀ value box, bounds value = .ok box → (program value box).1 = .ok ()) :
    Careful
      (watchedRead >>= fun value => ofFault (bounds value) >>= fun box =>
        outputProgram path (program value box))
      (plainRead >>= fun value => ofFault (bounds value) >>= fun box =>
        outputProgram path (program value box)) := by
  refine hread.bind_careful fun value _ => ?_
  cases hbounds : bounds value with
  | error fault =>
      simp only [ofFault_error_bind]
      exact (Looks.throw _).careful
  | ok box => exact outputProgram_careful path (hends value box hbounds)

theorem mill_careful (i : Invocation) (machine : Machine Float) (file : String) :
    Careful (mill i machine file) (mill i machine file) :=
  file_careful (.document file) _ fun _ box hbounds =>
    (Sink.complete_tape _ _).2.trans
      (Gerber.Document.ending_of_bounds hbounds machine box.toOrigin false (title file))

theorem drill_careful (i : Invocation) (machine : Machine Float) (file : String) :
    Careful (drill i machine file) (drill i machine file) :=
  file_careful (.drillProgram file) _ fun _ box hbounds =>
    (Sink.complete_tape _ _).2.trans
      ((Drill.Program.ending_eq_ok_iff machine box.toOrigin).mpr
        (Drill.Program.bounds_eq_ok_iff.mp hbounds).1)

theorem run_effect_bind (effect : StateM FileTree β) (next : β → Running (StateM FileTree) γ)
    (tree : FileTree) :
    (liftM effect >>= next : Running (StateM FileTree) γ).run.run tree =
      (next (effect.run tree).1).run.run (effect.run tree).2 := by
  rw [run_liftM_bind]
  rfl

theorem loaded_of_archiveBoard [Archive.Unpacking] {path : String} {tree : FileTree}
    {b : Board Float}
    (h : ((archiveBoard path : Running (StateM FileTree) (Board Float)).run.run tree).1 = .ok b) :
    b.Loaded := by
  unfold archiveBoard at h
  rw [run_effect_bind] at h
  split at h
  next => cases h
  next bytes _ =>
    cases hread : Archive.ofBytes? bytes with
    | error fault =>
        rw [hread, ofFault_error_bind] at h
        cases h
    | ok archive =>
        rw [hread] at h
        change ((ofFault (Board.ofArchive archive).outcome.1 :
          Running (StateM FileTree) (Board Float)).run.run _).1 = _ at h
        cases hboard : (Board.ofArchive archive : Noting (Board Float)).outcome.1 with
        | error fault =>
            rw [hboard] at h
            cases h
        | ok found =>
            rw [hboard] at h
            cases h
            exact .ofArchive archive hboard

theorem loaded_of_filesBoard {base : String} {tree : FileTree} {b : Board Float}
    (h : ((filesBoard base : Running (StateM FileTree) (Board Float)).run.run tree).1 = .ok b) :
    b.Loaded := by
  unfold filesBoard at h
  rw [run_effect_bind] at h
  split at h
  next found _ hfound =>
    cases h
    exact .ofFiles base tree (congrArg Prod.fst hfound)
  next => cases h
  next => cases h

/-- Loads the board of a path. -/
def loadBoard {m : Type → Type} [Monad m] [Files m] [Archive.Unpacking] (base : String) :
    Running m (Board Float) :=
  if isArchive base then archiveBoard base else filesBoard base

/-- Writes the programs of all layers of a board that was loaded. -/
def outputBoard {m : Type → Type} [Monad m] [Files m] (i : Invocation) (machine : Machine Float)
    (base : String) (b : Board Float) : Running m Unit := do
  let (result, _) ← ((b.generate machine none
    (fun l => create (layerPath i base l) .empty)
    (fun path tape => create path ⟨tape.bytes⟩)).outcome : m _)
  let _ ← ofFault result

theorem board_eq {m : Type → Type} [Monad m] [Files m] [Archive.Unpacking] (i : Invocation)
    (machine : Machine Float) (base : String) :
    (board i machine base : Running m Unit) = loadBoard base >>= outputBoard i machine base := by
  unfold board loadBoard
  split <;> rfl

theorem loadBoard_looks [Archive.Unpacking] (base : String) :
    Looks (loadBoard base) (loadBoard base) := by
  unfold loadBoard
  split
  · exact .archiveBoard base
  · exact .filesBoard base

theorem loaded_of_loadBoard [Archive.Unpacking] {base : String} {tree : FileTree} {b : Board Float}
    (h : ((loadBoard base : Running (StateM FileTree) (Board Float)).run.run tree).1 = .ok b) :
    b.Loaded := by
  unfold loadBoard at h
  split at h
  · exact loaded_of_archiveBoard h
  · exact loaded_of_filesBoard h

theorem create_writes (path : String) (bytes : ByteArray) :
    Watched.Writes (fun result => ∃ fault, result = .error fault) (create path bytes)
      (create path bytes) := by
  refine (Watched.Writes.write path bytes).bind ?_ fun result hresult => ?_
  · rintro _ ⟨error, rfl⟩
    exact ⟨.error (.ofFile error), ⟨_, rfl⟩, rfl, rfl⟩
  · cases result with
    | error error => exact absurd ⟨error, rfl⟩ hresult
    | ok _ => exact .pure (by simp)

theorem outputBoard_writes (i : Invocation) (machine : Machine Float) (base : String)
    {b : Board Float} (h : b.Loaded) :
    Writes (outputBoard i machine base b) (outputBoard i machine base b) := by
  unfold Writes outputBoard
  rw [run_liftM_bind, run_liftM_bind]
  refine (h.generate_writes machine (fun l => create_writes _ _)
    (fun path tape => create_writes path _) []).bind ?_ ?_
  · rintro ⟨result, notices⟩ ⟨fault, rfl⟩
    exact ⟨.error (.ofFault fault), ⟨_, rfl⟩, rfl, rfl⟩
  · rintro ⟨result, notices⟩ hresult
    cases result with
    | error fault => exact absurd ⟨fault, rfl⟩ hresult
    | ok _ => exact Watched.Writes.pure (by simp)

theorem board_careful [Archive.Unpacking] (i : Invocation) (machine : Machine Float)
    (base : String) : Careful (board i machine base) (board i machine base) := by
  rw [board_eq, board_eq]
  exact (loadBoard_looks base).bind_careful fun _ ⟨_, htree⟩ =>
    (outputBoard_writes i machine base (loaded_of_loadBoard htree)).careful

end Running

/-- Whether a task makes programs. -/
def Task.makesPrograms : Task → Bool
  | .mill _ | .drill _ | .board _ => true
  | .render .. | .bounds _ => false

theorem Running.task_careful [Archive.Unpacking] (i : Invocation) (h : i.task.makesPrograms) :
    Careful (task i) (task i) := by
  refine (Looks.machine i).bind_careful fun machine _ => ?_
  cases htask : i.task with
  | mill file => exact (mill_careful i machine file).map_const ""
  | drill file => exact (drill_careful i machine file).map_const ""
  | board base => exact (board_careful i machine base).map_const ""
  | render file directory scale cutHoles => exact absurd h (by simp [htask, Task.makesPrograms])
  | bounds files => exact absurd h (by simp [htask, Task.makesPrograms])

theorem Ending.ofArguments_careful [Archive.Unpacking] {arguments : List String}
    (htask : ∀ i, Invocation.ofArguments? arguments = .ok i → i.task.makesPrograms) :
    Watched.Careful (fun ending => ending.code ≠ 0) (Ending.ofArguments arguments)
      (Ending.ofArguments arguments) := by
  unfold Ending.ofArguments
  cases hread : Invocation.ofArguments? arguments with
  | error refusal => cases refusal <;> exact (Watched.Looks.pure _).careful
  | ok i =>
      intro refused tree
      obtain ⟨result, later, after, hwatched, hplain, hfailed⟩ :=
        Running.task_careful i (htask i hread) refused tree
      dsimp only
      rw [StateT.run_bind, StateT.run_bind, StateT.run_bind, hwatched, hplain]
      cases result with
      | ok output => exact ⟨.done output, later, after, rfl, rfl, fun hcode => absurd rfl hcode⟩
      | error failure =>
          exact ⟨.failed failure, later, after, rfl, rfl, fun _ => hfailed ⟨failure, rfl⟩⟩

/-- A task that makes programs leaves all files as they were if it fails although the file tree
refused nothing: it is not for the outputs that it fails, then, and no output was touched. The
watch that tells what was refused has no influence on the task. -/
theorem Ending.failure_keeps_files [Archive.Unpacking] (arguments : List String)
    (htask : ∀ i, Invocation.ofArguments? arguments = .ok i → i.task.makesPrograms)
    (tree : FileTree) :
    let watched :=
      ((Ending.ofArguments arguments : Watched (StateM FileTree) Ending).run []).run tree
    (Ending.ofArguments arguments : StateM FileTree Ending).run tree =
        (watched.1.1, watched.2) ∧
      (watched.1.1.code ≠ 0 → watched.1.2 = [] → watched.2 = tree) := by
  intro watched
  obtain ⟨ending, refused, after, hwatched, hplain, hfailed⟩ :=
    Ending.ofArguments_careful htask [] tree
  have hwatched : watched = ((ending, refused), after) := hwatched
  rw [hwatched]
  exact ⟨hplain, hfailed⟩

section UnknownAperture

attribute [local instance] Archive.Unpacking.none

/-- An output of an earlier run stays if the document uses an aperture that it does not define. -/
theorem Ending.failure_keeps_files_unknownAperture :
    let file (name content : String) (tree : FileTree) : FileTree :=
      tree.put ["tmp".toList, "job".toList, name.toList]
        (.file ⟨(Utf8.encode content.toList).toArray⟩)
    let tree := file "a.gbr" "%FSLAX11Y11*%D10*M02*" (file "a.gcode" "M30\n" .empty)
    let watched := ((Ending.ofArguments ["gcode", "a.gbr"] :
      Watched (StateM FileTree) Ending).run []).run tree
    watched.1.1 = .failed ⟨5, "unknown aperture D10 (line 1)"⟩ ∧ watched.1.2 = [] ∧
      watched.2 = tree := by
  intro file tree watched
  have htask : ∀ i, Invocation.ofArguments? ["gcode", "a.gbr"] = .ok i → i.task.makesPrograms := by
    have hread : (match Invocation.ofArguments? ["gcode", "a.gbr"] with
        | .ok i => i.task.makesPrograms
        | .error _ => true) = true := by
      decide +kernel
    intro i hi
    rwa [hi] at hread
  have hending : watched.1.1 = .failed ⟨5, "unknown aperture D10 (line 1)"⟩ := by decide +kernel
  have hrefused : watched.1.2 = [] := by decide +kernel
  have hcode : watched.1.1.code ≠ 0 := by
    rw [hending]
    decide
  exact ⟨hending, hrefused, (Ending.failure_keeps_files _ htask tree).2 hcode hrefused⟩

end UnknownAperture

end BoardMill
