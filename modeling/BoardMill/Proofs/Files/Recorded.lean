import BoardMill.CommandLine.Run
import BoardMill.Files.Tree

/-! # Recorded writing

A record tells which files a computation writes, with their bytes and in their order. Keeping one
changes neither what the computation comes to nor what it does to the file tree.
-/

namespace BoardMill

/-- The files that were written, under their paths. -/
abbrev Record := List (String × ByteArray)

/-- Effects on files, together with a record of what was written. -/
abbrev Recorded (m : Type → Type) := StateT Record m

namespace Recorded

section

variable {m : Type → Type} [Monad m] [Files m]

instance : Files (Recorded m) where
  isPresent path := liftM (Files.isPresent path : m _)
  isDirectory path := liftM (Files.isDirectory path : m _)
  read path := liftM (Files.read path : m _)
  write path bytes := do
    modify (· ++ [(path, bytes)])
    liftM (Files.write path bytes : m _)
  makeDirectory path := liftM (Files.makeDirectory path : m _)

end

variable {β γ : Type} {P : β → Record → Prop} {Q : γ → Record → Prop}

/-- Two computations, the first one with a record, that do the same to the tree and come to the
same, with a property of that and of what is written on the way. -/
def Records (P : β → Record → Prop) (recorded : Recorded (StateM FileTree) β)
    (plain : StateM FileTree β) : Prop :=
  ∀ record tree, ∃ value new after,
    (recorded.run record).run tree = ((value, record ++ new), after) ∧
    plain.run tree = (value, after) ∧ P value new

namespace Records

theorem pure {value : β} (h : P value []) : Records P (Pure.pure value) (Pure.pure value) :=
  fun record tree => ⟨value, [], tree, by rw [List.append_nil]; rfl, rfl, h⟩

theorem lift (effect : StateM FileTree β) :
    Records (fun _ new => new = []) (liftM effect) effect := fun record tree =>
  ⟨(effect.run tree).1, [], (effect.run tree).2, by rw [List.append_nil]; rfl, rfl, rfl⟩

theorem write (path : String) (bytes : ByteArray) :
    Records (fun _ new => new = [(path, bytes)]) (Files.write path bytes)
      (Files.write path bytes) := fun _ tree =>
  let written := (Files.write path bytes : StateM FileTree _).run tree
  ⟨written.1, [(path, bytes)], written.2, rfl, rfl, rfl⟩

theorem bind {recorded : Recorded (StateM FileTree) β} {plain : StateM FileTree β}
    {recordedNext : β → Recorded (StateM FileTree) γ} {plainNext : β → StateM FileTree γ}
    (h : Records P recorded plain)
    (hnext : ∀ value new, P value new →
      Records (fun last more => Q last (new ++ more)) (recordedNext value) (plainNext value)) :
    Records Q (recorded >>= recordedNext) (plain >>= plainNext) := by
  intro record tree
  obtain ⟨value, new, after, hrecorded, hplain, hvalue⟩ := h record tree
  rw [StateT.run_bind, StateT.run_bind, StateT.run_bind, hrecorded, hplain]
  obtain ⟨last, more, later, hrecordedNext, hplainNext, hlast⟩ :=
    hnext value new hvalue (record ++ new) after
  exact ⟨last, new ++ more, later, by rw [← List.append_assoc]; exact hrecordedNext, hplainNext,
    hlast⟩

theorem mono {recorded : Recorded (StateM FileTree) β} {plain : StateM FileTree β}
    {P' : β → Record → Prop} (h : Records P recorded plain)
    (hP : ∀ value new, P value new → P' value new) : Records P' recorded plain := by
  intro record tree
  obtain ⟨value, new, after, hrecorded, hplain, hvalue⟩ := h record tree
  exact ⟨value, new, after, hrecorded, hplain, hP value new hvalue⟩

end Records

/-! ## Directories -/

/-- Nothing is written on the way. -/
abbrev Quiet (recorded : Recorded (StateM FileTree) β) (plain : StateM FileTree β) : Prop :=
  Records (fun _ new => new = []) recorded plain

theorem Quiet.bind {recorded : Recorded (StateM FileTree) β} {plain : StateM FileTree β}
    {recordedNext : β → Recorded (StateM FileTree) γ} {plainNext : β → StateM FileTree γ}
    (h : Quiet recorded plain) (hnext : ∀ value, Quiet (recordedNext value) (plainNext value)) :
    Quiet (recorded >>= recordedNext) (plain >>= plainNext) := by
  refine Records.bind h fun value new hnew => ?_
  subst hnew
  exact hnext value

theorem keepDirectory_quiet (path : String) :
    Quiet (Files.keepDirectory path) (Files.keepDirectory path) := by
  refine Quiet.bind (.lift _) fun result => ?_
  cases result with
  | ok _ => exact .pure rfl
  | error error => exact Quiet.bind (.lift _) fun _ => .pure rfl

theorem makeUpward_quiet (paths : List String) :
    Quiet (Files.makeUpward paths) (Files.makeUpward paths) := by
  induction paths with
  | nil => exact .pure rfl
  | cons path above ih =>
      refine Quiet.bind (keepDirectory_quiet path) fun result => ?_
      rcases result with (_ | _ | _ | _ | _ | _ | _) | _
      case error.notFound =>
        refine Quiet.bind ih fun made => ?_
        cases made with
        | ok _ => exact keepDirectory_quiet path
        | error error => exact .pure rfl
      all_goals exact .pure rfl

/-! ## Tasks -/

/-- What is written by a task that comes through. -/
abbrev TaskRecords (P : β → Record → Prop) (recorded : Running (Recorded (StateM FileTree)) β)
    (plain : Running (StateM FileTree) β) : Prop :=
  Records (fun result new => ∀ value, result = .ok value → P value new) recorded.run plain.run

namespace TaskRecords

theorem pure {value : β} (h : P value []) :
    TaskRecords P (Pure.pure value) (Pure.pure value) :=
  Records.pure fun _ hvalue => by cases hvalue; exact h

theorem throw (failure : Failure) :
    TaskRecords P (MonadExcept.throw failure) (MonadExcept.throw failure) :=
  Records.pure nofun

theorem bind {recorded : Running (Recorded (StateM FileTree)) β}
    {plain : Running (StateM FileTree) β}
    {recordedNext : β → Running (Recorded (StateM FileTree)) γ}
    {plainNext : β → Running (StateM FileTree) γ} (h : TaskRecords P recorded plain)
    (hnext : ∀ value new, P value new →
      TaskRecords (fun last more => Q last (new ++ more)) (recordedNext value) (plainNext value)) :
    TaskRecords Q (recorded >>= recordedNext) (plain >>= plainNext) := by
  unfold TaskRecords
  rw [ExceptT.run_bind, ExceptT.run_bind]
  refine Records.bind h fun result new hresult => ?_
  cases result with
  | ok value => exact hnext value new (hresult value rfl)
  | error failure => exact .pure nofun

theorem ofFault (result : Except Fault β) :
    TaskRecords (fun value new => result = .ok value ∧ new = []) (Running.ofFault result)
      (Running.ofFault result) := by
  cases result with
  | ok value => exact .pure ⟨rfl, rfl⟩
  | error fault => exact .throw _

theorem lift {recorded : Recorded (StateM FileTree) β} {plain : StateM FileTree β}
    (h : Records P recorded plain) : TaskRecords P (liftM recorded) (liftM plain) :=
  Records.bind h fun value new hvalue => .pure fun _ heq => by
    cases heq
    rwa [List.append_nil]

theorem outputPicture (path : String) (bytes : ByteArray) :
    TaskRecords (fun _ new => new = [(path, bytes)]) (Running.outputPicture path bytes)
      (Running.outputPicture path bytes) := by
  refine bind (lift (.write path bytes)) fun result new hnew => ?_
  cases result with
  | ok _ => exact .pure (by rw [hnew]; rfl)
  | error error => exact .throw _

theorem makeDirectory (path : String) :
    TaskRecords (fun _ new => new = []) (Running.makeDirectory path)
      (Running.makeDirectory path) := by
  refine bind (lift (makeUpward_quiet _)) fun result new hnew => ?_
  cases result with
  | ok _ => exact .pure (by rw [hnew]; rfl)
  | error error => exact .throw _

/-- A loop writes what its steps write, one after the other. -/
theorem forM {written : γ → Record} {recorded : γ → Running (Recorded (StateM FileTree)) PUnit}
    {plain : γ → Running (StateM FileTree) PUnit}
    (h : ∀ item, TaskRecords (fun _ new => new = written item) (recorded item) (plain item))
    (items : List γ) :
    TaskRecords (fun _ new => new = items.flatMap written) (items.forM recorded)
      (items.forM plain) := by
  induction items with
  | nil => exact .pure rfl
  | cons item rest ih =>
      refine bind (h item) fun _ new hnew => ih.mono fun result more hmore value hvalue => ?_
      rw [hnew, hmore value hvalue]
      rfl

end TaskRecords

end Recorded

end BoardMill
