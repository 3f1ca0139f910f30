import BoardMill.CommandLine.Run
import Mathlib.Tactic.Choose

/-! # How tasks fail

What a task does to the file system is up to the monad it runs in. With which failures it
can end is not: it ends with those of its steps.
-/

namespace BoardMill.Running

variable {m : Type → Type} [Monad m] {β γ : Type} {P : Failure → Prop}

/-- A task ends with no other failures than some: it does the same as one that hands out its
failures together with the proof that they are such. -/
def FailsOnly (P : Failure → Prop) (task : Running m β) : Prop :=
  ∃ proven : m (Except {failure // P failure} β),
    task.run = Except.mapError Subtype.val <$> proven

section Lawful

variable [LawfulMonad m]

theorem FailsOnly.pure (value : β) : FailsOnly P (Pure.pure value : Running m β) :=
  ⟨Pure.pure (.ok value), by rw [map_pure]; rfl⟩

theorem FailsOnly.throw {failure : Failure} (h : P failure) :
    FailsOnly P (MonadExcept.throw failure : Running m β) :=
  ⟨Pure.pure (.error ⟨failure, h⟩), by rw [map_pure]; rfl⟩

theorem FailsOnly.lift (effect : m β) : FailsOnly P (liftM effect : Running m β) := by
  refine ⟨.ok <$> effect, ?_⟩
  rw [Functor.map_map]
  rfl

theorem FailsOnly.bind {task : Running m β} {next : β → Running m γ} (htask : FailsOnly P task)
    (hnext : ∀ value, FailsOnly P (next value)) : FailsOnly P (task >>= next) := by
  obtain ⟨proven, hproven⟩ := htask
  -- The proof of the second task depends on the value that the first one hands on.
  choose provenNext hprovenNext using hnext
  refine ⟨proven >>= fun
    | .ok value => provenNext value
    | .error failure => Pure.pure (.error failure), ?_⟩
  rw [ExceptT.run_bind, hproven, bind_map_left, map_bind]
  refine bind_congr fun result => ?_
  cases result with
  | ok value => exact hprovenNext value
  | error failure =>
      change _ = Except.mapError Subtype.val <$> (Pure.pure (.error failure) : m _)
      rw [map_pure]
      rfl

/-- A loop ends with the failures of its body. -/
theorem FailsOnly.forM {items : List β} {body : β → Running m PUnit}
    (hbody : ∀ item, FailsOnly P (body item)) : FailsOnly P (items.forM body) := by
  induction items with
  | nil => exact .pure _
  | cons item rest ih => exact (hbody item).bind fun _ => ih

/-- A result that is a fault ends the task with its failure. -/
theorem FailsOnly.ofFault {result : Except Fault β}
    (h : ∀ fault, result = .error fault → P (.ofFault fault)) :
    FailsOnly P (Running.ofFault result : Running m β) := by
  cases result with
  | ok value => exact .pure value
  | error fault => exact .throw (h fault rfl)

theorem ofFault_error_bind (fault : Fault) (next : β → Running m γ) :
    (ofFault (.error fault) >>= next : Running m γ) = throw (.ofFault fault) := by
  apply ExceptT.ext
  simp [ofFault]

theorem FailsOnly.optionForM {item : Option β} {body : β → Running m PUnit}
    (hbody : ∀ item, FailsOnly P (body item)) : FailsOnly P (item.forM body) := by
  cases item with
  | none => exact .pure _
  | some item => exact hbody item

variable [Files m]

theorem outputPicture_failsOnly (path : String) (bytes : ByteArray)
    (h : ∀ reason, P (.ofFault (.unrenderable reason))) :
    FailsOnly P (outputPicture path bytes : Running m Unit) := by
  refine (FailsOnly.lift _).bind fun result => ?_
  cases result with
  | ok _ => exact .pure _
  | error error => exact .throw (h _)

theorem makeDirectory_failsOnly (path : String)
    (h : ∀ reason, P (.ofFault (.fileAccess reason))) :
    FailsOnly P (makeDirectory path : Running m Unit) := by
  refine (FailsOnly.lift _).bind fun result => ?_
  cases result with
  | ok _ => exact .pure _
  | error error => exact .throw (h _)

end Lawful

end BoardMill.Running
