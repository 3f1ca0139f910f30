import BoardMill.Fault

/-! # Computations that leave notices

A job may fail at any point, and it may leave notices along the way. The notices
left before a failure stay.
-/

namespace BoardMill

/-- A computation that may fail and leaves notices, over effects of another kind. -/
abbrev NotingT (m : Type → Type) := ExceptT Fault (StateT (List Notice) m)

/-- A computation that may fail and leaves notices, without other effects. -/
abbrev Noting := NotingT Id

namespace NotingT

variable {m : Type → Type} [Monad m]

/-- Leaves notices. -/
def note (notices : List Notice) : NotingT m Unit := modify (· ++ notices)

/-- Goes on with a result, or fails with its fault. -/
def ofExcept {β : Type} : Except Fault β → NotingT m β
  | .ok value => pure value
  | .error fault => throw fault

/-- Runs from no notices on. -/
def outcome {β : Type} (x : NotingT m β) : m (Except Fault β × List Notice) := x.run.run []

end NotingT

namespace Noting

/-- Runs a computation without other effects among those that have some. -/
def lift {m : Type → Type} [Monad m] {β : Type} (x : Noting β) : NotingT m β := do
  let (result, notices) := x.outcome
  NotingT.note notices
  NotingT.ofExcept result

end Noting

end BoardMill
