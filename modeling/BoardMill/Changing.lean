import BoardMill.Fault

/-! # Work in place

Some work changes a state as it goes, and what it changed before a fault stays changed.
Whether anything was changed before a fault is then a question of its own.
-/

namespace BoardMill

/-- Work that changes a state in place and may stop with a fault. -/
abbrev Changing (σ : Type) := ExceptT Fault (StateM σ)

namespace Changing

variable {σ β ι : Type}

/-- How some work ends, and the state behind it. -/
def outcome (x : Changing σ β) (s : σ) : Except Fault β × σ := x.run s

/-- Goes on with a result, or stops with its fault. Nothing is changed. -/
def check : Except Fault β → Changing σ β
  | .ok value => pure value
  | .error fault => throw fault

/-- The state behind the works for some items. A fault ends the work for its item only. -/
def persist (work : ι → Changing σ Unit) (s : σ) : List ι → σ
  | [] => s
  | item :: rest => persist work ((work item).outcome s).2 rest

end Changing

end BoardMill
