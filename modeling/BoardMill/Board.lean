import BoardMill.Layer

/-! # Boards

A board is made of layers in the order in which they are machined, and of the box
that covers them all. Every layer is shifted by the same corner of that box, so
that the layers fit onto each other.
-/

namespace BoardMill

/-- The layers of a board and the box that covers them. -/
structure Board (α : Type) where
  layers : List (Layer α)
  bounds : Box α
  deriving BEq, Repr

namespace Layer

variable {α : Type}

/-- Layers are machined in the order of their kinds, those of one kind in the order of
their names. -/
def order (a b : Layer α) : Ordering := (a.kind.order b.kind).then (compare a.name b.name)

/-- Layers in the order in which they are machined. -/
def sorted (layers : List (Layer α)) : List (Layer α) :=
  layers.mergeSort fun a b => order a b != .gt

/-- The suffix of a layer that is the one of a number among those of its kind. -/
def suffixAt (kind : LayerKind) (number : Nat) : String :=
  if number = 1 then kind.suffix else s!"{kind.suffix}-{number}"

/-- The notice on a layer that follows one of the same kind. -/
def repeatNotice (earlier later : Layer α) : Notice :=
  ⟨.warning, s!"Board: {earlier.name} and {later.name} are both {later.kind.suffix}, " ++
    s!"writing the second as {later.suffix}"⟩

/-- Numbers the layers behind a layer of a number, as long as they are of its kind, and
starts again from one at every other kind. -/
def numberFrom (earlier : Layer α) (number : Nat) : List (Layer α) → Noting (List (Layer α))
  | [] => return []
  | l :: rest => do
    let number := if l.kind = earlier.kind then number + 1 else 1
    let l := { l with suffix := suffixAt l.kind number }
    if number ≠ 1 then
      NotingT.note [repeatNotice earlier l]
    return l :: (← numberFrom l number rest)

/-- Gives every layer of a sorted list a suffix of its own. -/
def number : List (Layer α) → Noting (List (Layer α))
  | [] => return []
  | l :: rest => return l :: (← numberFrom l 1 rest)

end Layer

namespace Board

variable {α : Type}

/-- The box that covers all layers. -/
def cover [Scalar α] (layers : List (Layer α)) : Except Fault (Box α) :=
  layers.foldlM (fun box l => return box.cover (← l.bounds)) .empty

/-- The board of some layers. -/
def ofLayers [Scalar α] (layers : List (Layer α)) : Noting (Board α) := do
  let layers ← Layer.number (Layer.sorted layers)
  return { layers, bounds := ← NotingT.ofExcept (cover layers) }

variable [Numeral α]

/-- The sink that a layer of the board is written to. -/
def sink (b : Board α) (machine : Machine α) (room : Option Nat) : GCode.Sink α :=
  .start machine b.bounds.toOrigin room

/-- The notice on a layer that was written. -/
def writtenNotice (l : Layer α) (lines : Nat) : Notice :=
  ⟨.info, s!"Board: {l.name} -> {lines} lines"⟩

section Writers

variable {m : Type → Type} [Monad m] {w : Type} (b : Board α) (machine : Machine α)
  (room : Option Nat) (openFor : Layer α → m (Except Fault w))
  (store : w → GCode.Tape → m (Except Fault w))

/-- Writes the program of a layer to a writer that is opened for it, and hands the writer
back. What a program wrote before it failed is stored as well. -/
def writeLayer (l : Layer α) : NotingT m w := do
  let writer ← NotingT.ofExcept (← (openFor l : m _))
  let (result, sink) := l.write (b.sink machine room)
  let writer ← NotingT.ofExcept (← (store writer sink.tape : m _))
  NotingT.ofExcept result
  NotingT.note [writtenNotice l sink.lines]
  return writer

/-- Writes the programs of all layers one after the other, and hands back their writers. -/
def generate : NotingT m (List w) := b.layers.mapM (b.writeLayer machine room openFor store)

end Writers

end Board

end BoardMill
