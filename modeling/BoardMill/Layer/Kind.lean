/-! # Layers of a board

The part that a fabrication file plays for a board. Copper, outline and drills are
machined, the rest is not.
-/

namespace BoardMill

/-- What a fabrication file describes. Inner copper is told apart by name. -/
inductive LayerKind where
  | copperTop
  | copperBottom
  | copperInner (name : String)
  | outline
  | drills
  /-- Silk screen, mask, paste and whatever else is not machined. -/
  | other
  deriving DecidableEq, Repr

namespace LayerKind

/-- The part of an output name that tells the layer. -/
def suffix : LayerKind → String
  | copperTop => "F_Cu"
  | copperBottom => "B_Cu"
  | copperInner name => name ++ "_Cu"
  | outline => "Edge_Cuts"
  | drills => "drl"
  | other => "other"

/-- Whether the layer is machined. -/
def isMachined (kind : LayerKind) : Bool := kind != other

/-- Position of a kind in a job, from top copper to drills. -/
def rank : LayerKind → Nat
  | copperTop => 0
  | copperBottom => 1
  | copperInner _ => 2
  | outline => 3
  | drills => 4
  | other => 5

/-- The name that tells layers of one rank apart. -/
def innerName : LayerKind → String
  | copperInner name => name
  | _ => ""

/-- Kinds are ordered by rank, inner copper by name. -/
def order (a b : LayerKind) : Ordering :=
  (compare a.rank b.rank).then (compare a.innerName b.innerName)

end LayerKind

end BoardMill
