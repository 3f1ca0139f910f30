/-! # Slices of texts

Positions in a text count bytes, and characters take up to four of them. A text can be cut at its
ends and between two characters, but not inside of one and not behind its end. Work that cuts a text
elsewhere, or that takes an item that a list does not have, breaks down there.
-/

namespace BoardMill

/-- Why work on texts ends early: it is refused for a reason of its own, or it breaks down at a
misplaced cut. -/
inductive Halt (ε : Type) where
  | refused (reason : ε)
  | misplacedCut (text : List Char) (position : Nat)
  | missingItem (length index : Nat)
  deriving Repr

/-- Work that cuts texts. -/
abbrev Slicing (ε : Type) := Except (Halt ε)

namespace Slicing

variable {ε β : Type}

/-- The outcome of work that has nothing to cut. -/
def sure : Except ε β → Slicing ε β
  | .ok value => pure value
  | .error reason => throw (.refused reason)

/-- Refuses to go on. -/
def refuse (reason : ε) : Slicing ε β := throw (.refused reason)

/-- Work with its reasons told in another way. -/
def restate {ε' : Type} (f : ε → ε') : Slicing ε β → Slicing ε' β
  | .ok value => pure value
  | .error (.refused reason) => refuse (f reason)
  | .error (.misplacedCut text position) => throw (.misplacedCut text position)
  | .error (.missingItem length index) => throw (.missingItem length index)

/-! ## Cuts -/

/-- How many bytes a text takes. -/
def byteLength : List Char → Nat
  | [] => 0
  | c :: rest => c.utf8Size + byteLength rest

/-- The two parts of a text that can be cut at a position. -/
def splitAt? : Nat → List Char → Option (List Char × List Char)
  | 0, text => some ([], text)
  | _ + 1, [] => none
  | position + 1, c :: rest =>
    if c.utf8Size ≤ position + 1 then
      (splitAt? (position + 1 - c.utf8Size) rest).map fun (front, back) => (c :: front, back)
    else none

theorem eq_append_of_splitAt? {position : Nat} {text front back : List Char}
    (h : splitAt? position text = some (front, back)) :
    text = front ++ back ∧ byteLength front = position := by
  fun_induction splitAt? position text generalizing front back with
  | case1 text =>
    cases h
    exact ⟨rfl, rfl⟩
  | case2 => cases h
  | case3 position c rest hsize ih =>
    obtain ⟨⟨front, back⟩, hrest, hparts⟩ := Option.map_eq_some_iff.mp h
    cases hparts
    obtain ⟨rfl, hlength⟩ := ih hrest
    refine ⟨rfl, ?_⟩
    rw [byteLength, hlength, Nat.add_sub_cancel' hsize]
  | case4 => cases h

/-- The part of a text in front of a position. -/
def before (position : Nat) (text : List Char) : Slicing ε (List Char) :=
  match splitAt? position text with
  | some (front, _) => pure front
  | none => throw (.misplacedCut text position)

/-- The part of a text from a position on. -/
def behind (position : Nat) (text : List Char) : Slicing ε (List Char) :=
  match splitAt? position text with
  | some (_, back) => pure back
  | none => throw (.misplacedCut text position)

theorem length_behind_lt {position : Nat} {text rest : List Char}
    (h : (behind (position + 1) text : Slicing ε (List Char)) = .ok rest) :
    rest.length < text.length := by
  unfold behind at h
  split at h
  next front back hsplit =>
    cases h
    obtain ⟨rfl, hlength⟩ := eq_append_of_splitAt? hsplit
    cases front with
    | nil => cases hlength
    | cons c front =>
      rw [List.length_append, List.length_cons]
      omega
  next => cases h

/-- The part of a text from one position to another. -/
def between (start stop : Nat) (text : List Char) : Slicing ε (List Char) := do
  behind start (← before stop text)

/-- The item of a list at an index. -/
def item (list : List β) (index : Nat) : Slicing ε β :=
  match list[index]? with
  | some value => pure value
  | none => throw (.missingItem list.length index)

/-- The items of a list from an index on. -/
def items (list : List β) (index : Nat) : Slicing ε (List β) :=
  if index ≤ list.length then pure (list.drop index) else throw (.missingItem list.length index)

/-! ## Positions -/

/-- The position of the first character of a kind. -/
def find? (p : Char → Bool) : List Char → Option Nat
  | [] => none
  | c :: rest => if p c then some 0 else (find? p rest).map (c.utf8Size + ·)

/-- The position of the first occurrence of a pattern. -/
def findFirst? (pattern : List Char) : List Char → Option Nat
  | [] => if pattern.isEmpty then some 0 else none
  | c :: rest =>
    if pattern.isPrefixOf (c :: rest) then some 0
    else (findFirst? pattern rest).map (c.utf8Size + ·)

/-- The position of the last occurrence of a pattern. -/
def findLast? (pattern : List Char) : List Char → Option Nat
  | [] => if pattern.isEmpty then some 0 else none
  | c :: rest =>
    match findLast? pattern rest with
    | some position => some (c.utf8Size + position)
    | none => if pattern.isPrefixOf (c :: rest) then some 0 else none

end Slicing

end BoardMill
