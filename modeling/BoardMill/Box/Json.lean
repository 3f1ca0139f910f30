import BoardMill.Box
import BoardMill.Decimal.Power
import BoardMill.Decimal.Shortest

/-! # Boxes as JSON

A box is written as an object with its four sides, rounded to six places. A side
that is no finite number is written as `null`.
-/

namespace BoardMill.Box

/-- A side as it is written. -/
def sideJson (x : Float) : String := (Decimal.compactText? (Scalar.roundTo x 6)).getD "null"

/-- The keys and values in their order. -/
def members (b : Box Float) : List (String × String) :=
  [("x_min", sideJson b.xMin), ("x_max", sideJson b.xMax),
   ("y_min", sideJson b.yMin), ("y_max", sideJson b.yMax)]

/-- An object without any space. -/
def compactJson (b : Box Float) : String :=
  let member (m : String × String) : String := "\"" ++ m.1 ++ "\":" ++ m.2
  "\x7b" ++ ",".intercalate (b.members.map member) ++ "\x7d"

/-- An object with a member on each line. -/
def prettyJson (b : Box Float) : String :=
  let member (m : String × String) : String := "  \"" ++ m.1 ++ "\": " ++ m.2
  "\x7b\n" ++ ",\n".intercalate (b.members.map member) ++ "\n\x7d"

end BoardMill.Box
