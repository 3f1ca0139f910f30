/-! # Rows of pixels

The pixels of a row that are copper are kept as one number: the binary digit of value
`2 ^ x` belongs to pixel `x`. Rows are joined and cut digit by digit.
-/

namespace BoardMill

/-- Some of the pixels of a row. -/
abbrev PixelRow := Nat

namespace PixelRow

/-- No pixels. -/
def empty : PixelRow := 0

/-- Whether a pixel is there. -/
def contains (row : PixelRow) (x : Nat) : Bool := row.testBit x

/-- The pixels from one on to the right edge. -/
def onward (width first : Nat) : PixelRow :=
  if first < width then ((1 <<< (width - first)) - 1) <<< first else 0

/-- The pixels from one on up to another one, which is not there. -/
def between (width first behind : Nat) : PixelRow :=
  if first < behind then onward width first ^^^ onward width behind else 0

/-- The pixels of a row that another one does not have. -/
def without (row hole : PixelRow) : PixelRow := (row ||| hole) ^^^ hole

end PixelRow

end BoardMill
