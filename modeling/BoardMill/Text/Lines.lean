/-! # Lines

A line ends at a line feed or at the end of the text; a carriage return before
the line feed belongs to the ending. Nothing follows the last line feed.
-/

namespace BoardMill.Text

/-- A line without the carriage return of its ending. -/
def withoutReturn (line : List Char) : List Char :=
  match line.getLast? with
  | some '\r' => line.dropLast
  | _ => line

/-- The pieces that end with a mark, without it, and the rest behind the last mark
if there is any. The flag tells whether the mark was there. -/
def terminated {α : Type} [BEq α] (mark : α) (text : List α) : List (List α × Bool) :=
  match (text.splitOn mark).reverse with
  | [] => []
  | last :: before =>
    (before.reverse.map (·, true)) ++ if last.isEmpty then [] else [(last, false)]

/-- The lines of a text. -/
def lines (text : List Char) : List (List Char) :=
  (terminated '\n' text).map fun (line, ended) => if ended then withoutReturn line else line

end BoardMill.Text
