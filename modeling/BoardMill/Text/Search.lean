/-! # Searching in texts

Where one text occurs in another: at all, first or last.
-/

namespace BoardMill.Text

/-- Whether a pattern occurs in a text. -/
def contains (pattern : List Char) : List Char → Bool
  | [] => pattern.isEmpty
  | c :: rest => pattern.isPrefixOf (c :: rest) || contains pattern rest

/-- What stands before the first occurrence of a pattern. -/
def beforeFirst? (pattern : List Char) : List Char → Option (List Char)
  | [] => if pattern.isEmpty then some [] else none
  | c :: rest =>
    if pattern.isPrefixOf (c :: rest) then some []
    else (beforeFirst? pattern rest).map (c :: ·)

/-- What stands behind the last occurrence of a pattern. -/
def behindLast? (pattern : List Char) : List Char → Option (List Char)
  | [] => if pattern.isEmpty then some [] else none
  | c :: rest =>
    match behindLast? pattern rest with
    | some behind => some behind
    | none =>
      if pattern.isPrefixOf (c :: rest) then some ((c :: rest).drop pattern.length) else none

/-- What stands behind the last occurrence of a character, or the whole text. -/
def lastPart (mark : Char) (text : List Char) : List Char :=
  (text.reverse.takeWhile (· != mark)).reverse

end BoardMill.Text
