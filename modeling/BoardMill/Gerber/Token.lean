import BoardMill.Decimal.Digits
import BoardMill.Text.Blank

/-! # Tokens of a Gerber text

Words end at a star; extended commands stand between percent signs and end at a
star too. Line feeds and carriage returns inside a token are dropped, and comments
are no tokens. A token has the line on which it starts, counted from one.
-/

namespace BoardMill.Gerber

/-- The two forms of commands. -/
inductive TokenKind where
  | extended
  | word
  deriving DecidableEq, Repr

/-- A command with its line. -/
structure Token where
  line : Nat
  kind : TokenKind
  text : List Char
  deriving DecidableEq, Repr

namespace Token

/-- Comments start with `G04`, or with `G4` and no further digit. -/
def isComment : List Char → Bool
  | 'G' :: '0' :: '4' :: _ => true
  | 'G' :: '4' :: rest => !(rest.head?.any Decimal.isDigit)
  | _ => false

/-- The token of a piece of text, last character first. Blanks around it do not
count, and nothing comes of an empty piece or a comment. -/
def ofPiece (line : Nat) (kind : TokenKind) (piece : List Char) : List Token :=
  let text := Text.trim piece.reverse
  if text.isEmpty || isComment text then [] else [{ line, kind, text }]

/-- Where a scan stands: between tokens, or in a token that started on a line and of
which a piece was read, last character first. -/
inductive Place where
  | between
  | inside (kind : TokenKind) (start : Nat) (piece : List Char)
  deriving DecidableEq, Repr

/-- Reads tokens from a place and a line on. -/
def scan : Place → Nat → List Char → List Token
  | .between, _, [] => []
  | .inside kind start piece, _, [] => ofPiece start kind piece
  | .between, line, c :: rest =>
    if c = '%' then scan (.inside .extended line []) line rest
    else if c = '\n' then scan .between (line + 1) rest
    else if c = '\r' ∨ c = ' ' ∨ c = '\t' ∨ c = '*' then scan .between line rest
    else scan (.inside .word line [c]) line rest
  | .inside .extended start piece, line, c :: rest =>
    if c = '%' then ofPiece start .extended piece ++ scan .between line rest
    else if c = '*' then
      ofPiece start .extended piece ++ scan (.inside .extended line []) line rest
    else if c = '\n' then
      -- A command that has not begun yet starts on the next line.
      let start := if (Text.trim piece.reverse).isEmpty then line + 1 else start
      scan (.inside .extended start piece) (line + 1) rest
    else if c = '\r' then scan (.inside .extended start piece) line rest
    else scan (.inside .extended start (c :: piece)) line rest
  | .inside .word start piece, line, c :: rest =>
    if c = '*' then ofPiece start .word piece ++ scan .between line rest
    else if c = '%' then
      ofPiece start .word piece ++ scan (.inside .extended line []) line rest
    else if c = '\n' then scan (.inside .word start piece) (line + 1) rest
    else if c = '\r' then scan (.inside .word start piece) line rest
    else scan (.inside .word start (c :: piece)) line rest

/-- All tokens of a text, in order. -/
def ofText (text : List Char) : List Token := scan .between 1 text

end Token

end BoardMill.Gerber
