import LocatedHtml.Text.Blank

/-!
The indentation of a text. Its lines lose the margin that they have in common, which is made of spaces
and tabs, and get another one. Lines of blanks have no part in the margin and become empty.
-/

namespace LocatedHtml

/-- A character that margins are made of. -/
def isMarginChar (c : Char) : Bool := c = ' ' || c = '\t'

/-- The longest text that both texts start with. -/
def commonStart : Text → Text → Text
  | a :: s, b :: t => if a = b then a :: commonStart s t else []
  | _, _ => []

/-- The spaces and tabs that a line starts with. -/
def lead (line : Text) : Text := line.takeWhile isMarginChar

/-- The longest margin that all lines have, lines of nothing but spaces and tabs left out. -/
def margin (lines : List Text) : Text :=
  match (lines.filter fun line => !line.all isMarginChar).map lead with
  | [] => []
  | first :: rest => rest.foldl commonStart first

/-- A line without the margin; a line of spaces and tabs is emptied. -/
def dropMargin (margin line : Text) : Text :=
  if line.all isMarginChar then [] else (Text.dropStart? margin line).getD line

/-- The text with its lines moved to the left as far as they go together. -/
def dedent (t : Text) : Text :=
  let lines := Text.lines t
  Text.joinLines (lines.map (dropMargin (margin lines)))

/-- The text without the newlines at its two ends. -/
def stripNewlines (t : Text) : Text :=
  ((t.dropWhile (· == '\n')).reverse.dropWhile (· == '\n')).reverse

/-- The text on its own lines, its common margin replaced by two spaces a level; the last line ends in
a newline. -/
def reindent (levels : Nat) (t : Text) : Text :=
  let indent := List.replicate (2 * levels) ' '
  let lines := Text.lines (stripNewlines (dedent t))
  Text.joinLines (lines.map fun line => if line.all isBlank then [] else indent ++ line) ++ ['\n']

end LocatedHtml
