import LocatedHtml.Text.Digits
import LocatedHtml.Text.Unprintable

/-!
A text quoted for a message: in single quotes unless only double quotes leave it readable, with
backslash escapes for what would not show.
-/

namespace LocatedHtml

namespace Text

/-- A single quote, or a double quote for a text with single quotes and no double ones. -/
def quoteMark (t : Text) : Char :=
  if t.contains '\'' && !t.contains '"' then '"' else '\''

/-- The form of one character between two `mark`s: the shortest escape that its number fits. -/
def quotedChar (mark c : Char) : Text :=
  let n := c.toNat
  if c = mark || c = '\\' then ['\\', c]
  else if c = '\n' then ['\\', 'n']
  else if c = '\r' then ['\\', 'r']
  else if c = '\t' then ['\\', 't']
  else if !isUnprintable c then [c]
  else if n < 0x100 then '\\' :: 'x' :: hexDigits 2 n
  else if n < 0x10000 then '\\' :: 'u' :: hexDigits 4 n
  else '\\' :: 'U' :: hexDigits 8 n

/-- The text between quotes, on one line. -/
def quoted (t : Text) : Text :=
  t.quoteMark :: t.flatMap (quotedChar t.quoteMark) ++ [t.quoteMark]

end Text

/-- A name, an address or the like between quotes. -/
def quotedString (s : String) : String := String.ofList (Text.quoted s.toList)

end LocatedHtml
