import LocatedHtml.Text.Basic

/-!
How texts and attribute values are written in markup: the three characters that would start markup
and the no-break space become character references, and a value stands between the quotes that leave
most of it as it is.
-/

namespace LocatedHtml

/-- A character of a text as it is written in markup. -/
def escapeChar (c : Char) : Text :=
  if c = '&' then "&amp;".toList
  else if c = '<' then "&lt;".toList
  else if c = '>' then "&gt;".toList
  else if c = '\u00a0' then "&nbsp;".toList
  else [c]

/-- A text as it is written in markup. -/
def escapeText (t : Text) : Text := t.flatMap escapeChar

/-- A character of a value that stands between double quotes although it holds some. -/
def escapeQuotedChar (c : Char) : Text := if c = '"' then "&quot;".toList else escapeChar c

/-- An attribute value with its quotes: double ones, unless the value holds only double ones. -/
def quotedValue (t : Text) : Text :=
  if !t.contains '"' then '"' :: escapeText t ++ ['"']
  else if !t.contains '\'' then '\'' :: escapeText t ++ ['\'']
  else '"' :: t.flatMap escapeQuotedChar ++ ['"']

end LocatedHtml
