import LocatedHtml.Markup.TagNames

/-!
End tags that may be left out: which open elements a start tag closes before it opens its own.
-/

namespace LocatedHtml

/-- A start tag closes the nearest open element that is one of `closes`, unless one of `stopsAt` is
nearer. With `innermostOnly` no element but the innermost one is looked at. -/
structure ClosingRule where
  closes : List String
  stopsAt : List String
  innermostOnly : Bool
  deriving DecidableEq, Repr

namespace ClosingRule

/-- Elements from inside of which no paragraph around them is closed. -/
def paragraphBoundaries : List String := [
  "applet", "button", "caption", "marquee", "object", "table", "td", "template", "th"]

/-- Elements from inside of which no list item around them is closed. -/
def itemBoundaries : List String := [
  "menu", "ol", "table", "td", "template", "th", "ul", "button"]

/-- Elements that close a paragraph and nothing else. -/
def paragraphClosers : List String := [
  "address", "article", "aside", "blockquote", "center", "details", "dialog", "dir", "div", "dl",
  "fieldset", "figcaption", "figure", "footer", "form", "h1", "h2", "h3", "h4", "h5", "h6",
  "header", "hgroup", "hr", "listing", "main", "menu", "nav", "ol", "p", "pre", "section",
  "summary", "table", "ul", "xmp"]

/-- A paragraph is closed. -/
def paragraph : ClosingRule := ⟨["p"], paragraphBoundaries, false⟩

/-- A list item is closed. -/
def listItem : ClosingRule := ⟨["li"], itemBoundaries, false⟩

/-- A term or its description is closed. -/
def descriptionItem : ClosingRule := ⟨["dd", "dt"], "dl" :: itemBoundaries, false⟩

/-- The option in which the new element would stand is closed. -/
def choice : ClosingRule := ⟨["option"], [], true⟩

/-- The group of options in which the new element would stand is closed. -/
def choiceGroup : ClosingRule := ⟨["optgroup"], [], true⟩

/-- A row is closed. -/
def row : ClosingRule := ⟨["tr"], ["table", "tbody", "thead", "tfoot"], false⟩

/-- A cell is closed. -/
def cell : ClosingRule := ⟨["td", "th"], ["tr", "table"], false⟩

/-- A group of rows is closed. -/
def rowGroup : ClosingRule := ⟨["thead", "tbody", "tfoot"], ["table"], false⟩

/-- The rules of a start tag, in the order in which they are applied. -/
def rulesFor (name : String) : List ClosingRule :=
  match name with
  | "li" => [listItem, paragraph]
  | "dd" | "dt" => [descriptionItem, paragraph]
  | "option" => [choice]
  | "optgroup" => [choice, choiceGroup]
  | "tr" => [row]
  | "td" | "th" => [cell]
  | "tbody" | "thead" | "tfoot" => [rowGroup]
  | _ => if paragraphClosers.contains name then [paragraph] else []

/-- How many of the open elements, given by name from the innermost one, the rule closes. -/
def count (rule : ClosingRule) : List String → Nat
  | [] => 0
  | name :: outer =>
    if rule.closes.contains name then 1
    else if rule.innermostOnly || rule.stopsAt.contains name then 0
    else match count rule outer with
      | 0 => 0
      | n + 1 => n + 2

end ClosingRule

end LocatedHtml
