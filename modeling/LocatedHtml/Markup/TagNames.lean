/-!
The tag names to which HTML gives a meaning of its own.
-/

namespace LocatedHtml

/-- Elements that have no content and no end tag. -/
def voidNames : List String := [
  "area", "base", "basefont", "bgsound", "br", "col", "command", "embed", "frame", "hr", "image",
  "img", "input", "isindex", "keygen", "link", "menuitem", "meta", "nextid", "param", "source",
  "spacer", "track", "wbr"]

/-- Elements whose text is written without escapes. -/
def verbatimNames : List String := [
  "script", "style", "xmp", "iframe", "noembed", "noframes", "plaintext", "noscript"]

/-- Elements whose content is read as text up to their end tag. -/
def rawTextNames : List String := ["script", "style"]

/-- Elements that stay in the head when they come before the body. -/
def headContentNames : List String := [
  "base", "basefont", "bgsound", "link", "meta", "noscript", "script", "style", "template", "title"]

/-- True of an element without content. -/
def isVoid (name : String) : Bool := voidNames.contains name

/-- True of an element whose text is written without escapes. -/
def isVerbatim (name : String) : Bool := verbatimNames.contains name

/-- True of an element whose content is read as text. -/
def isRawText (name : String) : Bool := rawTextNames.contains name

theorem isRawText_iff {name : String} : isRawText name = true ↔ name = "script" ∨ name = "style" := by
  rw [isRawText, List.contains_iff_mem]
  simp only [rawTextNames, List.mem_cons, List.not_mem_nil, or_false]

theorem isVoid_of_isRawText {name : String} (raw : isRawText name = true) : isVoid name = false := by
  rcases isRawText_iff.1 raw with rfl | rfl <;> decide

end LocatedHtml
