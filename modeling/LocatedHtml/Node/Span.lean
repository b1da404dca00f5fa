import LocatedHtml.Markup.Written
import LocatedHtml.Span

/-!
The span of a node in its file. A location says where a node starts; where it ends is told by its end
tag, else by its last child, else by the length of what would be written for it. Written forms differ
from sources in quotes and blanks, and so may spans that rest on them.
-/

namespace LocatedHtml

namespace Node

/-- The width of the end tag of a node, which for a node without a name is only its brackets. -/
def endTagWidth (node : Node) : Nat :=
  match node.content.elementName? with
  | some name => name.length + 3
  | none => 3

/-- The width of a start tag without attributes; a node without a name has none. -/
def startTagWidth (node : Node) : Nat :=
  match node.content.elementName? with
  | some name => if name = "" then 0 else name.length + 2
  | none => 0

end Node

namespace Tree

/-- The span that a tree has by the length of its written content. -/
def writtenSpan? (file : String) (t : HtmlTree) : Option Span :=
  t.value.location.map fun location =>
    ⟨file, location.position, (location.position.shift t.value.startTagWidth).after t.innerHtml⟩

/-- The span of a tree that does not end with its last child. -/
def ownSpan? (file : String) (t : HtmlTree) : Option Span :=
  match t.value.location, t.value.content with
  | none, _ => none
  | some (.plain extent), .comment value =>
    some ⟨file, extent.position, extent.position.after (writtenComment value)⟩
  | some (.plain extent), .text value =>
    some ⟨file, extent.position, extent.position.after value⟩
  | some _, .comment _ => none
  | some _, .text _ => none
  | some location, _ =>
    match location.endTag? with
    | some endTag => some ⟨file, location.position, endTag.position.shift t.value.endTagWidth⟩
    | none => t.writtenSpan? file

/-- The child with which a located node without an end tag ends. -/
def lastChild? (t : HtmlTree) : Option HtmlTree :=
  match t.value.location with
  | none => none
  | some location =>
    if t.value.content.isComment || t.value.content.isText || location.isClosed then none
    else t.children.getLast?

theorem mem_children_of_lastChild? {t c : HtmlTree} (h : t.lastChild? = some c) :
    c ∈ t.children := by
  unfold lastChild? at h
  split at h
  · simp at h
  · split at h
    · simp at h
    · exact List.mem_of_getLast? h

/-- The way down from `t` through last children, innermost first on top of `above`, and the tree at
its end. -/
def lastChildren (above : List HtmlTree) (t : HtmlTree) : List HtmlTree × HtmlTree :=
  match _h : t.lastChild? with
  | none => (above, t)
  | some c => lastChildren (t :: above) c
termination_by t.size
decreasing_by exact size_lt_of_mem_children (mem_children_of_lastChild? _h)

theorem lastChildren_alone {t : HtmlTree} (alone : t.lastChild? = none) (above : List HtmlTree) :
    lastChildren above t = (above, t) := by
  rw [lastChildren]
  split
  · rfl
  · next c last =>
    rw [alone] at last
    cases last

theorem lastChildren_last {t c : HtmlTree} (last : t.lastChild? = some c) (above : List HtmlTree) :
    lastChildren above t = lastChildren (t :: above) c := by
  rw [lastChildren]
  split
  · next alone =>
    rw [last] at alone
    cases alone
  · next d same =>
    rw [last] at same
    cases same
    rfl

/-- A span found below `t` made to start with `t`; without one, the span of the written content. -/
def widen (file : String) (found : Option Span) (t : HtmlTree) : Option Span :=
  match found, t.value.location with
  | some span, some location => some ⟨file, location.position, span.stop⟩
  | _, _ => t.writtenSpan? file

/-- The span of a node, for nodes with a location. -/
def span? (file : String) (t : HtmlTree) : Option Span :=
  let (above, bottom) := lastChildren [] t
  above.foldl (widen file) (bottom.ownSpan? file)

/-- The span of an attribute from its name to the end of its value, taken to be on one line. -/
def attributeSpan? (file : String) (t : HtmlTree) (name : String) : Option Span := do
  let location ← t.value.location
  let extents ← location.attributes
  let extent ← OrderedMap.find? extents name
  return ⟨file, extent.position, extent.position.shift extent.length.toNat⟩

end Tree

end LocatedHtml
