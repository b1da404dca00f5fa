import LocatedHtml.Extent
import LocatedHtml.Text.LetterCase
import LocatedHtml.Text.Quoted
import LocatedHtml.Tree

/-!
The nodes of an HTML tree: what each holds and where it stands in its source. A tree may be made by
hand, so nothing keeps a comment from having children; such children are never read or written.
-/

namespace LocatedHtml

/-- What a node holds. -/
inductive Content where
  | document
  | element (name : String) (attributes : OrderedMap Text)
  | text (value : Text)
  | comment (value : Text)
  | doctype (value : Text)
  deriving Repr

/-- The elements that every document has and that may be left out of its source. -/
def structuralNames : List String := ["html", "head", "body"]

theorem mem_structuralNames {name : String} :
    name ∈ structuralNames ↔ name = "html" ∨ name = "head" ∨ name = "body" := by
  simp only [structuralNames, List.mem_cons, List.not_mem_nil, or_false]

namespace Content

/-- An element with its name in lower case. -/
def ofElement (name : String) (attributes : OrderedMap Text) : Content :=
  .element (Text.lowerName name.toList) attributes

/-- The word for a kind of node. -/
def kind : Content → String
  | .document => "document"
  | .element _ _ => "element"
  | .text _ => "text"
  | .comment _ => "comment"
  | .doctype _ => "doctype"

/-- The name of an element. -/
def elementName? : Content → Option String
  | .element name _ => some name
  | _ => none

/-- The name of an element, or the kind of another node behind a number sign. -/
def nodeName : Content → String
  | .element name _ => name
  | content => "#" ++ content.kind

/-- The attributes of an element; other nodes have none. -/
def attributes : Content → OrderedMap Text
  | .element _ attributes => attributes
  | _ => []

/-- The text of a text, a comment or a doctype. -/
def textValue : Content → Text
  | .text value | .comment value | .doctype value => value
  | _ => []

/-- True of an element. -/
def isElement : Content → Bool
  | .element _ _ => true
  | _ => false

/-- True of a text. -/
def isText : Content → Bool
  | .text _ => true
  | _ => false

/-- True of a comment. -/
def isComment : Content → Bool
  | .comment _ => true
  | _ => false

end Content

/-- A node by itself, without its children. -/
structure Node where
  content : Content
  location : Option Location := none
  deriving Repr

/-- A node with everything below it. -/
abbrev HtmlTree := Tree Node

namespace Node

/-- True of a structural element that stands in a tree without having a place in the source. -/
def isInjected (node : Node) (hasParent : Bool) : Bool :=
  hasParent && node.location.isNone &&
    match node.content.elementName? with
    | some name => structuralNames.contains name
    | none => false

theorem isInjected_of_located {node : Node} (located : node.location ≠ none) (hasParent : Bool) :
    node.isInjected hasParent = false := by
  rw [isInjected, Option.isNone_eq_false_iff.2 (Option.isSome_iff_ne_none.2 located), Bool.and_false]
  rfl

theorem isInjected_of_unnamed {node : Node} (unnamed : node.content.elementName? = none)
    (hasParent : Bool) : node.isInjected hasParent = false := by
  rw [isInjected, unnamed, Bool.and_false]

theorem structural_of_isInjected {node : Node} {name : String} {hasParent : Bool}
    (injected : node.isInjected hasParent = true) (named : node.content.elementName? = some name) :
    name ∈ structuralNames := by
  rw [isInjected, named, Bool.and_eq_true, List.contains_iff_mem] at injected
  exact injected.2

/-- True of an element whose end tag is in the source. -/
def isClosed (node : Node) : Bool :=
  match node.location with
  | some location => location.isClosed
  | none => false

end Node

/-- The longest value that a description shows whole. -/
def previewLength : Nat := 20

/-- A value short enough for a description: the start of it and an ellipsis where it is too long. -/
def preview (value : Text) : Text :=
  if value.length ≤ previewLength then value else value.take (previewLength - 3) ++ ['.', '.', '.']

/-- One line that says what a node with the given number of children is. -/
def Node.description (node : Node) (children : Nat) : String :=
  match node.content with
  | .element name _ =>
    "<Node element " ++ quotedString name ++ " children=" ++ toString children ++ ">"
  | .text value => "<Node text " ++ String.ofList (preview value).quoted ++ ">"
  | .comment value => "<Node comment " ++ String.ofList (preview value).quoted ++ ">"
  | content => "<Node " ++ content.kind ++ ">"

namespace Tree

/-- One line that says what a node is. -/
def description (t : HtmlTree) : String := t.value.description t.children.length

/-- The texts of the trees ahead, in document order; nothing is read below a text or a comment. -/
def collectText : List HtmlTree → Text
  | [] => []
  | .node v cs :: ahead =>
    match v.content with
    | .text value => value ++ collectText ahead
    | .comment _ => collectText ahead
    | _ => collectText (cs ++ ahead)
termination_by ahead => sizeAll ahead
decreasing_by all_goals simp [sizeAll, size, sizeAll_append]

/-- The text of a node and everything below it, comments left out. -/
def textContent (t : HtmlTree) : Text := collectText [t]

end Tree

end LocatedHtml
