import LocatedHtml.Markup.Written
import LocatedHtml.Proofs.Construction.Soundness
import LocatedHtml.Proofs.Forest.Splicing

/-!
The markup of a tree as a series of events: characters of text, tags, elements that are written as a
whole. Injected elements have no tags, so their children stand where they stood.
-/

namespace LocatedHtml

/-- A piece of markup that stands for itself. -/
inductive Event where
  | char (c : Char)
  | opening (name : String) (attributes : OrderedMap Text)
  | closing (name : String)
  | single (name : String) (attributes : OrderedMap Text)
  | raw (name : String) (attributes : OrderedMap Text) (value : Text)
  | comment (value : Text)
  | doctype (value : Text)
  deriving DecidableEq, Repr

/-- The markup of an event. -/
def Event.written : Event → Text
  | .char c => escapeChar c
  | .opening name attributes | .single name attributes => writtenStartTag name attributes
  | .closing name => writtenEndTag name
  | .raw name attributes value => writtenStartTag name attributes ++ value ++ writtenEndTag name
  | .comment value => writtenComment value
  | .doctype value => writtenDoctype value

/-- The markup of some events. -/
def writtenEvents (es : List Event) : Text := es.flatMap Event.written

namespace Tree

/-- The texts that stand directly below a node, as one. -/
def joinedText (cs : List HtmlTree) : Text := cs.flatMap (·.value.content.textValue)

mutual

/-- The events of a tree. -/
def events : HtmlTree → List Event
  | .node v cs =>
    match v.content with
    | .document => eventsAll cs
    | .element name attributes =>
      if v.isInjected true then eventsAll cs
      else if isVoid name then [.single name attributes]
      else if isRawText name then [.raw name attributes (joinedText cs)]
      else .opening name attributes :: (eventsAll cs ++ [.closing name])
    | .text value => value.map .char
    | .comment value => [.comment value]
    | .doctype value => [.doctype value]

/-- The events of some trees. -/
def eventsAll : List HtmlTree → List Event
  | [] => []
  | t :: rest => events t ++ eventsAll rest

end

theorem eventsAll_eq (ts : List HtmlTree) : eventsAll ts = ts.flatMap events := by
  induction ts with
  | nil => rfl
  | cons t ts ih => rw [eventsAll, ih, List.flatMap_cons]

theorem events_node (v : Node) (cs : List HtmlTree) :
    (Tree.node v cs).events =
      match v.content with
      | .document => cs.flatMap events
      | .element name attributes =>
        if v.isInjected true then cs.flatMap events
        else if isVoid name then [.single name attributes]
        else if isRawText name then [.raw name attributes (joinedText cs)]
        else .opening name attributes :: (cs.flatMap events ++ [.closing name])
      | .text value => value.map .char
      | .comment value => [.comment value]
      | .doctype value => [.doctype value] := by
  rw [events, eventsAll_eq]

theorem events_raw {v : Node} {cs : List HtmlTree} {name : String} {attributes : OrderedMap Text}
    (content : v.content = .element name attributes) (raw : isRawText name = true) :
    (Tree.node v cs).events = [.raw name attributes (joinedText cs)] := by
  have stays : ¬ v.isInjected true = true := fun injected =>
    ordinary_of_isRawText raw (Node.structural_of_isInjected injected (by rw [content]; rfl))
  rw [events_node, content]
  dsimp only
  rw [if_neg stays, isVoid_of_isRawText raw, if_neg Bool.false_ne_true, if_pos raw]

/-- A text without children. -/
def IsText (t : HtmlTree) : Prop := ∃ v value, t = .node v [] ∧ v.content = .text value

theorem isInjected_of_text {v : Node} {value : Text} (text : v.content = .text value)
    (hasParent : Bool) : v.isInjected hasParent = false :=
  Node.isInjected_of_unnamed (by rw [text]; rfl) hasParent

theorem spliced_text {t : HtmlTree} (text : t.IsText) : t.spliced = [t] := by
  obtain ⟨v, value, rfl, content⟩ := text
  rw [spliced_node, if_neg (by rw [isInjected_of_text content]; decide)]
  rfl

end Tree

end LocatedHtml
