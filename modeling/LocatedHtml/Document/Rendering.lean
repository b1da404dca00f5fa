import LocatedHtml.Document.Basic
import LocatedHtml.Text.Indent

/-!
The text of a document after changes. A text document is indented anew; an HTML document is written
with the texts of inline documents in place of what their hosts held, and without injected elements.
The tree of the document is not changed: the changes are made in a forest of its own.
-/

namespace LocatedHtml

/-- The indentation of an inline document in its host. -/
def hostedLevel : Nat := 2

namespace Document

/-- The text of an inline document as its host holds it: on lines of its own, the end tag of the host
one level less indented. -/
def hostedText (text : Text) : Text :=
  '\n' :: text ++ List.replicate (2 * (hostedLevel - 1)) ' '

/-- The markup of a tree in which some nodes have other texts, without injected elements. -/
def writtenWith (tree : HtmlTree) (texts : List (NodeId × Text)) : Text :=
  let planted := Forest.plant {} tree
  let changed := texts.foldl (fun f (host, text) => f.setText host text) planted
  match ((changed.removeInjected 0).1).html? 0 with
  | some t => t.innerHtml
  | none => []

/-- The text of a document without changes, on the given level if it is a text. -/
def plainText (d : Document) (indent : Nat) : Except DocumentError Text :=
  match d.body with
  | .unknown => .error .unsupported
  | .text => .ok (reindent indent d.contents)
  | .html tree => .ok (writtenWith tree [])

/-- The host of an inline document and the text that it gets. -/
def hosted (d : Document) : Except DocumentError (NodeId × Text) :=
  match d.host with
  | none => .error (.noHost d.description)
  | some host => do return (host, hostedText (← d.plainText hostedLevel))

theorem hosted_of_none {d : Document} (unhosted : d.host = none) :
    d.hosted = .error (.noHost d.description) := by
  unfold hosted
  rw [unhosted]

theorem hosted_of_some {d : Document} {host : NodeId} {text : Text} (here : d.host = some host)
    (plain : d.plainText hostedLevel = .ok text) : d.hosted = .ok (host, hostedText text) := by
  unfold hosted
  rw [here]
  dsimp only
  rw [plain]
  rfl

/-- The text of a document with some inline documents, which matter for an HTML document only. -/
def render (d : Document) (inlines : List Document) (indent : Nat) :
    Except DocumentError Text :=
  match d.body with
  | .html tree => do return writtenWith tree (← inlines.mapM hosted)
  | _ => d.plainText indent

end Document

end LocatedHtml
