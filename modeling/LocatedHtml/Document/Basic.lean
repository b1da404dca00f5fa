import LocatedHtml.Embedding
import LocatedHtml.Forest.Edit
import LocatedHtml.LineTable
import LocatedHtml.Markup.Construction
import LocatedHtml.Node.Span

/-!
Documents: a text with its name, what has been read from it, and, for a document inside of another
one, where it stands there. Spans are told in the outermost container.
-/

namespace LocatedHtml

/-- What has been read from the contents of a document. -/
inductive Body where
  /-- The contents are in no language that could be read. -/
  | unknown
  /-- The contents are taken as they are, and the only node is the whole document. -/
  | text
  /-- The contents are HTML. -/
  | html (tree : HtmlTree)
  deriving Repr

/-- A document. The host of a document in a document is the node whose text it is, given by its place
in the document order of the container. -/
structure Document where
  url : String
  contents : Text
  body : Body
  isInline : Bool := false
  embedding : Option Embedding := none
  host : Option NodeId := none
  deriving Repr

/-- Why something cannot be done with a document. -/
inductive DocumentError where
  | location (cause : LocationError)
  | noHost (document : String)
  | unsupported
  deriving DecidableEq, Repr

/-- The wording of an error; what is unsupported has none. -/
def DocumentError.message : DocumentError → String
  | .location cause => cause.message
  | .noHost document => document ++ " has no host node to stringify into"
  | .unsupported => ""

namespace Document

/-- The HTML document of a source; with an embedding it is part of a container. -/
def ofHtml (url : String) (contents : Text) (embedding : Option Embedding) (host : Option NodeId) :
    Except MarkupError Document := do
  return ⟨url, contents, .html (← parseHtml contents), embedding.isSome, embedding, host⟩

theorem ofHtml_eq_ok {url : String} {contents : Text} {embedding : Option Embedding} {host : Option NodeId}
    {d : Document} : ofHtml url contents embedding host = .ok d ↔ ∃ tree, parseHtml contents = .ok tree ∧
      d = ⟨url, contents, .html tree, embedding.isSome, embedding, host⟩ := by
  unfold ofHtml
  cases parseHtml contents with
  | error e => simp [bind, Except.bind]
  | ok tree => simp [bind, Except.bind, pure, Except.pure, eq_comm]

/-- The word for the language of a document. -/
def language (d : Document) : String :=
  match d.body with
  | .unknown => "unknown"
  | .text => "text"
  | .html _ => "html"

/-- One line that says what a document is. -/
def description (d : Document) : String :=
  let kind := match d.body with
    | .unknown => "ParsedDocument"
    | .text => "ParsedTextDocument"
    | .html _ => "ParsedHtmlDocument"
  "<" ++ kind ++ (if d.isInline then " inline " else " ") ++ quotedString d.url ++ ">"

/-- The lines of the contents. -/
def lineTable (d : Document) : LineTable := .ofText d.contents

/-- The first and the last offset of a span. -/
def offsets (d : Document) (s : Span) : Nat × Nat :=
  (d.lineTable.offset s.start, d.lineTable.offset s.stop)

/-- The piece of the contents between two offsets; nothing if they are not in order. -/
def slice (d : Document) (start stop : Nat) : Text := (d.contents.drop start).take (stop - start)

/-- A span of the document as a span of its container. -/
def toContainer (d : Document) (s : Option Span) : Except DocumentError (Option Span) :=
  match s, d.embedding with
  | some s, some e =>
    match s.toOuter e with
    | .ok s => .ok (some s)
    | .error cause => .error (.location cause)
  | s, _ => .ok s

/-- A span of the container as a span of the document, unless it reaches before the document. -/
def ofContainer (d : Document) (s : Option Span) : Option Span :=
  match s, d.embedding with
  | some s, some e => s.toInner? e (some d.url)
  | s, _ => s

/-- The span of the whole contents. -/
def wholeSpan (d : Document) : Span := ⟨d.url, .origin, d.lineTable.position d.contents.length⟩

/-- The span of a node of an HTML document, told in the container. -/
def spanOf (d : Document) (t : HtmlTree) : Except DocumentError (Option Span) :=
  d.toContainer (t.span? d.url)

/-- The span of an attribute of a node of an HTML document, told in the container. -/
def attributeSpanOf (d : Document) (t : HtmlTree) (name : String) :
    Except DocumentError (Option Span) :=
  d.toContainer (t.attributeSpan? d.url name)

/-- The tree below the node at a place of the document order, in an HTML document. -/
def node? (d : Document) (index : Nat) : Option HtmlTree :=
  match d.body with
  | .html tree => tree.subtrees[index]?
  | _ => none

/-- The span of the node at a place of the document order, told in the container. The only node of a
text document is at place 0. -/
def nodeSpan (d : Document) (index : Nat) : Except DocumentError (Option Span) :=
  match d.body with
  | .unknown => .error .unsupported
  | .text => d.toContainer (if index = 0 then some d.wholeSpan else none)
  | .html tree => d.toContainer ((tree.subtrees[index]?).bind (·.span? d.url))

/-- A text document with other contents in the same place; other documents stay as they are. -/
def withContents (d : Document) (contents : Text) : Document :=
  match d.body with
  | .text => { d with contents := contents }
  | _ => d

/-- The document after a change of its tree. Its nodes have their places in the document order as
numbers. -/
def editTree (d : Document) (change : Forest → Forest) : Document :=
  match d.body with
  | .html tree =>
    match (change (Forest.plant {} tree)).html? 0 with
    | some changed => { d with body := .html changed }
    | none => d
  | _ => d

/-- The document with another text in a node. -/
def setText (d : Document) (index : NodeId) (value : Text) : Document :=
  d.editTree (·.setText index value)

/-- The document without a node and everything below it. -/
def removeNode (d : Document) (index : NodeId) : Document := d.editTree (·.detach index)

/-- The document without its injected elements, and how many there were. -/
def removeInjected (d : Document) : Document × Nat :=
  match d.body with
  | .html tree =>
    (d.editTree fun f => (f.removeInjected 0).1, ((Forest.plant {} tree).removeInjected 0).2)
  | _ => (d, 0)

end Document

end LocatedHtml
