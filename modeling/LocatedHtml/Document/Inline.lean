import LocatedHtml.Document.Basic
import LocatedHtml.Node.Condition

/-!
The documents inside of an HTML document: the texts of its scripts and style sheets.
-/

namespace LocatedHtml

/-- The elements whose texts are documents of their own. -/
def inlineNames : List String := ["script", "style"]

namespace Document

/-- The text of an element as a document that starts behind the element's start tag. -/
def inlineOf (d : Document) (host : NodeId) (t : HtmlTree) (startTag : Extent) :
    Except DocumentError Document := do
  let inner := d.lineTable.position startTag.stop
  let (start, file) ← match d.embedding with
    | none => pure (inner, d.url)
    | some e =>
      match e.toOuter inner with
      | .ok outer => pure (outer, Embedding.nameOr e.file d.url)
      | .error cause => throw (.location cause)
  return {
    url := d.url
    contents := t.textContent
    body := .text
    isInline := true
    embedding := some ⟨start.line, start.column, some file⟩
    host := some host }

/-- The inline documents in elements of the given names, in document order. Elements without a place in
the source and elements with a source of their own elsewhere have none. -/
def inlineDocuments (d : Document) (names : List String) : Except DocumentError (List Document) :=
  match d.body with
  | .html tree =>
    let hosts := tree.findAll 0 (Condition.onElements (.some (names.map .named)))
    (hosts.filterMap fun (host, t) =>
      match t.value.location with
      | some (.element startTag _ _) =>
        if t.value.content.attributes.has "src" then none else some (d.inlineOf host t startTag)
      | _ => none).mapM id
  | _ => .ok []

end Document

end LocatedHtml
