import LocatedHtml.Document.Basic
import LocatedHtml.Json.Basic

/-!
The spans of the nodes of a document as records.
-/

namespace LocatedHtml

/-- A position as a value. -/
def Position.toJson (p : Position) : Json :=
  .object [Json.entry "line" (.ofNat p.line), Json.entry "column" (.ofNat p.column)]

/-- A span as a value. -/
def Span.toJson (s : Span) : Json :=
  .object [
    Json.entry "file" (.ofString s.file),
    Json.entry "start" s.start.toJson,
    Json.entry "end" s.stop.toJson]

/-- A span as a value, or null. -/
def spanJson (s : Option Span) : Json :=
  match s with
  | some s => s.toJson
  | none => .null

namespace Document

/-- The spans of the attributes of a node, by name. -/
def attributeSpans (d : Document) (t : HtmlTree) : Except DocumentError Json := do
  let entries ← t.value.content.attributes.mapM fun (name, _) => do
    return Json.entry name (spanJson (← d.attributeSpanOf t name))
  return .object entries

/-- The record of a node that has a span. -/
def record? (d : Document) (withAttributes : Bool) (t : HtmlTree) :
    Except DocumentError (Option Json) := do
  match ← d.spanOf t with
  | none => return none
  | some span =>
    let name := match t.value.content.elementName? with
      | some name => Json.ofString name
      | none => .null
    let fields := [
      Json.entry "kind" (.ofString t.value.content.kind),
      Json.entry "tag_name" name,
      Json.entry "range" span.toJson]
    if withAttributes && !t.value.content.attributes.isEmpty then
      return some (.object (fields ++ [Json.entry "attributes" (← d.attributeSpans t)]))
    else return some (.object fields)

/-- The records of all nodes with a span, in document order; a document node has none. -/
def records (d : Document) (withAttributes : Bool) : Except DocumentError (List Json) :=
  match d.body with
  | .html tree => do
    let nodes := tree.subtrees.filter fun t => t.value.content.kind != "document"
    let found ← nodes.mapM (d.record? withAttributes)
    return found.filterMap id
  | _ => .error .unsupported

end Document

end LocatedHtml
