import LocatedHtml.Node.Span

/-!
The span of a node found step by step, with a check of everything that might be missing on the way: the
location of a node to which a span is widened, the last child of a node that ends with it, and the line and
the column of a position. Locations count lines and columns from one, positions from zero.
-/

namespace LocatedHtml

/-- What might be missing where the span of a node is looked for. -/
inductive SpanError where
  | position (cause : LocationError)
  | unlocated
  | childless
  deriving DecidableEq, Repr

namespace Extent

/-- The line of the first character, counted from one. -/
def line (e : Extent) : Int := e.position.line + 1

/-- The column of the first character, counted from one. -/
def column (e : Extent) : Int := e.position.column + 1

end Extent

/-- The position with the given numbers, if there is one. -/
def checkedPosition (line column : Int) : Except SpanError Position :=
  (Position.ofInts line column).mapError .position

/-- The position of the first character of an extent. -/
def Extent.checkedStart (e : Extent) : Except SpanError Position :=
  checkedPosition (e.line - 1) (e.column - 1)

/-- The span of a text that starts with an extent. A text on one line ends so many columns behind its own
width as `alone` says; the last of several lines has as much behind it as `last` says. -/
def laidOutSpan (file : String) (opening : Extent) (text : Text) (alone last : Int) : Except SpanError Span := do
  let lines := Text.lines text
  let width := (lines.getLastD []).length
  let start ← opening.checkedStart
  let stop ← checkedPosition (opening.line + lines.length - 2)
    (if lines.length = 1 then opening.column + width + alone else width + last)
  return ⟨file, start, stop⟩

/-- What stands around a comment on one line, but for the column that its start is counted with. -/
def commentMarkupAlone : Int := 6

/-- What stands behind the last line of a comment on several lines. -/
def commentMarkupLast : Int := 3

namespace Tree

/-- The span by the length of the written content. -/
def checkedWritten (file : String) (t : HtmlTree) : Except SpanError (Option Span) :=
  match t.value.location with
  | none => return none
  | some location => do
    return some (← laidOutSpan file location.opening t.innerHtml (t.value.startTagWidth - 1) 0)

/-- The span of a node that does not end with its last child. -/
def checkedOwn (file : String) (t : HtmlTree) : Except SpanError (Option Span) :=
  match t.value.location, t.value.content with
  | none, _ => return none
  | some (.plain extent), .comment value => do
    return some (← laidOutSpan file extent value commentMarkupAlone commentMarkupLast)
  | some (.plain extent), .text value => do
    return some (← laidOutSpan file extent value (-1) 0)
  | some _, .comment _ => return none
  | some _, .text _ => return none
  | some location, content =>
    match location.endTag? with
    | some endTag => do
      let start ← location.opening.checkedStart
      let stop ← checkedPosition (endTag.line - 1)
        (endTag.column + ((content.elementName?).getD "").length + 2)
      return some ⟨file, start, stop⟩
    | none => t.checkedWritten file

/-- The node has a location without an end tag and children, so that it ends with the last of them. -/
def endsWithLastChild (t : HtmlTree) : Bool :=
  t.value.location.isSome && !t.value.content.isComment && !t.value.content.isText && !t.value.isClosed &&
    !t.children.isEmpty

/-- The way down through last children, innermost first on top of `above`, and where it ends. -/
def checkedDescent (above : List HtmlTree) (t : HtmlTree) : Except SpanError (List HtmlTree × HtmlTree) :=
  if t.endsWithLastChild then
    match _h : t.children.getLast? with
    | none => .error .childless
    | some c => checkedDescent (t :: above) c
  else .ok (above, t)
termination_by t.size
decreasing_by exact size_lt_of_mem_children (List.mem_of_getLast? _h)

/-- A span found below a node made to start with the node; without one, the span by the written content. -/
def checkedWiden (file : String) (found : Option Span) (t : HtmlTree) : Except SpanError (Option Span) :=
  match found with
  | none => t.checkedWritten file
  | some span =>
    match t.value.location with
    | none => .error .unlocated
    | some location => do
      return some ⟨file, ← location.opening.checkedStart, span.stop⟩

/-- The span of a node, if it has one: down through last children to a node that has a span by itself, and
up again to the start of each node on the way. -/
def checkedSpan (file : String) (t : HtmlTree) : Except SpanError (Option Span) :=
  match t.value.location with
  | none => return none
  | some _ => do
    let (above, bottom) ← checkedDescent [] t
    above.foldlM (checkedWiden file) (← bottom.checkedOwn file)

/-- The span of a node by recursion. A comment and a text have one if their location has no tags; an
element with an end tag ends with that, any other node with its last child if that has a span, and else
after what would be written for it. -/
def recursiveSpan? (file : String) (t : HtmlTree) : Option Span :=
  match t.value.location, t.value.content with
  | none, _ => none
  | some (.plain extent), .comment value =>
    some ⟨file, extent.position, extent.position.after (writtenComment value)⟩
  | some (.plain extent), .text value => some ⟨file, extent.position, extent.position.after value⟩
  | some (.element ..), .comment _ => none
  | some (.element ..), .text _ => none
  | some location, _ =>
    match location.endTag? with
    | some endTag => some ⟨file, location.position, endTag.position.shift t.value.endTagWidth⟩
    | none =>
      match _h : t.children.getLast? with
      | none => t.writtenSpan? file
      | some c =>
        match recursiveSpan? file c with
        | some span => some ⟨file, location.position, span.stop⟩
        | none => t.writtenSpan? file
termination_by t.size
decreasing_by exact size_lt_of_mem_children (List.mem_of_getLast? _h)

end Tree

end LocatedHtml
