import LocatedHtml.OrderedMap
import LocatedHtml.Position

/-!
What is known of where a node stands in its source: the extent of a tag, a text, a comment or an
attribute, and the location of a node, which for an element is made of its tags.
-/

namespace LocatedHtml

/-- A piece of source: where it starts, its first offset and the offset after its last character, and
the extents of the attributes inside it where they were recorded. -/
structure Extent where
  position : Position
  start : Int
  stop : Int
  attributes : Option (List (String × Extent)) := none
  deriving Repr

namespace Extent

/-- The extent with a line and a column that are counted from one. -/
def ofOneIndexed (line column start stop : Int) (attributes : Option (OrderedMap Extent)) :
    Except LocationError Extent :=
  if line < 1 || column < 1 then .error (.notOneIndexed line column)
  else if stop < start then .error (.stopBeforeStart stop start)
  else .ok ⟨⟨(line - 1).toNat, (column - 1).toNat⟩, start, stop, attributes⟩

/-- The extent from a mark to an offset, without attributes. -/
def ofMark (m : Mark) (stop : Nat) : Extent := ⟨m.position, m.offset, stop, none⟩

/-- The length of the piece. -/
def length (e : Extent) : Int := e.stop - e.start

end Extent

/-- Where a node stands: the extent of a text, a comment or a doctype, or the tags of an element. The
end tag is present only where the source has one; `given` are attribute extents of the element as a
whole, which count where the start tag has none of its own. -/
inductive Location where
  | plain (extent : Extent)
  | element (startTag : Extent) (endTag : Option Extent) (given : Option (OrderedMap Extent))
  deriving Repr

namespace Location

/-- The piece with which the node starts. -/
def opening : Location → Extent
  | .plain extent => extent
  | .element startTag _ _ => startTag

/-- The explicit end tag of an element. -/
def endTag? : Location → Option Extent
  | .plain _ => none
  | .element _ endTag _ => endTag

/-- True of an element location with an explicit end tag. -/
def isClosed (l : Location) : Bool := l.endTag?.isSome

/-- The position at which the node starts. -/
def position (l : Location) : Position := l.opening.position

/-- The offset at which the node starts. -/
def start (l : Location) : Int := l.opening.start

/-- The offset after the last tag of an element, or after a node without tags. -/
def stop (l : Location) : Int :=
  match l.endTag? with
  | some endTag => endTag.stop
  | none => l.opening.stop

/-- The recorded attribute extents; those on a start tag count before those given for the element. -/
def attributes : Location → Option (OrderedMap Extent)
  | .plain extent => extent.attributes
  | .element startTag _ given => startTag.attributes <|> given

/-- The location with an end tag; a location that is not an element's stays as it is. -/
def withEndTag (endTag : Extent) : Location → Location
  | .plain extent => .plain extent
  | .element startTag _ given => .element startTag (some endTag) given

end Location

end LocatedHtml
