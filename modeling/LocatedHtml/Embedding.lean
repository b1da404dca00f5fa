import LocatedHtml.Span

/-!
How positions of a text that is part of a larger one are told in the larger one, and back. Only the
first line of the inner text shares its line with the outer text, so only there columns move.
-/

namespace LocatedHtml

/-- Where an inner text starts in its container, and the container's name where it has one. -/
structure Embedding where
  line : Int
  column : Int
  file : Option String := none
  deriving DecidableEq, Repr

namespace Embedding

/-- The position in the container of a position of the inner text. -/
def toOuter (e : Embedding) (p : Position) : Except LocationError Position :=
  Position.ofInts (p.line + e.line) (p.column + if p.line = 0 then e.column else 0)

/-- The position in the inner text of a position of the container, unless it comes before the text. -/
def toInner? (e : Embedding) (p : Position) : Option Position :=
  let line := (p.line : Int) - e.line
  let column := (p.column : Int) - if line = 0 then e.column else 0
  if line < 0 || column < 0 then none else some ⟨line.toNat, column.toNat⟩

/-- A name that was given, or another one where none or an empty one was. -/
def nameOr (name : Option String) (other : String) : String :=
  match name with
  | some given => if given = "" then other else given
  | none => other

end Embedding

namespace Span

/-- The span in the container of a span of the inner text. -/
def toOuter (s : Span) (e : Embedding) : Except LocationError Span := do
  let start ← e.toOuter s.start
  let stop ← e.toOuter s.stop
  return ⟨Embedding.nameOr e.file s.file, start, stop⟩

/-- The span in the inner text of a span of the container, unless it reaches before the text. -/
def toInner? (s : Span) (e : Embedding) (file : Option String) : Option Span := do
  let start ← e.toInner? s.start
  let stop ← e.toInner? s.stop
  return ⟨Embedding.nameOr file s.file, start, stop⟩

end Span

end LocatedHtml
