import LocatedHtml.Position

/-!
Stretches of a file between two positions, the second one excluded.
-/

namespace LocatedHtml

/-- The text of `file` from `start` up to `stop`; nothing says that `start` comes first. -/
structure Span where
  file : String
  start : Position
  stop : Position
  deriving DecidableEq, Repr

namespace Span

/-- The two ends are in order. -/
def isOrdered (s : Span) : Bool := decide (s.start ≤ s.stop)

/-- The two ends are the same. -/
def isEmpty (s : Span) : Bool := decide (s.start = s.stop)

/-- The position is one of the span's, the stop not being one. -/
def contains (s : Span) (p : Position) : Bool := decide (s.start ≤ p) && decide (p < s.stop)

end Span

end LocatedHtml
