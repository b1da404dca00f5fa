import LocatedHtml.Text.Basic

/-!
Places in a text. A position counts lines and columns from zero; a mark is a position together with
its offset. Both move along a text one character at a time, and moving along two texts in a row is
moving along their concatenation (`Position.after_append`, `Mark.after_append`).
-/

namespace LocatedHtml

/-- What can be wrong with the numbers given for a place. -/
inductive LocationError where
  | negativeLine (line : Int)
  | negativeColumn (column : Int)
  | notOneIndexed (line column : Int)
  | stopBeforeStart (stop start : Int)
  deriving DecidableEq, Repr

/-- The wording of a location error. -/
def LocationError.message : LocationError → String
  | .negativeLine line => "line must be >= 0, got " ++ toString line
  | .negativeColumn column => "column must be >= 0, got " ++ toString column
  | .notOneIndexed line column =>
    "location is one-indexed, got line=" ++ toString line ++ " column=" ++ toString column
  | .stopBeforeStart stop start =>
    "end_offset must be >= start_offset, got " ++ toString stop ++ " < " ++ toString start

/-- A line and a column of it, both counted from zero. -/
structure Position where
  line : Nat
  column : Nat
  deriving DecidableEq, Repr

namespace Position

/-- Positions are ordered by line, then by column. -/
instance : LT Position := ⟨fun p q => p.line < q.line ∨ p.line = q.line ∧ p.column < q.column⟩

instance : LE Position := ⟨fun p q => p.line < q.line ∨ p.line = q.line ∧ p.column ≤ q.column⟩

instance (p q : Position) : Decidable (p < q) :=
  inferInstanceAs (Decidable (p.line < q.line ∨ p.line = q.line ∧ p.column < q.column))

instance (p q : Position) : Decidable (p ≤ q) :=
  inferInstanceAs (Decidable (p.line < q.line ∨ p.line = q.line ∧ p.column ≤ q.column))

/-- The position with the given numbers; a negative line is reported before a negative column. -/
def ofInts (line column : Int) : Except LocationError Position :=
  if line < 0 then .error (.negativeLine line)
  else if column < 0 then .error (.negativeColumn column)
  else .ok ⟨line.toNat, column.toNat⟩

/-- The start of a text. -/
def origin : Position := ⟨0, 0⟩

/-- The position after a character: a newline starts a line, any other character takes a column. -/
def next (p : Position) (c : Char) : Position :=
  if c = '\n' then ⟨p.line + 1, 0⟩ else ⟨p.line, p.column + 1⟩

/-- The position at the end of a text that starts at `p`. -/
def after (p : Position) (t : Text) : Position := t.foldl next p

/-- The position `n` columns further on the same line. -/
def shift (p : Position) (n : Nat) : Position := ⟨p.line, p.column + n⟩

theorem after_append (p : Position) (s t : Text) : p.after (s ++ t) = (p.after s).after t :=
  List.foldl_append

end Position

/-- A position of a text and the number of characters before it. -/
structure Mark where
  offset : Nat
  position : Position
  deriving DecidableEq, Repr

namespace Mark

/-- The start of a text. -/
def origin : Mark := ⟨0, .origin⟩

/-- The mark at the end of a text that starts at `m`. -/
def after (m : Mark) (t : Text) : Mark := ⟨m.offset + t.length, m.position.after t⟩

theorem after_append (m : Mark) (s t : Text) : m.after (s ++ t) = (m.after s).after t := by
  simp only [after, Position.after_append, List.length_append, Nat.add_assoc]

end Mark

end LocatedHtml
