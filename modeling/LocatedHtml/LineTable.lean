import LocatedHtml.Position

/-!
The table of line starts of a text, by which offsets and positions are turned into each other.
-/

namespace LocatedHtml

/-- The offsets just after each newline of a text that itself starts at `offset`. -/
def Text.startsAfterNewlines (offset : Nat) : Text → List Nat
  | [] => []
  | c :: rest =>
    if c = '\n' then (offset + 1) :: startsAfterNewlines (offset + 1) rest
    else startsAfterNewlines (offset + 1) rest

/-- Where each line of a text starts and how long the whole text is. -/
structure LineTable where
  starts : List Nat
  size : Nat
  deriving DecidableEq, Repr

namespace LineTable

/-- The table of a text: line 0 starts at 0, every other line just after a newline. -/
def ofText (t : Text) : LineTable := ⟨0 :: t.startsAfterNewlines 0, t.length⟩

/-- An offset moved to the nearest one that the text has. -/
def clamp (table : LineTable) (offset : Int) : Nat := min offset.toNat table.size

/-- The position of an offset: the last line that starts at or before it, and the way from there. -/
def position (table : LineTable) (offset : Int) : Position :=
  let n := table.clamp offset
  let reached := table.starts.takeWhile (· ≤ n)
  ⟨reached.length - 1, n - reached.getLastD 0⟩

/-- The offset of a position; lines that do not exist and offsets past the end give the end. -/
def offset (table : LineTable) (p : Position) : Nat :=
  match table.starts[p.line]? with
  | some start => min (start + p.column) table.size
  | none => table.size

end LineTable

end LocatedHtml
