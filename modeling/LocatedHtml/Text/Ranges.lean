/-!
Sets of characters given by closed ranges of their numbers.
-/

namespace LocatedHtml

/-- The number `n` lies in one of the closed ranges. -/
def inRanges (ranges : List (Nat × Nat)) (n : Nat) : Bool :=
  ranges.any fun (low, high) => low ≤ n && n ≤ high

end LocatedHtml
