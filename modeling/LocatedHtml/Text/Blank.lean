import LocatedHtml.Text.Basic

/-!
The blank characters: the white space of Unicode together with the four information separators
U+001C to U+001F.
-/

namespace LocatedHtml

/-- White space in the widest sense used by markup: separators of any width, line and page breaks. -/
def isBlank (c : Char) : Bool :=
  let n := c.toNat
  (0x09 ≤ n && n ≤ 0x0D) || (0x1C ≤ n && n ≤ 0x20) || n == 0x85 || n == 0xA0 || n == 0x1680 ||
    (0x2000 ≤ n && n ≤ 0x200A) || n == 0x2028 || n == 0x2029 || n == 0x202F || n == 0x205F ||
    n == 0x3000

/-- Every character that the core library calls white space is blank. -/
theorem isBlank_of_isWhitespace {c : Char} (h : c.isWhitespace = true) : isBlank c = true := by
  simp only [Char.isWhitespace, Bool.or_eq_true, decide_eq_true_eq] at h
  rcases h with ((h | h) | h) | h <;> subst h <;> decide

namespace Text

/-- True of a text of at least one character that holds blank characters only. -/
def allBlank (t : Text) : Bool := !t.isEmpty && t.all isBlank

/-- The text without the blank characters at its two ends. -/
def strip (t : Text) : Text :=
  ((t.dropWhile isBlank).reverse.dropWhile isBlank).reverse

end Text

/-- How many blank characters a text starts with. -/
def blankCount (t : Text) : Nat := (t.takeWhile isBlank).length

end LocatedHtml
