/-!
Text as a list of code points, so that offsets, lengths and columns all count code points.
Lines are what newlines separate: a text with `n` newlines has `n + 1` lines, and joining them
with newlines gives the text back (`Text.joinLines_lines`).
-/

namespace LocatedHtml

/-- A source, a value or an output, as its code points. -/
abbrev Text := List Char

namespace Text

/-- The lines of a text, without their newlines; the empty text has one empty line. -/
def lines : Text → List Text
  | [] => [[]]
  | c :: rest =>
    if c = '\n' then [] :: lines rest
    else match lines rest with
      | [] => [[c]]
      | line :: more => (c :: line) :: more

/-- The lines with one newline between any two neighbours. -/
def joinLines (parts : List Text) : Text := ['\n'].intercalate parts

theorem lines_ne_nil (t : Text) : t.lines ≠ [] := by
  induction t with
  | nil => simp [lines]
  | cons c rest ih =>
    unfold lines
    split
    · simp
    · split <;> simp

theorem joinLines_lines (t : Text) : joinLines t.lines = t := by
  induction t with
  | nil => simp [lines, joinLines]
  | cons c rest ih =>
    have hne := lines_ne_nil rest
    unfold lines
    cases h : lines rest with
    | nil => exact absurd h hne
    | cons line more =>
      rw [h] at ih
      split
      · next hc => subst hc; simp_all [joinLines, List.intercalate]
      · cases more <;> simp_all [joinLines, List.intercalate]

/-- The text before the first place where `ends` finds a match, and the length of that match. -/
def untilMatch (ends : Text → Option Nat) : Text → Option (Text × Nat)
  | [] => (ends []).map fun n => ([], n)
  | c :: rest =>
    match ends (c :: rest) with
    | some n => some ([], n)
    | none => (untilMatch ends rest).map fun (before, n) => (c :: before, n)

/-- `t` without `start` at its front, if it has it there. -/
def dropStart? : Text → Text → Option Text
  | [], t => some t
  | _ :: _, [] => none
  | a :: start, c :: rest => if a = c then dropStart? start rest else none

theorem dropStart?_eq_some_iff {start t rest : Text} :
    dropStart? start t = some rest ↔ t = start ++ rest := by
  induction start generalizing t with
  | nil => simp [dropStart?]
  | cons a start ih =>
    cases t with
    | nil => simp [dropStart?]
    | cons c t =>
      by_cases h : a = c
      · subst h; simp [dropStart?, ih]
      · simp [dropStart?, h, Ne.symm h]

end Text

end LocatedHtml
