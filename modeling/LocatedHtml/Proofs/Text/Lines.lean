import LocatedHtml.Position
import Mathlib.Data.List.DropRight

/-!
The lines of a text. Lines without newlines are the lines of what they are joined to, and the newlines at
the two ends of a text are the empty lines there.
-/

namespace LocatedHtml.Text

variable {t line : Text} {parts : List Text}

theorem lines_eq_splitOn (t : Text) : lines t = t.splitOn '\n' := by
  induction t with
  | nil => rfl
  | cons c t ih =>
    rw [List.splitOn, List.splitOnP_cons_eq_if_modifyHead, ← List.splitOn, ← ih, lines]
    by_cases newline : c = '\n'
    · rw [if_pos newline, if_pos (beq_iff_eq.2 newline)]
    · rw [if_neg newline, if_neg (mt beq_iff_eq.1 newline)]
      cases found : lines t with
      | nil => exact absurd found (lines_ne_nil t)
      | cons line more => rfl

theorem lines_joinLines (apart : ∀ line ∈ parts, '\n' ∉ line) (some_ : parts ≠ []) :
    lines (joinLines parts) = parts := by
  rw [lines_eq_splitOn, joinLines, List.splitOn_intercalate '\n' apart some_]

theorem newline_notMem (member : line ∈ lines t) : '\n' ∉ line := by
  induction t generalizing line with
  | nil => simp_all [lines]
  | cons c t ih =>
    unfold lines at member
    split at member
    · rcases List.mem_cons.1 member with rfl | member
      · exact List.not_mem_nil
      · exact ih member
    · next other =>
      cases found : lines t with
      | nil => exact absurd found (lines_ne_nil t)
      | cons first more =>
        rw [found] at member ih
        rcases List.mem_cons.1 member with rfl | member
        · exact List.not_mem_cons_of_ne_of_not_mem (Ne.symm other) (ih List.mem_cons_self)
        · exact ih (List.mem_cons_of_mem _ member)

theorem joinLines_cons_cons (line next : Text) (parts : List Text) :
    joinLines (line :: next :: parts) = line ++ '\n' :: joinLines (next :: parts) := by
  rw [joinLines, List.intercalate_cons_cons, List.append_assoc]
  rfl

@[simp] theorem joinLines_singleton (line : Text) : joinLines [line] = line := by
  simp [joinLines, List.intercalate]

theorem joinLines_concat (some_ : parts ≠ []) (line : Text) :
    joinLines (parts ++ [line]) = joinLines parts ++ '\n' :: line := by
  induction parts with
  | nil => exact absurd rfl some_
  | cons first parts ih =>
    cases parts with
    | nil => rw [List.singleton_append, joinLines_cons_cons, joinLines_singleton, joinLines_singleton]
    | cons next parts =>
      have more := ih (List.cons_ne_nil _ _)
      rw [List.cons_append] at more
      rw [List.cons_append, List.cons_append, joinLines_cons_cons, more, joinLines_cons_cons,
        List.append_assoc, List.cons_append]

theorem reverse_joinLines (parts : List Text) :
    (joinLines parts).reverse = joinLines (parts.map List.reverse).reverse := by
  induction parts with
  | nil => rfl
  | cons line parts ih =>
    cases parts with
    | nil => simp
    | cons next parts =>
      have others : ((next :: parts).map List.reverse).reverse ≠ [] := by simp
      calc (joinLines (line :: next :: parts)).reverse
        _ = (joinLines (next :: parts)).reverse ++ '\n' :: line.reverse := by simp [joinLines_cons_cons]
        _ = joinLines (((next :: parts).map List.reverse).reverse ++ [line.reverse]) := by
          rw [ih, joinLines_concat others]
        _ = joinLines ((line :: next :: parts).map List.reverse).reverse := by simp

theorem joinLines_append_newline (some_ : parts ≠ []) : joinLines parts ++ ['\n'] = joinLines (parts ++ [[]]) := by
  rw [joinLines_concat some_]

/-- Newlines in front of a text are empty lines in front of its lines. -/
theorem dropWhile_joinLines (apart : ∀ line ∈ parts, '\n' ∉ line) :
    (joinLines parts).dropWhile (· == '\n') = joinLines (parts.dropWhile List.isEmpty) := by
  induction parts with
  | nil => rfl
  | cons line parts ih =>
    obtain ⟨first, others⟩ := List.forall_mem_cons.1 apart
    cases line with
    | nil =>
      cases parts with
      | nil => simp [joinLines]
      | cons next parts =>
        rw [joinLines_cons_cons, List.nil_append, List.dropWhile_cons_of_pos (by decide), ih others]
        rfl
    | cons c line =>
      have dark : (c == '\n') = false := beq_eq_false_iff_ne.2 fun newline =>
        first (newline ▸ List.mem_cons_self)
      have starts : ∃ more, joinLines ((c :: line) :: parts) = c :: more := by
        cases parts with
        | nil => exact ⟨line, joinLines_singleton _⟩
        | cons next parts => exact ⟨_, joinLines_cons_cons _ _ _⟩
      obtain ⟨more, whole⟩ := starts
      rw [whole, List.dropWhile_cons_of_neg (by simp [dark]), ← whole]
      rfl

end LocatedHtml.Text
