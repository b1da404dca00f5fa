import LocatedHtml.Proofs.Nested.Positions
import Mathlib.Order.Lattice
import Mathlib.Order.Monotone.Defs

/-!
The order of positions. Every character of a text leads on, and so do columns, so the positions of a text
are in the order of its offsets; telling them in an outer text keeps that order.
-/

namespace LocatedHtml

namespace Position

variable {p q : Position} {s t : Text}

theorem le_iff : p ≤ q ↔ p.line < q.line ∨ p.line = q.line ∧ p.column ≤ q.column := Iff.rfl

theorem lt_iff : p < q ↔ p.line < q.line ∨ p.line = q.line ∧ p.column < q.column := Iff.rfl

instance : LinearOrder Position where
  le_refl p := .inr ⟨rfl, Nat.le_refl _⟩
  le_trans p q r := by
    simp only [le_iff]
    omega
  lt_iff_le_not_ge p q := by
    simp only [le_iff, lt_iff]
    omega
  le_antisymm p q := by
    cases p
    cases q
    simp only [le_iff, mk.injEq]
    omega
  le_total p q := by
    simp only [le_iff]
    omega
  toDecidableLE := inferInstance

theorem lt_next (p : Position) (c : Char) : p < p.next c := by
  unfold next
  split
  · exact .inl (Nat.lt_succ_self _)
  · exact .inr ⟨rfl, Nat.lt_succ_self _⟩

theorem le_after (p : Position) (t : Text) : p ≤ p.after t := by
  induction t generalizing p with
  | nil => exact le_refl p
  | cons c t ih => exact (lt_next p c).le.trans (ih (p.next c))

theorem lt_after (p : Position) (some_ : t ≠ []) : p < p.after t := by
  obtain ⟨c, t, rfl⟩ := List.exists_cons_of_ne_nil some_
  exact (lt_next p c).trans_le (le_after (p.next c) t)

theorem le_shift (p : Position) (n : Nat) : p ≤ p.shift n := .inr ⟨rfl, Nat.le_add_right _ _⟩

theorem after_of_unbroken (unbroken : '\n' ∉ t) : p.after t = p.shift t.length := by
  induction t generalizing p with
  | nil => rfl
  | cons c t ih =>
    rw [List.mem_cons, not_or] at unbroken
    change (p.next c).after t = _
    rw [ih unbroken.2, next, if_neg (Ne.symm unbroken.1)]
    simp only [shift, List.length_cons, Position.mk.injEq, true_and]
    omega

/-- Further on in a text is further on from wherever the text starts. -/
theorem after_take_lt (p : Position) {m n : Nat} (before : m < n) (bound : n ≤ t.length) :
    p.after (t.take m) < p.after (t.take n) := by
  have front : t.take n = t.take m ++ (t.drop m).take (n - m) := by
    rw [← List.take_add, Nat.add_sub_cancel' (Nat.le_of_lt before)]
  rw [front, after_append]
  apply lt_after
  apply List.ne_nil_of_length_pos
  rw [List.length_take, List.length_drop]
  omega

/-- Positions keep their order when they are told in an outer text. -/
theorem inside_strictMono (base : Position) : StrictMono base.inside := by
  intro p q before
  rw [lt_iff] at before ⊢
  simp only [inside]
  split <;> split <;> omega

/-- Telling a position in a text and then in the text around that is telling it there at once. -/
theorem inside_inside (outer base p : Position) :
    outer.inside (base.inside p) = (outer.inside base).inside p := by
  -- The sum of the two lines is the first line of the outer text only if both are first lines.
  by_cases first : p.line = 0 <;> by_cases start : base.line = 0 <;>
    simp [inside, first, start, Nat.add_assoc]

end Position

end LocatedHtml
