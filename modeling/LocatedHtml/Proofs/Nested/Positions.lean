import LocatedHtml.Embedding
import LocatedHtml.LineTable
import Mathlib.Data.List.TakeWhile

/-!
Positions of a text that starts somewhere in another one. Moving along the inner text moves along the
outer one, so an embedding maps the place of a piece of the inner text to its place in the outer text. The
table of line starts tells the same positions as moving along a text.
-/

namespace LocatedHtml

namespace Position

/-- The position in the outer text of a position of a text that starts at `base`. -/
def inside (base p : Position) : Position :=
  ⟨p.line + base.line, p.column + if p.line = 0 then base.column else 0⟩

theorem inside_origin (base : Position) : base.inside origin = base := by
  rw [inside, origin, if_pos rfl, Nat.zero_add, Nat.zero_add]

theorem origin_inside (p : Position) : origin.inside p = p := by
  simp [inside, origin]

theorem inside_next (base p : Position) (c : Char) : base.inside (p.next c) = (base.inside p).next c := by
  unfold next
  split
  · simp only [inside, Nat.succ_ne_zero, if_false, Nat.add_right_comm]
  · simp only [inside, Nat.add_right_comm]

theorem inside_after (base p : Position) (t : Text) :
    base.inside (p.after t) = (base.inside p).after t := by
  induction t generalizing p with
  | nil => rfl
  | cons c t ih =>
    change base.inside ((p.next c).after t) = ((base.inside p).next c).after t
    rw [ih, inside_next]

theorem inside_shift (base p : Position) (n : Nat) : base.inside (p.shift n) = (base.inside p).shift n := by
  rw [inside, inside, shift, shift]
  dsimp only
  rw [Nat.add_right_comm]

/-- The position after a piece of a text that starts at `base`. -/
theorem inside_after_origin (base : Position) (t : Text) : base.inside (origin.after t) = base.after t := by
  rw [inside_after, inside_origin]

end Position

namespace Embedding

/-- The position at which the inner text starts, if the embedding has one. -/
def base (e : Embedding) : Position := ⟨e.line.toNat, e.column.toNat⟩

/-- The embedding starts at a position of its container. -/
structure Proper (e : Embedding) : Prop where
  line : 0 ≤ e.line
  column : 0 ≤ e.column

theorem toOuter_eq {e : Embedding} (proper : e.Proper) (p : Position) :
    e.toOuter p = .ok (e.base.inside p) := by
  have line := proper.line
  have column := proper.column
  have across : (p.column : Int) + (if p.line = 0 then e.column else 0) =
      (p.column + if p.line = 0 then e.column.toNat else 0 : Nat) := by
    split <;> omega
  have down : (p.line : Int) + e.line = (p.line + e.line.toNat : Nat) := by omega
  rw [toOuter, across, down, Position.ofInts, if_neg (by omega), if_neg (by omega)]
  rfl

theorem proper_ofPosition (p : Position) (file : Option String) :
    Proper ⟨p.line, p.column, file⟩ := ⟨Int.natCast_nonneg _, Int.natCast_nonneg _⟩

end Embedding

namespace Text

theorem lt_of_mem_startsAfterNewlines {offset start : Nat} {t : Text}
    (member : start ∈ t.startsAfterNewlines offset) : offset < start := by
  induction t generalizing offset with
  | nil => cases member
  | cons c t ih =>
    have later (inner : start ∈ startsAfterNewlines (offset + 1) t) : offset < start :=
      Nat.lt_of_succ_lt (ih inner)
    unfold startsAfterNewlines at member
    split at member
    · rcases List.mem_cons.1 member with rfl | inner
      · exact Nat.lt_succ_self offset
      · exact later inner
    · exact later member

/-- The lines that start up to an offset, and the last of them, give the position of the offset. -/
theorem after_take (p : Position) {offset n limit : Nat} {t : Text} (bound : n ≤ t.length)
    (column : p.column ≤ offset) (place : offset + n = limit) {reached : List Nat}
    (lines : (t.startsAfterNewlines offset).takeWhile (· ≤ limit) = reached) :
    p.after (t.take n) =
      ⟨p.line + reached.length, limit - reached.getLastD (offset - p.column)⟩ := by
  induction t generalizing p offset n reached with
  | nil =>
    obtain rfl : n = 0 := Nat.le_zero.1 bound
    subst place lines
    change p = ⟨p.line, offset - (offset - p.column)⟩
    rw [Nat.sub_sub_self column]
  | cons c t ih =>
    cases n with
    | zero =>
      subst place
      have nothing : reached = [] := by
        rw [← lines, List.takeWhile_eq_nil_iff]
        intro some first
        have later := lt_of_mem_startsAfterNewlines (List.getElem_mem some)
        exact Nat.not_le.2 later (of_decide_eq_true first)
      subst nothing
      change p = ⟨p.line, offset - (offset - p.column)⟩
      rw [Nat.sub_sub_self column]
    | succ n =>
      have bound : n ≤ t.length := Nat.le_of_succ_le_succ bound
      have place : offset + 1 + n = limit := by omega
      change (p.next c).after (t.take n) = _
      unfold startsAfterNewlines at lines
      unfold Position.next
      split at lines
      · next newline =>
        have early : decide (offset + 1 ≤ limit) = true := decide_eq_true (by omega)
        rw [List.takeWhile_cons, early, if_pos rfl] at lines
        rw [if_pos newline, ih ⟨p.line + 1, 0⟩ bound (Nat.zero_le _) place rfl, ← lines]
        dsimp only
        rw [List.length_cons, List.getLastD_cons, Nat.sub_zero, Nat.add_right_comm, Nat.add_assoc p.line]
      · next other =>
        rw [if_neg other, ih ⟨p.line, p.column + 1⟩ bound (Nat.succ_le_succ column) place lines]
        dsimp only
        rw [Nat.succ_eq_add_one, Nat.add_sub_add_right]

end Text

namespace LineTable

theorem clamp_eq {t : Text} {n : Nat} (bound : n ≤ t.length) : (ofText t).clamp n = n := by
  rw [clamp, ofText, Int.toNat_natCast]
  exact Nat.min_eq_left bound

/-- The position of an offset is the one reached by moving along the text. -/
theorem position_eq {t : Text} {n : Nat} (bound : n ≤ t.length) :
    (ofText t).position n = Position.origin.after (t.take n) := by
  have whole := Text.after_take .origin bound (Nat.le_refl 0) (Nat.zero_add n) rfl
  unfold position
  dsimp only
  rw [clamp_eq bound, ofText, List.takeWhile_cons_of_pos (by simp), List.length_cons, List.getLastD_cons,
    Nat.add_sub_cancel, whole]
  simp only [Position.origin, Nat.zero_add, Nat.sub_zero]

/-- The line of an offset is in the table, and its start and the column lead back to the offset. -/
theorem exists_start {t : Text} {n : Nat} (bound : n ≤ t.length) :
    ∃ start, (ofText t).starts[((ofText t).position n).line]? = some start ∧
      start + ((ofText t).position n).column = n := by
  unfold position
  dsimp only
  rw [clamp_eq bound]
  have part := List.takeWhile_prefix (l := (ofText t).starts) (· ≤ n)
  have nonempty : (ofText t).starts.takeWhile (· ≤ n) ≠ [] := by simp [ofText]
  have early : ∀ start ∈ (ofText t).starts.takeWhile (· ≤ n), start ≤ n :=
    fun start member => by simpa using List.mem_takeWhile_imp member
  generalize (ofText t).starts.takeWhile (· ≤ n) = reached at part nonempty early ⊢
  obtain ⟨later, whole⟩ := part
  have some_ := List.length_pos_iff.2 nonempty
  refine ⟨reached.getLast nonempty, ?_, ?_⟩
  · rw [← whole, List.getElem?_append_left (Nat.sub_lt some_ Nat.zero_lt_one),
      ← List.getLast?_eq_getElem?, List.getLast?_eq_some_getLast nonempty]
  · rw [List.getLastD_eq_getLast?, List.getLast?_eq_some_getLast nonempty, Option.getD_some]
    exact Nat.add_sub_cancel' (early _ (List.getLast_mem nonempty))

end LineTable

end LocatedHtml
