import LocatedHtml.Proofs.PositionOrder
import LocatedHtml.Proofs.Spans.Texts
import LocatedHtml.Proofs.Text.Lines

/-!
Offsets of a text as positions and back. Offsets outside of the text count as the nearest one inside; the
others have positions in their order, and these are the positions that the lines of the text have.
-/

namespace LocatedHtml

namespace Text

variable {t line : Text}

theorem joinLines_append_cons (front : List Text) (line : Text) (back : List Text) :
    joinLines (front ++ line :: back) = front.flatMap (· ++ ['\n']) ++ joinLines (line :: back) := by
  induction front with
  | nil => rfl
  | cons first front ih =>
    obtain ⟨next, more, split_⟩ := List.exists_cons_of_ne_nil (List.append_ne_nil_of_right_ne_nil front
      (List.cons_ne_nil line back))
    rw [List.cons_append, split_, joinLines_cons_cons, ← split_, ih, List.flatMap_cons]
    simp

/-- Behind some lines with their newlines another line starts. -/
theorem after_wholeLines {front : List Text} (apart : ∀ line ∈ front, '\n' ∉ line) (n : Nat) :
    Position.after ⟨n, 0⟩ (front.flatMap (· ++ ['\n'])) = ⟨n + front.length, 0⟩ := by
  induction front generalizing n with
  | nil => rfl
  | cons first front ih =>
    obtain ⟨unbroken, others⟩ := List.forall_mem_cons.1 apart
    have newline (p : Position) : p.after ['\n'] = ⟨p.line + 1, 0⟩ := rfl
    rw [List.flatMap_cons, Position.after_append, Position.after_append, Position.after_of_unbroken unbroken,
      newline, ih others, List.length_cons, Position.shift, Nat.add_right_comm, Nat.add_assoc]

/-- Every line of a text stands in it, and it starts with the first column of the line. -/
theorem exists_line {k : Nat} (found : t.lines[k]? = some line) :
    ∃ before after, t = before ++ line ++ after ∧ Position.origin.after before = ⟨k, 0⟩ := by
  obtain ⟨inside, here⟩ := List.getElem?_eq_some_iff.1 found
  have parts : t.lines = t.lines.take k ++ line :: t.lines.drop (k + 1) := by
    rw [← here, ← List.drop_eq_getElem_cons inside, List.take_append_drop]
  have apart : ∀ line ∈ t.lines.take k, '\n' ∉ line :=
    fun line member => newline_notMem (List.mem_of_mem_take member)
  have starts := after_wholeLines apart 0
  rw [Nat.zero_add, List.length_take_of_le (Nat.le_of_lt inside)] at starts
  have whole := joinLines_lines t
  rw [parts, joinLines_append_cons] at whole
  cases more : t.lines.drop (k + 1) with
  | nil =>
    rw [more, joinLines_singleton] at whole
    exact ⟨_, [], by rw [List.append_nil, whole], starts⟩
  | cons next back =>
    rw [more, joinLines_cons_cons, ← List.append_assoc] at whole
    exact ⟨_, _, whole.symm, starts⟩

end Text

namespace LineTable

variable {t : Text}

theorem clamp_le (t : Text) (o : Int) : (ofText t).clamp o ≤ t.length := Nat.min_le_right _ _

/-- The position of any offset is the one of the nearest offset in the text. -/
theorem position_clamp (t : Text) (o : Int) :
    (ofText t).position o = Position.origin.after (t.take ((ofText t).clamp o)) := by
  have same : (ofText t).clamp ((ofText t).clamp o) = (ofText t).clamp o := clamp_eq (clamp_le t o)
  rw [← position_eq (clamp_le t o), position, position, same]

theorem offset_le (t : Text) (p : Position) : (ofText t).offset p ≤ t.length := by
  unfold offset
  split
  · exact Nat.min_le_right _ _
  · exact Nat.le_refl _

/-- Offsets further on have positions further on. -/
theorem position_lt (t : Text) {m n : Int} (lower : 0 ≤ m) (before : m < n) (upper : n ≤ t.length) :
    (ofText t).position m < (ofText t).position n := by
  obtain ⟨m, rfl⟩ := Int.eq_ofNat_of_zero_le lower
  obtain ⟨n, rfl⟩ := Int.eq_ofNat_of_zero_le (Int.le_trans lower (Int.le_of_lt before))
  have before : m < n := Int.ofNat_lt.1 before
  have bound : n ≤ t.length := Int.ofNat_le.1 upper
  rw [position_eq (Nat.le_trans (Nat.le_of_lt before) bound), position_eq bound]
  exact Position.origin.after_take_lt before bound

/-- A position on a line that the text has leads to an offset with that position. -/
theorem position_offset {line : Text} {p : Position} (found : t.lines[p.line]? = some line)
    (column : p.column ≤ line.length) : (ofText t).position ((ofText t).offset p) = p := by
  obtain ⟨before, after, whole, starts⟩ := Text.exists_line found
  have bound : before.length + p.column ≤ t.length := by
    rw [whole, List.length_append, List.length_append]
    omega
  have front : t.take (before.length + p.column) = before ++ line.take p.column := by
    rw [whole, List.append_assoc, List.take_length_add_append, List.take_append_of_le_length column]
  have unbroken : '\n' ∉ line.take p.column := by
    intro newline
    exact Text.newline_notMem (List.mem_of_getElem? found) (List.mem_of_mem_take newline)
  have place : (ofText t).position (before.length + p.column : Nat) = p := by
    rw [position_eq bound, front, Position.after_append, starts, Position.after_of_unbroken unbroken,
      List.length_take_of_le column, Position.shift, Nat.zero_add]
  rw [← place, offset_position bound]

end LineTable

/-- The offsets of a document and the positions on its lines are the same places in the same order. An
offset outside of the contents counts as the nearest one inside, and every position leads inside. -/
theorem Document.positions_of_offsets (d : Document) :
    (∀ o : Int, ∃ n : Nat, (n : Int) = max 0 (min o d.contents.length) ∧
      d.lineTable.position o = ⟨(d.contents.take n).count '\n',
        ((d.contents.take n).reverse.takeWhile (· != '\n')).length⟩ ∧
      d.lineTable.offset (d.lineTable.position o) = n) ∧
    (∀ m n : Int, 0 ≤ m → m < n → n ≤ d.contents.length →
      d.lineTable.position m < d.lineTable.position n) ∧
    (∀ p, ∀ line ∈ d.contents.lines[p.line]?, p.column ≤ line.length →
      d.lineTable.position (d.lineTable.offset p) = p) ∧
    ∀ p, d.lineTable.offset p ≤ d.contents.length := by
  refine ⟨fun o => ⟨d.lineTable.clamp o, ?_, ?_, ?_⟩,
    fun m n lower before upper => LineTable.position_lt d.contents lower before upper,
    fun p line found column => LineTable.position_offset found column, LineTable.offset_le d.contents⟩
  · simp only [LineTable.clamp, lineTable, LineTable.ofText]
    omega
  · exact (LineTable.position_clamp d.contents o).trans (Position.after_origin _)
  · have bound := LineTable.clamp_le d.contents o
    have nearest : d.lineTable.position o = d.lineTable.position (d.lineTable.clamp o) :=
      (LineTable.position_clamp d.contents o).trans (LineTable.position_eq bound).symm
    rw [nearest]
    exact LineTable.offset_position bound

theorem Document.positions_of_offsets_emptyLine :
    let d : Document := { url := "u", contents := "a\n\nb".toList, body := .text }
    d.lineTable.position 1 < d.lineTable.position 2 ∧ d.contents.lines[1]? = some [] ∧
      d.lineTable.position (d.lineTable.offset ⟨1, 0⟩) = ⟨1, 0⟩ := by
  intro d
  obtain ⟨_, increasing, back, _⟩ := positions_of_offsets d
  have order : d.lineTable.position 1 < d.lineTable.position 2 :=
    increasing 1 2 (by decide) (by decide) (by decide)
  exact ⟨order, rfl, back ⟨1, 0⟩ [] rfl (Nat.zero_le 0)⟩

end LocatedHtml
