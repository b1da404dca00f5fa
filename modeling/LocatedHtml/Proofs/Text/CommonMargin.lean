import LocatedHtml.Proofs.Text.Reindenting
import Mathlib.Data.List.Infix

/-!
The margin that the lines of a text have in common, and what is left of the lines when it is replaced. Every
line with something on it loses the margin and nothing else; the other lines lose everything, and between two
lines with something on them none is lost.
-/

namespace LocatedHtml

/-- True of a line with something on it. -/
def isWritten (line : Text) : Bool := !(Text.strip line).isEmpty

/-- The longest text that all lines start with, of spaces and tabs; lines of nothing but spaces and tabs have
no part in it, so without any other line it may be every text. -/
structure IsMargin (m : Text) (ls : List Text) : Prop where
  common : ∀ line ∈ ls, line.all isMarginChar = false → m <+: lead line
  longest : ∀ p, (∀ line ∈ ls, line.all isMarginChar = false → p <+: lead line) →
    ∀ line ∈ ls, line.all isMarginChar = false → p <+: m

/-- How many lines have nothing on them between one line that has and the next one, in order. -/
def gaps (ls : List Text) : List Nat := ((ls.splitOnP isWritten).tail.dropLast).map List.length

variable {m p line : Text} {ls es : List Text} {g : Text → Text}

section Margins

theorem isWritten_eq (line : Text) : isWritten line = !line.all isBlank := by
  have same : (Text.strip line).isEmpty = line.all isBlank := by
    rw [Bool.eq_iff_iff, Text.strip, List.isEmpty_reverse, List.isEmpty_iff, List.dropWhile_eq_nil_iff]
    simp only [List.mem_reverse, List.all_eq_true]
    constructor
    · intro rest c member
      rw [← List.takeWhile_append_dropWhile (p := isBlank) (l := line), List.mem_append] at member
      exact member.elim List.mem_takeWhile_imp (rest c)
    · exact fun all c member => all c ((List.dropWhile_suffix _).subset member)
  rw [isWritten, same]

theorem prefix_commonStart {a b : Text} (first : p <+: a) (second : p <+: b) : p <+: commonStart a b := by
  obtain ⟨a', rfl⟩ := first
  obtain ⟨b', rfl⟩ := second
  rw [commonStart_append]
  exact List.prefix_append _ _

theorem prefix_foldl_commonStart {first : Text} {rest : List Text} (start : p <+: first)
    (others : ∀ a ∈ rest, p <+: a) : p <+: rest.foldl commonStart first := by
  induction rest generalizing first with
  | nil => exact start
  | cons b rest ih =>
    obtain ⟨next, others⟩ := List.forall_mem_cons.1 others
    exact ih (prefix_commonStart start next) others

theorem isMargin_margin (ls : List Text) : IsMargin (margin ls) ls where
  common _ := margin_isPrefix
  longest p common line member dark := by
    have all : ∀ a ∈ (ls.filter fun line => !line.all isMarginChar).map lead, p <+: a := by
      rw [List.forall_mem_map]
      intro line kept
      obtain ⟨member, dark⟩ := List.mem_filter.1 kept
      exact common line member (by simpa using dark)
    have inside : lead line ∈ (ls.filter fun line => !line.all isMarginChar).map lead :=
      List.mem_map_of_mem (List.mem_filter.2 ⟨member, by rw [dark]; rfl⟩)
    obtain ⟨first, rest, leads⟩ := List.exists_cons_of_ne_nil (List.ne_nil_of_mem inside)
    rw [leads] at all
    rw [margin_eq_foldl leads]
    exact prefix_foldl_commonStart (List.forall_mem_cons.1 all).1 (List.forall_mem_cons.1 all).2

/-- Lines of which one has more than spaces and tabs have one margin. -/
theorem IsMargin.eq_margin (common : IsMargin m ls) (member : line ∈ ls) (dark : line.all isMarginChar = false) :
    m = margin ls := by
  have there := (isMargin_margin ls).longest m common.common line member dark
  have back := common.longest _ (isMargin_margin ls).common line member dark
  exact there.eq_of_length_le back.length_le

end Margins

section Gaps

theorem splitOnP_map (q : Text → Bool) (ls : List Text) :
    (ls.map g).splitOnP q = (ls.splitOnP (q ∘ g)).map (List.map g) := by
  induction ls with
  | nil => rfl
  | cons line ls ih =>
    rw [List.map_cons, List.splitOnP_cons_eq_if_modifyHead, List.splitOnP_cons_eq_if_modifyHead, ih,
      Function.comp_apply]
    split
    · rfl
    · cases ls.splitOnP (q ∘ g) <;> rfl

theorem gaps_map (same : ∀ line, isWritten (g line) = isWritten line) (ls : List Text) :
    gaps (ls.map g) = gaps ls := by
  rw [gaps, splitOnP_map, show isWritten ∘ g = isWritten from funext same, gaps, ← List.map_tail,
    ← List.map_dropLast, List.map_map]
  simp [Function.comp_def]

theorem gaps_append_left (blank : ∀ e ∈ es, isWritten e = false) : gaps (es ++ ls) = gaps ls := by
  have tail : ((es ++ ls).splitOnP isWritten).tail = (ls.splitOnP isWritten).tail := by
    induction es with
    | nil => rfl
    | cons e es ih =>
      obtain ⟨here, there⟩ := List.forall_mem_cons.1 blank
      rw [List.cons_append, List.splitOnP_cons_eq_if_modifyHead, here, if_neg Bool.false_ne_true,
        List.tail_modifyHead, ih there]
  rw [gaps, tail, gaps]

theorem gaps_append_right (blank : ∀ e ∈ es, isWritten e = false) : gaps (ls ++ es) = gaps ls := by
  have front : ((ls ++ es).splitOnP isWritten).dropLast = (ls.splitOnP isWritten).dropLast := by
    induction ls with
    | nil =>
      rw [List.nil_append, List.splitOnP_eq_singleton blank, List.splitOnP_nil]
      rfl
    | cons line ls ih =>
      obtain ⟨run, runs, whole⟩ := List.exists_cons_of_ne_nil (List.splitOnP_ne_nil isWritten (ls ++ es))
      obtain ⟨run', runs', part⟩ := List.exists_cons_of_ne_nil (List.splitOnP_ne_nil isWritten ls)
      rw [whole, part] at ih
      rw [List.cons_append, List.splitOnP_cons_eq_if_modifyHead, List.splitOnP_cons_eq_if_modifyHead, whole, part]
      split
      · exact congrArg ([] :: ·) ih
      · cases runs <;> cases runs' <;> simp_all
  rw [gaps, ← List.tail_dropLast, front, List.tail_dropLast, gaps]

end Gaps

section Moving

theorem isWritten_append (space : p.all isMarginChar = true) (line : Text) :
    isWritten (p ++ line) = isWritten line := by
  rw [isWritten_eq, isWritten_eq, List.all_append, all_isBlank_of_margin space, Bool.true_and]

theorem isWritten_dropMargin (space : m.all isMarginChar = true) (line : Text) :
    isWritten (dropMargin m line) = isWritten line := by
  unfold dropMargin
  split
  · next blank =>
    rw [isWritten_eq, isWritten_eq, all_isBlank_of_margin blank]
    rfl
  · cases rest : Text.dropStart? m line with
    | none => rfl
    | some rest => rw [Text.dropStart?_eq_some_iff.1 rest, isWritten_append space, Option.getD_some]

theorem isWritten_indentedLine (space : p.all isMarginChar = true) (line : Text) :
    isWritten (indentedLine p line) = isWritten line := by
  unfold indentedLine
  split
  · next blank =>
    rw [isWritten_eq, isWritten_eq, blank]
    rfl
  · exact isWritten_append space line

/-- The line with the margin of some lines replaced by an indentation; a line with nothing on it is emptied. -/
def movedLine (ls : List Text) (indent line : Text) : Text := indentedLine indent (dropMargin (margin ls) line)

theorem isWritten_movedLine (space : p.all isMarginChar = true) (line : Text) :
    isWritten (movedLine ls p line) = isWritten line := by
  rw [movedLine, isWritten_indentedLine space, isWritten_dropMargin (margin_all ls)]

theorem isMargin_of_written (written : isWritten line = true) : line.all isMarginChar = false := by
  rw [isWritten_eq, Bool.not_eq_true'] at written
  exact isMargin_of_dark written

theorem movedLine_of_written (member : line ∈ ls) (written : isWritten line = true) :
    movedLine ls p line = p ++ line.drop (margin ls).length := by
  have whole := eq_margin_append member (isMargin_of_written written)
  have kept : (dropMargin (margin ls) line).all isBlank = false := by
    rw [← isWritten_dropMargin (margin_all ls), isWritten_eq, Bool.not_eq_true'] at written
    exact written
  conv => rhs; rw [whole, List.drop_left]
  rw [movedLine, indentedLine_of_dark kept]

theorem eq_nil_of_moved (unwritten : isWritten (movedLine ls p line) = false) : movedLine ls p line = [] := by
  unfold movedLine indentedLine at *
  split
  · rfl
  · next dark => simp_all [isWritten_eq]

/-- The lines of an indented text are the moved lines of the text, but for empty lines at both ends. -/
theorem exists_moved_lines (levels : Nat) (t : Text) : ∃ front core back n,
    (Text.lines t).map (movedLine (Text.lines t) (indentation levels)) = front ++ (core ++ back) ∧
    Text.lines (reindent levels t) = core ++ List.replicate n [] ∧
    (∀ e ∈ front, isWritten e = false) ∧ ∀ e ∈ back, isWritten e = false := by
  obtain ⟨n, lines⟩ := exists_lines_reindent levels t
  obtain ⟨front, back, whole, first, last⟩ := exists_trimmedLines (dedentedLines (Text.lines t))
  have unwritten {es : List Text} (empty : ∀ e ∈ es, e.isEmpty = true) :
      ∀ e ∈ es.map (indentedLine (indentation levels)), isWritten e = false := by
    rw [List.forall_mem_map]
    intro e member
    rw [List.isEmpty_iff.1 (empty e member), isWritten_indentedLine (indentation_all levels)]
    decide
  refine ⟨_, _, _, n, ?_, lines, unwritten first, unwritten last⟩
  rw [← List.map_append, ← List.map_append, ← whole, dedentedLines, List.map_map]
  rfl

end Moving

namespace Document

variable {d : Document}

/-- A text document is written with the margin that its lines have in common replaced by the indentation, and
with nothing else changed on any line that has something on it. Any other line becomes empty, and between two
lines that have something on them none is lost or added. -/
theorem render_moved (text : d.body = .text) (inlines : List Document) (indent : Nat) :
    ∃ out, d.render inlines indent = .ok out ∧ (∃ m, IsMargin m (Text.lines d.contents)) ∧
      ∀ m, IsMargin m (Text.lines d.contents) →
        (∀ line ∈ Text.lines d.contents, isWritten line = true → m <+: line) ∧
        (Text.lines out).filter isWritten = ((Text.lines d.contents).filter isWritten).map
          (fun line => List.replicate (2 * indent) ' ' ++ line.drop m.length) ∧
        (∀ line ∈ Text.lines out, isWritten line = false → line = []) ∧
        gaps (Text.lines out) = gaps (Text.lines d.contents) := by
  refine ⟨_, render_text text inlines indent, ⟨_, isMargin_margin _⟩, fun m common => ?_⟩
  have space := indentation_all indent
  obtain ⟨front, core, back, n, moved, lines, first, last⟩ := exists_moved_lines indent d.contents
  have empty : ∀ e ∈ List.replicate n ([] : Text), isWritten e = false := fun e member => by
    rw [List.eq_of_mem_replicate member]
    decide
  have none {es : List Text} (unwritten : ∀ e ∈ es, isWritten e = false) : es.filter isWritten = [] :=
    List.filter_eq_nil_iff.2 fun e member => by rw [unwritten e member]; exact Bool.false_ne_true
  have same {line : Text} (member : line ∈ Text.lines d.contents) (written : isWritten line = true) :
      m = margin (Text.lines d.contents) := common.eq_margin member (isMargin_of_written written)
  refine ⟨fun line member written => ?_, ?_, fun line member unwritten => ?_, ?_⟩
  · exact (common.common line member (isMargin_of_written written)).trans (List.takeWhile_prefix _)
  · calc (Text.lines (reindent indent d.contents)).filter isWritten
      _ = (front ++ (core ++ back)).filter isWritten := by
        rw [lines]
        simp only [List.filter_append, none first, none last, none empty, List.nil_append]
      _ = ((Text.lines d.contents).filter isWritten).map
          (movedLine (Text.lines d.contents) (indentation indent)) := by
        rw [← moved, List.filter_map]
        congr 1
        exact List.filter_congr fun line _ => isWritten_movedLine space line
      _ = _ := List.map_congr_left fun line kept => by
        obtain ⟨member, written⟩ := List.mem_filter.1 kept
        rw [movedLine_of_written member written, same member written, indentation]
  · rw [lines, List.mem_append] at member
    rcases member with member | member
    · have inside : line ∈ front ++ (core ++ back) :=
        List.mem_append_right _ (List.mem_append_left _ member)
      rw [← moved] at inside
      obtain ⟨old, _, rfl⟩ := List.mem_map.1 inside
      exact eq_nil_of_moved unwritten
    · exact List.eq_of_mem_replicate member
  · rw [lines, gaps_append_right empty, ← gaps_append_right last, ← gaps_append_left first, ← moved,
      gaps_map (isWritten_movedLine space)]

theorem render_moved_mixed : ∃ (d : Document) (out : Text), d.body = .text ∧
    d.contents = "\t  a\r\n \n\t b \n".toList ∧ d.render [] 1 = .ok out ∧
    IsMargin "\t ".toList (Text.lines d.contents) ∧
    (Text.lines out).filter isWritten = ["   a\r".toList, "  b ".toList] ∧
    gaps (Text.lines out) = [1] := by
  let d : Document := ⟨"u", "\t  a\r\n \n\t b \n".toList, .text, false, none, none⟩
  obtain ⟨out, rendered, _, moved⟩ := render_moved (d := d) rfl [] 1
  have common : IsMargin "\t ".toList (Text.lines d.contents) := by
    have same : margin (Text.lines d.contents) = "\t ".toList := by decide +kernel
    exact same ▸ isMargin_margin _
  obtain ⟨_, written, _, kept⟩ := moved _ common
  exact ⟨d, out, rfl, rfl, rendered, common, written.trans (by decide +kernel), kept.trans (by decide +kernel)⟩

end Document

end LocatedHtml
