import LocatedHtml.Document.Rendering
import LocatedHtml.Proofs.Text.Lines

/-!
Texts that are indented again and again. Indenting takes the margin of the lines, in which lines of spaces
and tabs have no part, and leaves nothing of a line of blanks of any kind. A blank line that has, say, a
carriage return counts for the margin the first time and is gone the second time. So two indentations are
one of the text with its blank lines emptied, and where blank lines are of spaces and tabs the first of two
indentations makes no difference.
-/

namespace LocatedHtml

/-- The lines without the empty ones before the first and behind the last that is not empty. -/
def trimmedLines (ls : List Text) : List Text := (ls.dropWhile List.isEmpty).rdropWhile List.isEmpty

/-- The lines moved to the left as far as they go together. -/
def dedentedLines (ls : List Text) : List Text := ls.map (dropMargin (margin ls))

/-- A line behind an indentation; a line of blanks is emptied. -/
def indentedLine (indent line : Text) : Text := if line.all isBlank then [] else indent ++ line

/-- The lines moved to the left as far as those go together that are not blank; the others are emptied. -/
def flushLines (ls : List Text) : List Text :=
  ls.map fun line =>
    if line.all isBlank then [] else dropMargin (margin (ls.filter fun line => !line.all isBlank)) line

/-- The text with nothing on its blank lines. -/
def clearBlankLines (t : Text) : Text := Text.joinLines ((Text.lines t).map (indentedLine []))

variable {p line t : Text} {ls es : List Text} {g : Text → Text}

section Trimming

theorem rdropWhile_append_of_pos (empty : ∀ e ∈ es, e.isEmpty = true) :
    (ls ++ es).rdropWhile List.isEmpty = ls.rdropWhile List.isEmpty := by
  rw [List.rdropWhile, List.reverse_append,
    List.dropWhile_append_of_pos fun e member => empty e (List.mem_reverse.1 member), ← List.rdropWhile]

theorem trimmedLines_append_left (empty : ∀ e ∈ es, e.isEmpty = true) :
    trimmedLines (es ++ ls) = trimmedLines ls := by
  rw [trimmedLines, List.dropWhile_append_of_pos empty, ← trimmedLines]

theorem trimmedLines_append_right (empty : ∀ e ∈ es, e.isEmpty = true) :
    trimmedLines (ls ++ es) = trimmedLines ls := by
  rw [trimmedLines, List.dropWhile_append]
  split
  · next nothing =>
    rw [List.dropWhile_eq_nil_iff.2 empty, trimmedLines, List.isEmpty_iff.1 nothing]
  · rw [rdropWhile_append_of_pos empty, ← trimmedLines]

theorem exists_trimmedLines (ls : List Text) : ∃ front back, ls = front ++ (trimmedLines ls ++ back) ∧
    (∀ e ∈ front, e.isEmpty = true) ∧ ∀ e ∈ back, e.isEmpty = true := by
  refine ⟨ls.takeWhile List.isEmpty, (ls.dropWhile List.isEmpty).rtakeWhile List.isEmpty, ?_,
    fun e => List.mem_takeWhile_imp, fun e => List.mem_rtakeWhile_imp⟩
  rw [trimmedLines, List.rdropWhile_append_rtakeWhile, List.takeWhile_append_dropWhile]

/-- Lines can be trimmed before they are changed, where the change leaves empty lines empty. -/
theorem trimmedLines_map (empty : g [] = []) : trimmedLines ((trimmedLines ls).map g) = trimmedLines (ls.map g) := by
  obtain ⟨front, back, whole, first, last⟩ := exists_trimmedLines ls
  have still {es : List Text} (all : ∀ e ∈ es, e.isEmpty = true) : ∀ e ∈ es.map g, e.isEmpty = true := by
    rw [List.forall_mem_map]
    intro e member
    rw [List.isEmpty_iff.1 (all e member), empty]
    rfl
  conv => rhs; rw [whole]
  rw [List.map_append, List.map_append, trimmedLines_append_left (still first),
    trimmedLines_append_right (still last)]

theorem filter_trimmedLines (ls : List Text) : (trimmedLines ls).filter (fun line => !line.all isBlank) =
    ls.filter fun line => !line.all isBlank := by
  obtain ⟨front, back, whole, first, last⟩ := exists_trimmedLines ls
  have nothing {es : List Text} (all : ∀ e ∈ es, e.isEmpty = true) :
      es.filter (fun line => !line.all isBlank) = [] := by
    rw [List.filter_eq_nil_iff]
    intro e member
    rw [List.isEmpty_iff.1 (all e member)]
    decide
  conv => rhs; rw [whole]
  rw [List.filter_append, List.filter_append, nothing first, nothing last, List.nil_append, List.append_nil]

theorem stripNewlines_joinLines (apart : ∀ line ∈ ls, '\n' ∉ line) :
    stripNewlines (Text.joinLines ls) = Text.joinLines (trimmedLines ls) := by
  have left : ∀ line ∈ (ls.dropWhile List.isEmpty).map List.reverse, '\n' ∉ line := by
    rw [List.forall_mem_map]
    intro line member
    rw [List.mem_reverse]
    exact apart line ((List.dropWhile_suffix _).subset member)
  have empty : List.isEmpty ∘ List.reverse = (List.isEmpty : Text → Bool) := by
    funext line
    simp
  have back : ((ls.dropWhile List.isEmpty).map List.reverse).reverse.dropWhile List.isEmpty =
      ((ls.dropWhile List.isEmpty).reverse.dropWhile List.isEmpty).map List.reverse := by
    rw [← List.map_reverse, List.dropWhile_map, empty]
  unfold stripNewlines
  rw [Text.dropWhile_joinLines apart, Text.reverse_joinLines, Text.dropWhile_joinLines (by simpa using left),
    Text.reverse_joinLines, back]
  simp [trimmedLines, List.rdropWhile]

end Trimming

section Margins

theorem isBlank_of_isMarginChar {c : Char} (margin : isMarginChar c = true) : isBlank c = true := by
  simp only [isMarginChar, Bool.or_eq_true, decide_eq_true_eq] at margin
  rcases margin with rfl | rfl <;> decide

theorem all_isBlank_of_margin (margin : line.all isMarginChar = true) : line.all isBlank = true :=
  List.all_eq_true.2 fun c member => isBlank_of_isMarginChar (List.all_eq_true.1 margin c member)

theorem commonStart_append (p a b : Text) : commonStart (p ++ a) (p ++ b) = p ++ commonStart a b := by
  induction p with
  | nil => rfl
  | cons c p ih => simp [commonStart, ih]

theorem commonStart_prefix_left (a b : Text) : commonStart a b <+: a := by
  induction a generalizing b with
  | nil => exact List.prefix_rfl
  | cons c a ih =>
    cases b with
    | nil => exact List.nil_prefix
    | cons d b =>
      unfold commonStart
      split
      · exact (List.prefix_cons_inj c).2 (ih b)
      · exact List.nil_prefix

theorem commonStart_comm (a b : Text) : commonStart a b = commonStart b a := by
  induction a generalizing b with
  | nil => cases b <;> rfl
  | cons c a ih =>
    cases b with
    | nil => rfl
    | cons d b =>
      unfold commonStart
      by_cases same : c = d
      · subst same
        rw [if_pos rfl, if_pos rfl, ih]
      · rw [if_neg same, if_neg (Ne.symm same)]

theorem commonStart_prefix_right (a b : Text) : commonStart a b <+: b := by
  rw [commonStart_comm]
  exact commonStart_prefix_left b a

theorem foldl_commonStart_isPrefix (first : Text) (rest : List Text) :
    rest.foldl commonStart first <+: first ∧ ∀ a ∈ rest, rest.foldl commonStart first <+: a := by
  induction rest generalizing first with
  | nil => exact ⟨List.prefix_rfl, List.forall_mem_nil _⟩
  | cons b rest ih =>
    obtain ⟨start, others⟩ := ih (commonStart first b)
    exact ⟨start.trans (commonStart_prefix_left first b),
      List.forall_mem_cons.2 ⟨start.trans (commonStart_prefix_right first b), others⟩⟩

theorem foldl_commonStart_append (p first : Text) (rest : List Text) :
    (rest.map (p ++ ·)).foldl commonStart (p ++ first) = p ++ rest.foldl commonStart first := by
  induction rest generalizing first with
  | nil => rfl
  | cons b rest ih => rw [List.map_cons, List.foldl_cons, commonStart_append, ih, List.foldl_cons]

theorem margin_eq_foldl {first : Text} {rest : List Text}
    (leads : (ls.filter fun line => !line.all isMarginChar).map lead = first :: rest) :
    margin ls = rest.foldl commonStart first := by
  rw [margin, leads]

theorem margin_congr {ls' : List Text}
    (same : (ls.filter fun line => !line.all isMarginChar) = ls'.filter fun line => !line.all isMarginChar) :
    margin ls = margin ls' := by
  rw [margin, same, ← margin]

theorem margin_isPrefix (member : line ∈ ls) (dark : line.all isMarginChar = false) : margin ls <+: lead line := by
  have inside : lead line ∈ (ls.filter fun line => !line.all isMarginChar).map lead :=
    List.mem_map_of_mem (List.mem_filter.2 ⟨member, by rw [dark]; rfl⟩)
  cases leads : (ls.filter fun line => !line.all isMarginChar).map lead with
  | nil =>
    rw [leads] at inside
    cases inside
  | cons first rest =>
    rw [leads] at inside
    rw [margin_eq_foldl leads]
    obtain ⟨start, others⟩ := foldl_commonStart_isPrefix first rest
    rcases List.mem_cons.1 inside with same | later
    · rwa [same]
    · exact others _ later

theorem margin_of_blank (blank : ∀ line ∈ ls, line.all isMarginChar = true) : margin ls = [] := by
  have nothing : (ls.filter fun line => !line.all isMarginChar) = [] :=
    List.filter_eq_nil_iff.2 fun line member => by rw [blank line member]; decide
  rw [margin, nothing]
  rfl

theorem margin_all (ls : List Text) : (margin ls).all isMarginChar = true := by
  by_cases blank : ∀ line ∈ ls, line.all isMarginChar = true
  · rw [margin_of_blank blank]
    rfl
  · simp only [not_forall, Bool.not_eq_true] at blank
    obtain ⟨line, member, dark⟩ := blank
    exact List.all_eq_true.2 fun c inside =>
      List.mem_takeWhile_imp ((margin_isPrefix member dark).subset inside)

theorem lead_append (space : p.all isMarginChar = true) (line : Text) : lead (p ++ line) = p ++ lead line :=
  List.takeWhile_append_of_pos (List.all_eq_true.1 space)

theorem all_append (space : p.all isMarginChar = true) (line : Text) :
    (p ++ line).all isMarginChar = line.all isMarginChar := by
  rw [List.all_append, space, Bool.true_and]

theorem margin_map_append (space : p.all isMarginChar = true) (some_ : ls ≠ [])
    (dark : ∀ line ∈ ls, line.all isMarginChar = false) : margin (ls.map (p ++ ·)) = p ++ margin ls := by
  have all {ls : List Text} (dark : ∀ line ∈ ls, line.all isMarginChar = false) :
      (ls.filter fun line => !line.all isMarginChar) = ls :=
    List.filter_eq_self.2 fun line member => by rw [dark line member]; rfl
  have moved : ∀ line ∈ ls.map (p ++ ·), line.all isMarginChar = false := by
    rw [List.forall_mem_map]
    intro line member
    rw [all_append space, dark line member]
  have leads : (ls.map (p ++ ·)).map lead = (ls.map lead).map (p ++ ·) := by
    rw [List.map_map, List.map_map]
    exact List.map_congr_left fun line _ => lead_append space line
  obtain ⟨line, rest, rfl⟩ := List.exists_cons_of_ne_nil some_
  rw [margin, margin, all moved, all dark, leads]
  exact foldl_commonStart_append p (lead line) (rest.map lead)

theorem dropMargin_append {m rest : Text} (dark : (m ++ rest).all isMarginChar = false) :
    dropMargin m (m ++ rest) = rest := by
  rw [dropMargin, dark, if_neg Bool.false_ne_true, Text.dropStart?_eq_some_iff.2 rfl, Option.getD_some]

theorem eq_margin_append (member : line ∈ ls) (dark : line.all isMarginChar = false) :
    line = margin ls ++ dropMargin (margin ls) line := by
  obtain ⟨rest, whole⟩ := (margin_isPrefix member dark).trans (List.takeWhile_prefix _)
  rw [← whole] at dark
  rw [← whole, dropMargin_append dark]

end Margins

section Indenting

theorem isMargin_of_dark (dark : line.all isBlank = false) : line.all isMarginChar = false := by
  rw [← Bool.not_eq_true] at dark ⊢
  exact mt all_isBlank_of_margin dark

theorem indentedLine_of_dark (dark : line.all isBlank = false) : indentedLine p line = p ++ line := by
  rw [indentedLine, dark, if_neg Bool.false_ne_true]

theorem indentedLine_of_blank (blank : line.all isBlank = true) : indentedLine p line = [] := by
  rw [indentedLine, if_pos blank]

theorem filter_indented (space : p.all isMarginChar = true) (ls : List Text) :
    ((ls.map (indentedLine p)).filter fun line => !line.all isMarginChar) =
      (ls.filter fun line => !line.all isBlank).map (p ++ ·) := by
  induction ls with
  | nil => rfl
  | cons line ls ih =>
    cases blank : line.all isBlank with
    | true => rw [List.map_cons, indentedLine_of_blank blank, List.filter_cons_of_neg (by decide), ih,
        List.filter_cons_of_neg (by simp [blank])]
    | false => rw [List.map_cons, indentedLine_of_dark blank,
        List.filter_cons_of_pos (by rw [all_append space, isMargin_of_dark blank]; rfl), ih,
        List.filter_cons_of_pos (by simp [blank]), List.map_cons]

/-- Lines that have been indented lose the indentation again, whatever it was. -/
theorem dedentedLines_indented (space : p.all isMarginChar = true) (ls : List Text) :
    dedentedLines (ls.map (indentedLine p)) = flushLines ls := by
  rw [dedentedLines, flushLines, List.map_map]
  refine List.map_congr_left fun line member => ?_
  dsimp only [Function.comp_apply]
  cases blank : line.all isBlank with
  | true =>
    rw [indentedLine_of_blank blank]
    rfl
  | false =>
    -- the indentation empties all blank lines, so only the others have a part in the new margin
    have inside : line ∈ ls.filter fun line => !line.all isBlank := List.mem_filter.2 ⟨member, by simp [blank]⟩
    have dark : ∀ line ∈ ls.filter fun line => !line.all isBlank, line.all isMarginChar = false :=
      fun line kept => isMargin_of_dark (by simpa using (List.mem_filter.1 kept).2)
    have moved : margin (ls.map (indentedLine p)) = p ++ margin (ls.filter fun line => !line.all isBlank) := by
      rw [← margin_map_append space (List.ne_nil_of_mem inside) dark]
      refine margin_congr ?_
      rw [filter_indented space, eq_comm, List.filter_eq_self, List.forall_mem_map]
      intro line kept
      rw [all_append space, dark line kept]
      rfl
    have whole := eq_margin_append inside (dark line inside)
    rw [indentedLine_of_dark blank, moved, if_neg Bool.false_ne_true]
    conv => lhs; rw [whole, ← List.append_assoc]
    rw [dropMargin_append]
    rw [List.append_assoc, ← whole, all_append space, dark line inside]

theorem dropMargin_of_blank {m : Text} (blank : line.all isBlank = true) : (dropMargin m line).all isBlank = true := by
  unfold dropMargin
  split
  · rfl
  · cases rest : Text.dropStart? m line with
    | none => exact blank
    | some rest =>
      rw [Text.dropStart?_eq_some_iff.1 rest, List.all_append, Bool.and_eq_true] at blank
      exact blank.2

/-- To empty the blank lines is to take the margin and to put it back in front of the others. -/
theorem map_indentedLine_nil (ls : List Text) :
    ls.map (indentedLine []) = (dedentedLines ls).map (indentedLine (margin ls)) := by
  rw [dedentedLines, List.map_map]
  refine List.map_congr_left fun line member => ?_
  dsimp only [Function.comp_apply]
  cases blank : line.all isBlank with
  | true => rw [indentedLine_of_blank blank, indentedLine_of_blank (dropMargin_of_blank blank)]
  | false =>
    have whole := eq_margin_append member (isMargin_of_dark blank)
    have dark : (dropMargin (margin ls) line).all isBlank = false := by
      rw [whole, List.all_append, all_isBlank_of_margin (margin_all ls), Bool.true_and] at blank
      exact blank
    rw [indentedLine_of_dark blank, indentedLine_of_dark dark, ← whole, List.nil_append]

theorem flushLines_dedented (ls : List Text) : flushLines (dedentedLines ls) = flushLines ls := by
  rw [← dedentedLines_indented (margin_all ls), ← map_indentedLine_nil, dedentedLines_indented rfl]

theorem trimmedLines_flush (ls : List Text) :
    trimmedLines (flushLines (trimmedLines ls)) = trimmedLines (flushLines ls) := by
  rw [flushLines, filter_trimmedLines, trimmedLines_map rfl, ← flushLines]

/-- Where all blank lines are of spaces and tabs, they make no difference to the others. -/
theorem flushLines_eq (plain : ∀ line ∈ ls, line.all isBlank = true → line.all isMarginChar = true) :
    flushLines ls = dedentedLines ls := by
  have same : (ls.filter fun line => !line.all isBlank) = ls.filter fun line => !line.all isMarginChar := by
    refine List.filter_congr fun line member => congrArg Bool.not (Bool.eq_iff_iff.2 ?_)
    exact ⟨plain line member, all_isBlank_of_margin⟩
  have margins : margin (ls.filter fun line => !line.all isBlank) = margin ls :=
    margin_congr (by rw [same, List.filter_filter]; simp)
  rw [flushLines, dedentedLines, margins]
  refine List.map_congr_left fun line member => ?_
  split
  · next blank => rw [dropMargin, if_pos (plain line member blank)]
  · rfl

end Indenting

section Texts

theorem newline_notMem_dropMargin {m : Text} (apart : '\n' ∉ line) : '\n' ∉ dropMargin m line := by
  unfold dropMargin
  split
  · exact List.not_mem_nil
  · cases rest : Text.dropStart? m line with
    | none => exact apart
    | some rest =>
      rw [Text.dropStart?_eq_some_iff.1 rest] at apart
      exact fun inside => apart (List.mem_append_right _ inside)

theorem newline_notMem_dedented (t : Text) : ∀ line ∈ dedentedLines (Text.lines t), '\n' ∉ line := by
  rw [dedentedLines, List.forall_mem_map]
  exact fun line member => newline_notMem_dropMargin (Text.newline_notMem member)

theorem newline_notMem_trimmed (apart : ∀ line ∈ ls, '\n' ∉ line) : ∀ line ∈ trimmedLines ls, '\n' ∉ line :=
  fun line member => apart line
    ((List.dropWhile_suffix _).subset ((List.rdropWhile_prefix _ _).subset member))

theorem newline_notMem_indented (space : p.all isMarginChar = true) (apart : ∀ line ∈ ls, '\n' ∉ line) :
    ∀ line ∈ ls.map (indentedLine p), '\n' ∉ line := by
  rw [List.forall_mem_map]
  intro line member
  unfold indentedLine
  split
  · exact List.not_mem_nil
  · intro inside
    rcases List.mem_append.1 inside with first | last
    · exact absurd (List.all_eq_true.1 space _ first) (by decide)
    · exact apart line member last

/-- The indentation of a level. -/
def indentation (levels : Nat) : Text := List.replicate (2 * levels) ' '

theorem indentation_all (levels : Nat) : (indentation levels).all isMarginChar = true :=
  List.all_eq_true.2 fun c member => by rw [List.eq_of_mem_replicate member]; rfl

/-- Lines that are joined, changed and joined again may as well be changed at once. -/
theorem joinLines_map_lines (apart : ∀ line ∈ ls, '\n' ∉ line) (empty : g [] = []) :
    Text.joinLines ((Text.lines (Text.joinLines ls)).map g) = Text.joinLines (ls.map g) := by
  cases ls with
  | nil =>
    change Text.joinLines [g []] = Text.joinLines []
    rw [empty]
    rfl
  | cons line ls => rw [Text.lines_joinLines apart (List.cons_ne_nil _ _)]

theorem reindent_eq (levels : Nat) (t : Text) : reindent levels t =
    Text.joinLines ((trimmedLines (dedentedLines (Text.lines t))).map (indentedLine (indentation levels))) ++
      ['\n'] := by
  have apart := newline_notMem_dedented t
  have lines := joinLines_map_lines (newline_notMem_trimmed apart) (g := indentedLine (indentation levels)) rfl
  rw [reindent, dedent, ← dedentedLines, stripNewlines_joinLines apart]
  exact congrArg (· ++ ['\n']) lines

theorem exists_lines_newline (apart : ∀ line ∈ ls, '\n' ∉ line) :
    ∃ n, Text.lines (Text.joinLines ls ++ ['\n']) = ls ++ List.replicate n [] := by
  cases ls with
  | nil => exact ⟨2, rfl⟩
  | cons line ls =>
    refine ⟨1, ?_⟩
    have last : ∀ line ∈ [([] : Text)], '\n' ∉ line := by simp
    rw [Text.joinLines_append_newline (List.cons_ne_nil _ _),
      Text.lines_joinLines (List.forall_mem_append.2 ⟨apart, last⟩) (by simp)]
    rfl

theorem exists_lines_reindent (levels : Nat) (t : Text) : ∃ n, Text.lines (reindent levels t) =
    (trimmedLines (dedentedLines (Text.lines t))).map (indentedLine (indentation levels)) ++
      List.replicate n [] := by
  obtain ⟨n, lines⟩ := exists_lines_newline (newline_notMem_indented (indentation_all levels)
    (newline_notMem_trimmed (newline_notMem_dedented t)))
  exact ⟨n, (congrArg Text.lines (reindent_eq levels t)).trans lines⟩

/-- What is left of an indented text without its margin does not depend on the indentation. -/
theorem trimmedLines_reindent (levels : Nat) (t : Text) :
    trimmedLines (dedentedLines (Text.lines (reindent levels t))) = trimmedLines (flushLines (Text.lines t)) := by
  obtain ⟨n, lines⟩ := exists_lines_reindent levels t
  have empty : List.replicate n [] = (List.replicate n []).map (indentedLine (indentation levels)) := by
    rw [List.map_replicate]
    rfl
  rw [lines, empty, ← List.map_append, dedentedLines_indented (indentation_all levels), ← trimmedLines_flush,
    trimmedLines_append_right (by simp), trimmedLines_flush, trimmedLines_flush, flushLines_dedented]

/-- To indent a text twice is to indent it once, with nothing on its blank lines. -/
theorem reindent_reindent (levels again : Nat) (t : Text) :
    reindent again (reindent levels t) = reindent again (clearBlankLines t) := by
  have apart : ∀ line ∈ (Text.lines t).map (indentedLine []), '\n' ∉ line :=
    newline_notMem_indented rfl fun line => Text.newline_notMem
  have some_ : (Text.lines t).map (indentedLine []) ≠ [] := by simp [Text.lines_ne_nil]
  rw [reindent_eq again (reindent levels t), trimmedLines_reindent, reindent_eq, clearBlankLines,
    Text.lines_joinLines apart some_, dedentedLines_indented rfl]

theorem reindent_clearBlankLines (levels : Nat)
    (plain : ∀ line ∈ Text.lines t, line.all isBlank = true → line.all isMarginChar = true) :
    reindent levels (clearBlankLines t) = reindent levels t := by
  rw [← reindent_reindent levels, reindent_eq, trimmedLines_reindent, flushLines_eq plain, ← reindent_eq]

end Texts

namespace Document

variable {d : Document}

theorem render_text (text : d.body = .text) (inlines : List Document) (indent : Nat) :
    d.render inlines indent = .ok (reindent indent d.contents) := by
  rw [render, plainText, text]

/-- A text document that is written, read and written again is written as if nothing had stood on its blank
lines. If spaces and tabs were all that stood there, it is written as if it had not been written before. -/
theorem render_rewritten (text : d.body = .text) (inlines : List Document) (indent : Nat) :
    ∃ once, d.render inlines indent = .ok once ∧ ∀ again : Document, again.body = .text → again.contents = once →
      ∀ inlines' indent', again.render inlines' indent' = .ok (reindent indent' (clearBlankLines d.contents)) ∧
        ((∀ line ∈ Text.lines d.contents, line.all isBlank = true → line.all isMarginChar = true) →
          again.render inlines' indent' = d.render inlines' indent') := by
  refine ⟨_, render_text text inlines indent, fun again text' contents inlines' indent' => ?_⟩
  have twice : again.render inlines' indent' = .ok (reindent indent' (clearBlankLines d.contents)) := by
    rw [render_text text', contents, reindent_reindent]
  refine ⟨twice, fun plain => ?_⟩
  rw [twice, reindent_clearBlankLines indent' plain, render_text text]

theorem render_rewritten_tabs : ∃ d again : Document, d.body = .text ∧ again.body = .text ∧
    d.contents = "\n\t  if x\n \t\n\t    y\n".toList ∧ d.render [] 2 = .ok again.contents ∧
    again.contents = "    if x\n\n      y\n".toList ∧ again.render [] 0 = d.render [] 0 ∧
    again.render [] 0 = .ok "if x\n\n  y\n".toList := by
  let d : Document := ⟨"u", "\n\t  if x\n \t\n\t    y\n".toList, .text, false, none, none⟩
  obtain ⟨once, first, twice⟩ := render_rewritten (d := d) rfl [] 2
  let again : Document := ⟨"u", once, .text, false, none, none⟩
  obtain ⟨_, same⟩ := twice again rfl rfl [] 0
  have plain := same (by decide +kernel)
  rw [render_text rfl] at first
  have contents : once = "    if x\n\n      y\n".toList :=
    (Except.ok.inj first).symm.trans (by decide +kernel)
  refine ⟨d, again, rfl, rfl, rfl, (render_text rfl [] 2).trans first, contents, plain, ?_⟩
  rw [plain, render_text rfl]
  exact congrArg Except.ok (by decide +kernel)

/-- A carriage return on a blank line keeps the margin and the line the first time only. -/
theorem render_rewritten_carriageReturn : ∃ d again : Document, d.body = .text ∧ again.body = .text ∧
    d.contents = "\r\n  a".toList ∧ d.render [] 0 = .ok again.contents ∧
    d.render [] 0 = .ok "\n  a\n".toList ∧ again.render [] 0 = .ok "a\n".toList := by
  refine ⟨⟨"u", "\r\n  a".toList, .text, false, none, none⟩, ⟨"u", "\n  a\n".toList, .text, false, none, none⟩,
    rfl, rfl, rfl, ?_, ?_, ?_⟩
  all_goals
    rw [render_text rfl]
    exact congrArg Except.ok (by decide +kernel)

end Document

end LocatedHtml
