import LocatedHtml.Node.CheckedSpan
import LocatedHtml.Proofs.PositionOrder
import LocatedHtml.Proofs.Text.Lines

/-!
The span of a node by three definitions: found on a way down and up again, found on that way with
everything checked, and told by recursion over last children. The checks never fail, and all three tell the
same span of every tree.
-/

namespace LocatedHtml

variable {p : Position} {t : Text}

namespace Position

/-- A text leads down by its lines but one, and across by the last of them. -/
theorem after_lines (p : Position) (t : Text) : p.after t =
    ⟨p.line + ((Text.lines t).length - 1),
      (if (Text.lines t).length = 1 then p.column else 0) + ((Text.lines t).getLastD []).length⟩ := by
  induction t generalizing p with
  | nil => rfl
  | cons c t ih =>
    obtain ⟨line, more, found⟩ := List.exists_cons_of_ne_nil (Text.lines_ne_nil t)
    change (p.next c).after t = _
    rw [ih, next, Text.lines, found]
    split
    · simp only [List.length_cons, Nat.add_sub_cancel, Position.mk.injEq]
      constructor
      · omega
      · simp
    · cases more with
      | nil =>
        simp
        omega
      | cons next more => simp

end Position

theorem checkedPosition_natCast (line column : Nat) : checkedPosition line column = .ok ⟨line, column⟩ := by
  have down : ¬(line : Int) < 0 := Int.not_lt.2 (Int.natCast_nonneg _)
  have across : ¬(column : Int) < 0 := Int.not_lt.2 (Int.natCast_nonneg _)
  rw [checkedPosition, Position.ofInts, if_neg down, if_neg across]
  rfl

theorem Extent.checkedStart_eq (e : Extent) : e.checkedStart = .ok e.position := by
  rw [checkedStart, line, column, Int.add_sub_cancel, Int.add_sub_cancel, checkedPosition_natCast]

/-- A text with markup before and behind it that has no newlines is laid out as its characters go. -/
theorem laidOutSpan_eq (file : String) (opening : Extent) (text : Text) (before behind : Nat) :
    laidOutSpan file opening text (before + behind - 1) behind =
      .ok ⟨file, opening.position, ((opening.position.shift before).after text).shift behind⟩ := by
  have some_ : 0 < (Text.lines text).length := List.length_pos_of_ne_nil (Text.lines_ne_nil text)
  have down : opening.line + (Text.lines text).length - 2 =
      (opening.position.line + ((Text.lines text).length - 1) : Nat) := by
    rw [Extent.line]
    omega
  have across : (if (Text.lines text).length = 1 then
        opening.column + ((Text.lines text).getLastD []).length + (before + behind - 1 : Int)
      else ((Text.lines text).getLastD []).length + (behind : Int)) =
      ((if (Text.lines text).length = 1 then opening.position.column + before else 0) +
        ((Text.lines text).getLastD []).length + behind : Nat) := by
    rw [Extent.column]
    split <;> omega
  rw [Position.after_lines]
  simp only [laidOutSpan, opening.checkedStart_eq, down, across, checkedPosition_natCast]
  rfl

theorem Extent.checkedStop_eq (e : Extent) (width : Nat) :
    checkedPosition (e.line - 1) (e.column + width + 2) = .ok (e.position.shift (width + 3)) := by
  have across : e.column + width + 2 = (e.position.column + (width + 3) : Nat) := by
    rw [column]
    omega
  rw [line, Int.add_sub_cancel, across, checkedPosition_natCast]
  rfl

theorem Node.endTagWidth_eq (v : Node) : v.endTagWidth = ((v.content.elementName?).getD "").length + 3 := by
  unfold endTagWidth
  cases v.content.elementName? <;> simp

namespace Position

theorem after_writtenComment (p : Position) (value : Text) :
    p.after (writtenComment value) = ((p.shift 4).after value).shift 3 := by
  have opening : p.after "<!--".toList = p.shift 4 := after_of_unbroken (by decide)
  have closing (q : Position) : q.after "-->".toList = q.shift 3 := after_of_unbroken (by decide)
  rw [writtenComment, after_append, after_append, opening, closing]

end Position

namespace Tree

variable {t : HtmlTree} {file : String}

theorem checkedWritten_eq (file : String) (t : HtmlTree) : t.checkedWritten file = .ok (t.writtenSpan? file) := by
  unfold checkedWritten writtenSpan?
  cases t.value.location with
  | none => rfl
  | some location =>
    have laid := laidOutSpan_eq file location.opening t.innerHtml t.value.startTagWidth 0
    rw [Int.natCast_zero, Int.add_zero] at laid
    dsimp only
    rw [laid]
    rfl

theorem checkedOwn_eq (file : String) (t : HtmlTree) : t.checkedOwn file = .ok (t.ownSpan? file) := by
  unfold checkedOwn ownSpan?
  cases located : t.value.location with
  | none => rfl
  | some location =>
    cases location with
    | plain extent =>
      cases content : t.value.content with
      | comment value =>
        have laid := laidOutSpan_eq file extent value 4 3
        rw [← Position.after_writtenComment] at laid
        exact congrArg (Except.map some) laid
      | text value => exact congrArg (Except.map some) (laidOutSpan_eq file extent value 0 0)
      | _ => exact checkedWritten_eq file t
    | element startTag endTag given =>
      cases content : t.value.content with
      | comment value => rfl
      | text value => rfl
      | _ =>
        cases endTag with
        | none => exact checkedWritten_eq file t
        | some endTag =>
          have width := t.value.endTagWidth_eq
          rw [content] at width
          simp only [Location.endTag?, Location.opening, Extent.checkedStart_eq, Extent.checkedStop_eq, width]
          rfl

theorem checkedWiden_eq (file : String) (found : Option Span) (located : t.value.location ≠ none) :
    t.checkedWiden file found = .ok (t.widen file found) := by
  obtain ⟨location, here⟩ := Option.ne_none_iff_exists'.1 located
  cases found with
  | none => exact checkedWritten_eq file t
  | some span =>
    simp only [checkedWiden, widen, here, Extent.checkedStart_eq]
    rfl

theorem lastChild?_eq (t : HtmlTree) : t.lastChild? = if t.endsWithLastChild then t.children.getLast? else none := by
  cases located : t.value.location with
  | none => simp [lastChild?, endsWithLastChild, located]
  | some location =>
    cases children : t.children with
    | nil => simp [lastChild?, located, children]
    | cons c cs =>
      cases comment : t.value.content.isComment <;> cases text : t.value.content.isText <;>
        cases closed : location.isClosed <;>
        simp [lastChild?, endsWithLastChild, Node.isClosed, located, children, comment, text, closed]

theorem located_of_lastChild? {c : HtmlTree} (last : t.lastChild? = some c) : t.value.location ≠ none := by
  rintro none
  rw [lastChild?, none] at last
  cases last

theorem checkedDescent_alone (alone : t.lastChild? = none) (above : List HtmlTree) :
    checkedDescent above t = .ok (above, t) := by
  have stays : ¬t.endsWithLastChild = true := by
    intro ends
    rw [lastChild?_eq, if_pos ends, List.getLast?_eq_none_iff] at alone
    simp [endsWithLastChild, alone] at ends
  rw [checkedDescent, if_neg stays]

theorem checkedDescent_last {c : HtmlTree} (last : t.lastChild? = some c) (above : List HtmlTree) :
    checkedDescent above t = checkedDescent (t :: above) c := by
  rw [lastChild?_eq] at last
  split at last
  · next ends =>
    rw [checkedDescent, if_pos ends]
    split
    · next none =>
      rw [last] at none
      cases none
    · next d same =>
      rw [last] at same
      cases same
      rfl
  · cases last

/-- Whoever ends with a last child has one. -/
theorem checkedDescent_eq (above : List HtmlTree) (t : HtmlTree) :
    checkedDescent above t = .ok (lastChildren above t) := by
  induction above, t using lastChildren.induct with
  | case1 above t alone => rw [checkedDescent_alone alone, lastChildren_alone alone]
  | case2 above t c last ih => rw [checkedDescent_last last, ih, lastChildren_last last]

theorem lastChildren_located (above : List HtmlTree) (t : HtmlTree)
    (located : ∀ a ∈ above, a.value.location ≠ none) :
    ∀ a ∈ (lastChildren above t).1, a.value.location ≠ none := by
  induction above, t using lastChildren.induct with
  | case1 above t alone => rwa [lastChildren_alone alone]
  | case2 above t c last ih =>
    rw [lastChildren_last last]
    exact ih (List.forall_mem_cons.2 ⟨located_of_lastChild? last, located⟩)

theorem foldlM_checkedWiden (file : String) {above : List HtmlTree} (found : Option Span)
    (located : ∀ a ∈ above, a.value.location ≠ none) :
    above.foldlM (checkedWiden file) found = .ok (above.foldl (widen file) found) := by
  induction above generalizing found with
  | nil => rfl
  | cons a above ih =>
    obtain ⟨first, others⟩ := List.forall_mem_cons.1 located
    rw [List.foldlM_cons, checkedWiden_eq file found first]
    exact ih _ others

/-- Nothing fails on the way to the span of a node. -/
theorem checkedSpan_eq (file : String) (t : HtmlTree) : t.checkedSpan file = .ok (t.span? file) := by
  unfold checkedSpan
  cases located : t.value.location with
  | none =>
    have alone : t.lastChild? = none := by rw [lastChild?, located]
    have own : t.ownSpan? file = none := by rw [ownSpan?, located]
    rw [span?, lastChildren_alone alone]
    dsimp only
    rw [own]
    rfl
  | some location =>
    dsimp only
    rw [checkedDescent_eq]
    change (bind (checkedOwn file (lastChildren [] t).2) fun found =>
      (lastChildren [] t).1.foldlM (checkedWiden file) found) = _
    rw [checkedOwn_eq]
    exact foldlM_checkedWiden file _ (lastChildren_located [] t (List.forall_mem_nil _))

/-- Comments, texts, closed elements and nodes without a location have a span by themselves or none. -/
theorem recursiveSpan?_settled (settled : ∀ location ∈ t.value.location,
      (t.value.content.isComment || t.value.content.isText || location.isClosed) = true) (file : String) :
    t.recursiveSpan? file = t.ownSpan? file := by
  rw [recursiveSpan?, ownSpan?]
  cases located : t.value.location with
  | none => rfl
  | some location =>
    have settled := settled location located
    cases content : t.value.content with
    | comment value => cases location <;> rfl
    | text value => cases location <;> rfl
    | _ =>
      rw [content] at settled
      cases location with
      | plain extent => cases settled
      | element startTag endTag given =>
        cases endTag with
        | none => cases settled
        | some endTag => rfl

theorem ownSpan?_open {location : Location} (located : t.value.location = some location)
    (open_ : (t.value.content.isComment || t.value.content.isText || location.isClosed) = false) (file : String) :
    t.ownSpan? file = t.writtenSpan? file := by
  have bare : location.endTag? = none := by
    rw [Bool.or_eq_false_iff] at open_
    simpa [Location.isClosed] using open_.2
  rw [ownSpan?, located]
  cases content : t.value.content with
  | comment value => rw [content] at open_; cases open_
  | text value => rw [content] at open_; cases open_
  | _ => simp only [bare]

/-- Any other node ends with its last child. -/
theorem recursiveSpan?_open {location : Location} (located : t.value.location = some location)
    (open_ : (t.value.content.isComment || t.value.content.isText || location.isClosed) = false) (file : String) :
    t.recursiveSpan? file = match t.children.getLast? with
      | none => t.writtenSpan? file
      | some c => t.widen file (c.recursiveSpan? file) := by
  simp only [Bool.or_eq_false_iff] at open_
  obtain ⟨⟨comment, text⟩, closed⟩ := open_
  have bare : location.endTag? = none := by simpa [Location.isClosed] using closed
  rw [recursiveSpan?, located]
  split
  · next none => cases none
  · next content => rw [content] at comment; cases comment
  · next content => rw [content] at text; cases text
  · next content => rw [content] at comment; cases comment
  · next content => rw [content] at text; cases text
  · next same _ _ _ _ =>
    cases same
    rw [bare]
    dsimp only
    split
    · next childless => rw [childless]
    · next c last =>
      rw [last]
      dsimp only
      cases c.recursiveSpan? file with
      | none => rfl
      | some span => simp only [widen, located]

theorem recursiveSpan?_alone (alone : t.lastChild? = none) (file : String) :
    t.recursiveSpan? file = t.ownSpan? file := by
  by_cases settled : ∀ location ∈ t.value.location,
      (t.value.content.isComment || t.value.content.isText || location.isClosed) = true
  · exact recursiveSpan?_settled settled file
  · simp only [not_forall, Bool.not_eq_true] at settled
    obtain ⟨location, located, open_⟩ := settled
    have childless : t.children.getLast? = none := by
      simpa only [lastChild?, Option.mem_def.1 located, open_, Bool.false_eq_true, if_false] using alone
    rw [recursiveSpan?_open located open_, childless, ownSpan?_open located open_]

theorem recursiveSpan?_last {c : HtmlTree} (last : t.lastChild? = some c) (file : String) :
    t.recursiveSpan? file = t.widen file (c.recursiveSpan? file) := by
  rw [lastChild?] at last
  split at last
  · cases last
  · next location located =>
    split at last
    · cases last
    · next open_ =>
      rw [Bool.not_eq_true] at open_
      rw [recursiveSpan?_open located open_, last]

/-- The way down and up again is the recursion. -/
theorem foldl_lastChildren (file : String) (above : List HtmlTree) (t : HtmlTree) :
    (lastChildren above t).1.foldl (widen file) ((lastChildren above t).2.ownSpan? file) =
      above.foldl (widen file) (t.recursiveSpan? file) := by
  -- on the way down, with any nodes above, as each step puts one more of them there
  induction above, t using lastChildren.induct with
  | case1 above t alone => rw [lastChildren_alone alone, recursiveSpan?_alone alone]
  | case2 above t c last ih => rw [lastChildren_last last, ih, List.foldl_cons, recursiveSpan?_last last]

/-- The span of a node is found without fail, whatever the nodes of the tree are and wherever they have
locations of either sort, and it is the one that recursion tells. -/
theorem checkedSpan_recursive (file : String) (t : HtmlTree) :
    t.checkedSpan file = .ok (t.recursiveSpan? file) ∧ t.span? file = t.recursiveSpan? file := by
  have same : t.span? file = t.recursiveSpan? file := foldl_lastChildren file [] t
  exact ⟨(checkedSpan_eq file t).trans (congrArg Except.ok same), same⟩

end Tree

end LocatedHtml
