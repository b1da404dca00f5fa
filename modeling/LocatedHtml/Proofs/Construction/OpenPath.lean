import LocatedHtml.Proofs.Construction.Stages
import Mathlib.Logic.Function.Basic

/-!
The open elements are the way from `html` to the place where content is put. The document of a
construction as it stands shows this: a tree that is appended becomes the last child of the element that
one reaches along them.
-/

namespace LocatedHtml

/-- A tree with one more in it, the last child of the node at the end of a path. -/
inductive Inserted (t : HtmlTree) : List Node → HtmlTree → HtmlTree → Prop
  | here {v : Node} {cs : List HtmlTree} : Inserted t [] (.node v cs) (.node v (cs ++ [t]))
  | inside {v node : Node} {path : List Node} {c c' : HtmlTree} {before after : List HtmlTree}
      (onPath : c.value = node) (inserted : Inserted t path c c') :
      Inserted t (node :: path) (.node v (before ++ c :: after)) (.node v (before ++ c' :: after))

/-- A tree as the last child of the innermost of some open elements, all of which end. -/
def enclosed (t : HtmlTree) : List OpenElement → HtmlTree
  | [] => t
  | e :: outer => enclosed { e with children := e.children ++ [t] }.toTree outer

namespace Construction

/-- The open structural elements, outermost first. -/
def Frame.path (frame : Frame) : List Node :=
  let html := ⟨.element "html" frame.html.attributes, frame.html.location⟩
  match frame.stage with
  | .beforeHtml | .afterHtml => []
  | .beforeHead | .afterHead | .afterBody => [html]
  | .inHead => [html, ⟨.element "head" frame.head.attributes, frame.head.location⟩]
  | .inBody =>
    let body := frame.body.getD {}
    [html, ⟨.element "body" body.attributes, body.location⟩]

/-- The open elements, outermost first. -/
def openPath (s : Construction) : List Node :=
  s.frame.path ++ (s.opened.map (·.toTree.value)).reverse

/-- The structural elements come one after another, and nothing stands in a section before its stage. -/
structure Ordered (s : Construction) : Prop where
  later : ∀ stage, s.stage.rank ≤ 3 → s.stage.rank < stage.rank → s.content stage = []
  bodiless : s.stage.rank ≤ 3 → s.body = none
  body : s.stage = .inBody ∨ s.stage = .afterBody → s.body.isSome = true

/-- A document with the structural elements that a stage has reached, by the content of all stages. -/
def assembled (frame : Frame) (content : Stage → List HtmlTree) : HtmlTree :=
  let head := if 2 ≤ frame.stage.rank then [frame.head.toTree "head" (content .inHead)] else []
  let body := (frame.body.map (·.toTree "body" (content .inBody))).toList
  let html := frame.html.toTree "html"
    (content .beforeHead ++ head ++ content .afterHead ++ body ++ content .afterBody)
  .node ⟨.document, none⟩
    (content .beforeHtml ++ (if 1 ≤ frame.stage.rank then [html] else []) ++ content .afterHtml)

/-- The document as it stands, everything ended that is open. -/
def soFar (s : Construction) : HtmlTree := assembled s.frame s.closeAll.content

variable {s : Construction}

theorem content_append_other {stage : Stage} (other : stage ≠ s.stage) (t : HtmlTree) :
    (s.append t).content stage = s.content stage := by
  by_cases inside : s.opened = []
  · rw [content_append inside, if_neg other]
  · exact content_append_inside inside t stage

theorem ordered_stepwise : Stepwise Ordered where
  append s t ordered := by
    refine ⟨?_, ?_, ?_⟩
    · intro stage early before
      rw [append_stage] at early before
      rw [content_append_other (by rintro rfl; omega)]
      exact ordered.later stage early before
    · rw [append_stage, append_body]
      exact ordered.bodiless
    · rw [append_stage, append_body]
      exact ordered.body
  opened s opened ordered := ⟨ordered.later, ordered.bodiless, ordered.body⟩
  openText s openText ordered := ⟨ordered.later, ordered.bodiless, ordered.body⟩
  shells s html head body same ordered := by
    refine ⟨ordered.later, ?_, ?_⟩
    · intro early
      have none := ordered.bodiless early
      rw [none] at same
      simpa using same
    · intro here
      exact same.trans (ordered.body here)
  advance s stage body advance ordered := by
    have early : stage.rank ≤ 3 → s.stage.rank < stage.rank := by
      intro bound
      rcases advance.forward with forward | rfl
      · exact forward
      · exact absurd bound (by decide : ¬4 ≤ 3)
    refine ⟨?_, ?_, ?_⟩
    · intro next bound after
      have before := early bound
      exact ordered.later next (Nat.le_trans (Nat.le_of_lt before) bound) (Nat.lt_trans before after)
    · intro bound
      have kept := advance.kept (by rintro rfl; exact absurd bound (by decide : ¬4 ≤ 3))
      rw [ordered.bodiless (Nat.le_trans (Nat.le_of_lt (early bound)) bound)] at kept
      simpa using kept
    · rintro (rfl | rfl)
      · exact advance.entered rfl
      · exact (advance.kept (by decide)).trans (ordered.body (.inl (advance.left rfl)))

theorem ordered_initial : Ordered {} where
  later stage _ _ := by cases stage <;> rfl
  bodiless _ := rfl
  body here := by rcases here with here | here <;> cases here

theorem closeAll_cons {e : OpenElement} {outer : List OpenElement} (inside : s.opened = e :: outer) :
    s.closeAll = append { s with opened := [] } (enclosed e.toTree outer) := by
  induction outer generalizing s e with
  | nil =>
    rw [closeAll, inside]
    exact close_succ inside 0
  | cons next outer ih =>
    rw [closeAll, inside, List.length_cons, close_succ inside, append_inside rfl]
    exact ih rfl

theorem Inserted_enclosed {t x x' : HtmlTree} {node : Node} {path : List Node}
    (outer : List OpenElement) (onPath : x.value = node) (inserted : Inserted t path x x') {v : Node}
    {cs : List HtmlTree} :
    Inserted t ((outer.map (·.toTree.value)).reverse ++ node :: path)
      (.node v (cs ++ [enclosed x outer])) (.node v (cs ++ [enclosed x' outer])) := by
  induction outer generalizing x x' node path with
  | nil => exact .inside onPath inserted
  | cons e outer ih =>
    rw [List.map_cons, List.reverse_cons, List.append_assoc, List.singleton_append]
    change Inserted t _ (.node v (cs ++ [enclosed _ outer])) (.node v (cs ++ [enclosed _ outer]))
    exact ih rfl (.inside onPath inserted)

theorem content_close_other {stage : Stage} (other : stage ≠ s.stage) (n : Nat) :
    (s.close n).content stage = s.content stage := by
  have both : (s.close n).content stage = s.content stage ∧ (s.close n).stage = s.stage := by
    apply close_induction
      (motive := fun r => r.content stage = s.content stage ∧ r.stage = s.stage)
    · intro r e outer _ same
      refine ⟨?_, by rw [append_stage]; exact same.2⟩
      rw [content_append_other (by rw [same.2]; exact other)]
      exact same.1
    · exact ⟨rfl, rfl⟩
  exact both.1

/-- When everything ends, what was appended is the last child of the innermost open element. -/
theorem closeAll_append (s : Construction) (t : HtmlTree) (v : Node) :
    Inserted t (s.opened.map (·.toTree.value)).reverse (.node v (s.closeAll.content s.stage))
      (.node v ((s.append t).closeAll.content s.stage)) := by
  cases inside : s.opened with
  | nil =>
    rw [closeAll_settled inside, closeAll_settled (append_opened inside t), content_append inside,
      if_pos rfl]
    exact .here
  | cons e outer =>
    rw [closeAll_cons inside, append_inside inside, closeAll_cons rfl, content_append rfl,
      content_append rfl, if_pos rfl, if_pos rfl, List.map_cons, List.reverse_cons]
    exact Inserted_enclosed outer rfl .here

theorem closeAll_append_other {stage : Stage} (other : stage ≠ s.stage) (t : HtmlTree) :
    (s.append t).closeAll.content stage = s.closeAll.content stage := by
  rw [closeAll, closeAll, content_close_other (by rwa [append_stage]), content_close_other other,
    content_append_other other]

theorem Inserted_nil {t : HtmlTree} {v : Node} {cs cs' : List HtmlTree}
    (inserted : Inserted t [] (.node v cs) (.node v cs')) : cs' = cs ++ [t] := by
  cases inserted
  rfl

theorem assembled_inserted {t : HtmlTree} {frame : Frame} {path : List Node}
    {content content' : Stage → List HtmlTree}
    (settled : ¬frame.stage.hasOpened → path = [])
    (here : ∀ v, Inserted t path (.node v (content frame.stage)) (.node v (content' frame.stage)))
    (other : ∀ stage, stage ≠ frame.stage → content' stage = content stage)
    (later : ∀ stage, frame.stage.rank ≤ 3 → frame.stage.rank < stage.rank → content stage = [])
    (bodiless : frame.stage.rank ≤ 3 → frame.body = none)
    (body : frame.stage = .inBody ∨ frame.stage = .afterBody → frame.body.isSome = true) :
    Inserted t (frame.path ++ path) (assembled frame content)
      (assembled frame content') := by
  obtain ⟨stage, html, head, shell⟩ := frame
  obtain ⟨changed, rfl⟩ : ∃ changed, content' = Function.update content stage changed := by
    refine ⟨content' stage, funext fun next => ?_⟩
    by_cases same : next = stage
    · rw [same, Function.update_self]
    · rw [Function.update_of_ne same, other next same]
  simp only [Function.update_self] at here
  dsimp only at settled here other later bodiless body ⊢
  cases stage with
  | beforeHtml =>
    obtain rfl := settled (by simp [Stage.hasOpened])
    rw [Inserted_nil (here ⟨.document, none⟩)]
    have last := later .afterHtml (by decide) (by decide)
    simpa [assembled, Stage.rank, Frame.path, last] using Inserted.here
  | beforeHead =>
    obtain rfl := settled (by simp [Stage.hasOpened])
    rw [Inserted_nil (here ⟨.document, none⟩), bodiless (by decide)]
    have middle := later .afterHead (by decide) (by decide)
    have last := later .afterBody (by decide) (by decide)
    simpa [assembled, Stage.rank, Frame.path, Tree.value, last, middle, Shell.toTree]
      using Inserted.inside rfl Inserted.here
  | inHead =>
    have inner : Inserted t (⟨.element "head" head.attributes, head.location⟩ :: path)
        (html.toTree "html" (content .beforeHead ++ head.toTree "head" (content .inHead) ::
          (content .afterHead ++ (shell.map (·.toTree "body" (content .inBody))).toList ++
            content .afterBody)))
        (html.toTree "html" (content .beforeHead ++ head.toTree "head" changed ::
          (content .afterHead ++ (shell.map (·.toTree "body" (content .inBody))).toList ++
            content .afterBody))) := .inside rfl (here _)
    simpa [assembled, Stage.rank, Frame.path, Tree.value, Shell.toTree] using Inserted.inside rfl inner
  | afterHead =>
    obtain rfl := settled (by simp [Stage.hasOpened])
    rw [Inserted_nil (here ⟨.document, none⟩), bodiless (by decide)]
    have last := later .afterBody (by decide) (by decide)
    have inner : Inserted t []
        (html.toTree "html" (content .beforeHead ++ head.toTree "head" (content .inHead) ::
          content .afterHead))
        (html.toTree "html" (content .beforeHead ++ head.toTree "head" (content .inHead) ::
          content .afterHead ++ [t])) := .here
    simpa [assembled, Stage.rank, Frame.path, Tree.value, last, Shell.toTree] using Inserted.inside rfl inner
  | inBody =>
    obtain ⟨shell, rfl⟩ := Option.isSome_iff_exists.1 (body (.inl rfl))
    have inner : Inserted t (⟨.element "body" shell.attributes, shell.location⟩ :: path)
        (html.toTree "html" ((content .beforeHead ++ head.toTree "head" (content .inHead) ::
          content .afterHead) ++ shell.toTree "body" (content .inBody) :: content .afterBody))
        (html.toTree "html" ((content .beforeHead ++ head.toTree "head" (content .inHead) ::
          content .afterHead) ++ shell.toTree "body" changed :: content .afterBody)) :=
      .inside rfl (here _)
    simpa [assembled, Stage.rank, Frame.path, Tree.value, Shell.toTree] using Inserted.inside rfl inner
  | afterBody =>
    obtain rfl := settled (by simp [Stage.hasOpened])
    rw [Inserted_nil (here ⟨.document, none⟩)]
    have inner : Inserted t []
        (html.toTree "html" (content .beforeHead ++ head.toTree "head" (content .inHead) ::
          content .afterHead ++ (shell.map (·.toTree "body" (content .inBody))).toList ++
          content .afterBody))
        (html.toTree "html" (content .beforeHead ++ head.toTree "head" (content .inHead) ::
          content .afterHead ++ (shell.map (·.toTree "body" (content .inBody))).toList ++
          content .afterBody ++ [t])) := .here
    simpa [assembled, Stage.rank, Frame.path, Tree.value, Shell.toTree] using Inserted.inside rfl inner
  | afterHtml =>
    obtain rfl := settled (by simp [Stage.hasOpened])
    rw [Inserted_nil (here ⟨.document, none⟩)]
    generalize whole : html.toTree "html" (content .beforeHead ++
      [head.toTree "head" (content .inHead)] ++ content .afterHead ++
      (shell.map (·.toTree "body" (content .inBody))).toList ++ content .afterBody) = tree
    have inner : Inserted t [] (.node ⟨.document, none⟩ (content .beforeHtml ++ [tree] ++
        content .afterHtml)) (.node ⟨.document, none⟩ (content .beforeHtml ++ [tree] ++
        content .afterHtml ++ [t])) := .here
    simpa [assembled, Stage.rank, Frame.path, Tree.value, ← whole] using inner

/-- A tree that is appended becomes the last child of the element at the end of the open path. -/
theorem openPath_inserted (sound : s.Sound Placed) (ordered : s.Ordered) (t : HtmlTree) :
    Inserted t s.openPath s.soFar (s.append t).soFar := by
  rw [openPath, soFar, soFar, append_frame]
  apply assembled_inserted
  · intro outside
    rw [sound.settled outside]
    rfl
  · exact closeAll_append s t
  · exact fun stage other => closeAll_append_other other t
  · intro stage early before
    rw [closeAll, content_close_other]
    · exact ordered.later stage early before
    · rintro rfl
      exact absurd before (Nat.lt_irrefl _)
  · exact ordered.bodiless
  · exact ordered.body

/-- There are no open elements, or they start at `html`. -/
theorem openPath_cases (sound : s.Sound Placed) :
    s.openPath = [] ∨
      (s.openPath.head?.bind fun node => node.content.elementName?) = some "html" := by
  rw [openPath, Frame.path]
  cases current : s.frame.stage
  case beforeHtml | afterHtml =>
    left
    rw [sound.settled (by rw [show s.stage = _ from current]; simp [Stage.hasOpened])]
    rfl
  all_goals exact .inr rfl

/-- The open path has the elements that are around the place where content is put. -/
theorem openPath_names (s : Construction) :
    s.openPath.reverse.filterMap (·.content.elementName?) = s.above := by
  have inner : (s.opened.map (·.toTree.value)).filterMap (·.content.elementName?) = s.names := by
    rw [List.filterMap_map, names]
    exact congrFun (List.filterMap_eq_map (f := fun e : OpenElement => e.name)) s.opened
  rw [openPath, List.reverse_append, List.reverse_reverse, List.filterMap_append, inner, above]
  congr 1
  rw [Frame.path, frame]
  cases s.stage <;> rfl

/-- The finished document is the one that stands when the body has been opened. -/
theorem toTree_eq_soFar (ordered : s.Ordered) : s.toTree = s.openBody.soFar := by
  have closed : s.openBody.closeAll.content = s.closeAll.content := by
    unfold openBody
    split
    · rfl
    · next outside =>
      have settled := closeAll_settled (s := { s.enter .inBody with body := s.body.getD {} })
        (closeAll_opened s)
      rw [settled]
      rfl
  have frame : s.openBody.frame = ⟨.inBody, s.html, s.head, some (s.body.getD {})⟩ := by
    unfold openBody
    split
    · next here =>
      obtain ⟨shell, body⟩ := Option.isSome_iff_exists.1 (ordered.body (.inl here))
      rw [frame, here, body]
      rfl
    · simp [frame, enter, closeAll]
  rw [soFar, closed, frame]
  simp only [toTree, assembled, Stage.rank, closeAll, close_html, close_head, close_body]
  simp [content]

end Construction

end LocatedHtml
