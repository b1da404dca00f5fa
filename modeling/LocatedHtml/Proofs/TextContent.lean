import LocatedHtml.Proofs.Forest.Splicing

/-!
The text of some trees is that of one after the other, and an injected element adds nothing to the text of
its children. So the text of a tree is that of its texts, without those that stand below a text or a comment.
-/

namespace LocatedHtml.Tree

theorem collectText_append (ts us : List HtmlTree) : collectText (ts ++ us) = collectText ts ++ collectText us := by
  induction ts using collectText.induct with
  | case1 => rw [List.nil_append, collectText, List.nil_append]
  | case2 v cs ahead value content ih =>
    rw [List.cons_append, collectText, collectText, content]
    dsimp only
    rw [ih, List.append_assoc]
  | case3 v cs ahead value content ih =>
    rw [List.cons_append, collectText, collectText, content]
    exact ih
  | case4 v cs ahead notText notComment ih =>
    rw [List.append_assoc] at ih
    rw [List.cons_append, collectText, collectText]
    split
    · exact absurd ‹_› (notText _)
    · exact absurd ‹_› (notComment _)
    · exact ih

theorem collectText_flatMap (f : HtmlTree → List HtmlTree) {ts : List HtmlTree}
    (same : ∀ t ∈ ts, collectText (f t) = collectText [t]) : collectText (ts.flatMap f) = collectText ts := by
  induction ts with
  | nil => rfl
  | cons t ts ih =>
    obtain ⟨first, others⟩ := List.forall_mem_cons.1 same
    rw [List.flatMap_cons, collectText_append, first, ih others, ← collectText_append, List.singleton_append]

theorem collectText_node (v : Node) (cs : List HtmlTree) : collectText [.node v cs] =
    match v.content with
    | .text value => value
    | .comment _ => []
    | _ => collectText cs := by
  have nothing : collectText [] = [] := by rw [collectText]
  rw [collectText, nothing, List.append_nil]
  cases v.content with
  | text value => exact List.append_nil value
  | _ => rfl

/-- An injected element has no text of its own. -/
theorem collectText_spliced (t : HtmlTree) : collectText t.spliced = collectText [t] := by
  induction t using Tree.induction with
  | node v cs ih =>
    have inside := collectText_flatMap spliced ih
    rw [spliced_node]
    split
    · next injected =>
      cases content : v.content with
      | element name attributes =>
        rw [inside, collectText_node, content]
      | _ =>
        rw [Node.isInjected_of_unnamed (by rw [content]; rfl)] at injected
        cases injected
    · rw [collectText_node, collectText_node, inside]

theorem collectText_eq_flatMap (ts : List HtmlTree) : collectText ts = ts.flatMap fun t => collectText [t] := by
  induction ts with
  | nil => rw [collectText, List.flatMap_nil]
  | cons t ts ih => rw [List.flatMap_cons, ← ih, ← collectText_append, List.singleton_append]

/-- The place has a text that no other text and no comment is above. -/
def isReadText (place : List Node × HtmlTree) : Bool :=
  place.2.value.content.isText && place.1.all fun v => !v.content.isText && !v.content.isComment

/-- A text or a comment keeps everything below it from being read. -/
theorem filter_isReadText_below {v : Node} (unread : v.content.isText = true ∨ v.content.isComment = true)
    (above : List Node) (cs : List HtmlTree) :
    (cs.flatMap (places (v :: above))).filter isReadText = [] := by
  rw [List.filter_eq_nil_iff]
  intro place member read
  obtain ⟨c, _, member⟩ := List.mem_flatMap.1 member
  have inside : v ∈ place.1 := (above_suffix member).subset List.mem_cons_self
  rw [isReadText, Bool.and_eq_true, List.all_eq_true] at read
  have passes := read.2 v inside
  rw [Bool.and_eq_true, Bool.not_eq_true', Bool.not_eq_true'] at passes
  rcases unread with text | comment
  · exact Bool.false_ne_true (passes.1.symm.trans text)
  · exact Bool.false_ne_true (passes.2.symm.trans comment)

/-- The text of a tree is that of its texts that are read, in document order. -/
theorem collectText_places {above : List Node}
    (through : ∀ v ∈ above, v.content.isText = false ∧ v.content.isComment = false) (t : HtmlTree) :
    collectText [t] = ((t.places above).filter isReadText).flatMap fun place => place.2.value.content.textValue := by
  induction t using Tree.induction generalizing above with
  | node v cs ih =>
    have passes : above.all (fun v => !v.content.isText && !v.content.isComment) = true := by
      rw [List.all_eq_true]
      intro w member
      rw [(through w member).1, (through w member).2]
      rfl
    have top : isReadText (above, .node v cs) = v.content.isText := by
      rw [isReadText, passes, Bool.and_true, value]
    have below (inner : v.content.isText = false ∧ v.content.isComment = false) : collectText cs =
        ((cs.flatMap (places (v :: above))).filter isReadText).flatMap fun place =>
          place.2.value.content.textValue := by
      rw [collectText_eq_flatMap, List.filter_flatMap, List.flatMap_assoc]
      exact List.flatMap_congr fun c child => ih c child (List.forall_mem_cons.2 ⟨inner, through⟩)
    rw [collectText_node, places_node, List.filter_cons, top]
    cases content : v.content with
    | text value =>
      rw [filter_isReadText_below (.inl (by rw [content]; rfl)), Content.isText, if_pos rfl, List.flatMap_singleton,
        Tree.value, content, Content.textValue]
    | comment value =>
      rw [filter_isReadText_below (.inr (by rw [content]; rfl))]
      rfl
    | document | element name attributes | doctype value => exact below (by rw [content]; exact ⟨rfl, rfl⟩)

end LocatedHtml.Tree
