import LocatedHtml.Proofs.Written.Events

/-!
The normal shape of a document: what its nodes hold, with injected elements spliced out, neighbouring
texts joined and empty texts dropped. It can be read off the events, so documents that are written the
same have the same one.
-/

namespace LocatedHtml

/-- A tree of what nodes hold, wherever they stand in a source. -/
abbrev Shape := Tree Content

/-- A shape before others: an empty text is dropped, and a text joins a text that comes next. -/
def Shape.before (t : Shape) (next : List Shape) : List Shape :=
  match t.value, next with
  | .text value, .node (.text more) below :: others =>
    .node (.text (value ++ more)) below :: others
  | .text value, others => if value = [] then others else t :: others
  | _, others => t :: others

/-- Shapes with neighbouring texts joined and empty ones dropped. -/
def joinTexts (ts : List Shape) : List Shape := ts.foldr Shape.before []

namespace Tree

mutual

/-- The shape of a tree, with texts joined and dropped everywhere below its top. -/
def tidy : HtmlTree → Shape
  | .node v cs => .node v.content (joinTexts (tidyAll cs))

/-- The shapes of some trees. -/
def tidyAll : List HtmlTree → List Shape
  | [] => []
  | t :: rest => tidy t :: tidyAll rest

end

theorem tidyAll_eq (ts : List HtmlTree) : tidyAll ts = ts.map tidy := by
  induction ts with
  | nil => rfl
  | cons t ts ih => rw [tidyAll, ih, List.map_cons]

/-- The shape of a document without injected elements, empty texts and texts next to texts. -/
def normalShape (t : HtmlTree) : Shape := tidy (.node t.value (t.children.flatMap spliced))

end Tree

/-- The shapes read from the end of a series of events on, for the elements that are still open there,
innermost first. -/
def Event.read : Event → List (List Shape) → List (List Shape)
  | .char c, shapes :: outer => Shape.before (.node (.text [c]) []) shapes :: outer
  | .closing _, outer => [] :: outer
  | .opening name attributes, inner :: shapes :: outer =>
    (.node (.element name attributes) inner :: shapes) :: outer
  | .single name attributes, shapes :: outer => (.node (.element name attributes) [] :: shapes) :: outer
  | .raw name attributes value, shapes :: outer =>
    (.node (.element name attributes) (joinTexts [.node (.text value) []]) :: shapes) :: outer
  | .comment value, shapes :: outer => (.node (.comment value) [] :: shapes) :: outer
  | .doctype value, shapes :: outer => (.node (.doctype value) [] :: shapes) :: outer
  | _, outer => outer

theorem read_chars (value : Text) (shapes : List Shape) (outer : List (List Shape)) :
    (value.map Event.char).foldr Event.read (shapes :: outer) =
      Shape.before (.node (.text value) []) shapes :: outer := by
  induction value with
  | nil =>
    cases shapes with
    | nil => rfl
    | cons t ts =>
      obtain ⟨content, below⟩ := t
      cases content <;> rfl
  | cons c value ih =>
    rw [List.map_cons, List.foldr_cons, ih]
    cases shapes with
    | nil => cases value <;> rfl
    | cons t ts =>
      obtain ⟨content, below⟩ := t
      cases content <;> cases value <;> rfl

/-- Nodes without content have no children, void elements neither, and elements that are read as text
hold only texts. -/
def LeafShaped (t : HtmlTree) : Prop :=
  match t.value.content with
  | .document => False
  | .element name _ =>
    (isVoid name = true → t.children = []) ∧ (isRawText name = true → ∀ c ∈ t.children, c.IsText)
  | .text _ | .comment _ | .doctype _ => t.children = []

/-- The document itself, or a node with children only where they are written. -/
def Trim (t : HtmlTree) : Prop := t.value.content = .document ∨ LeafShaped t

namespace Trim

variable {v : Node} {cs : List HtmlTree} {name : String} {attributes : OrderedMap Text}

theorem leaf (trim : Trim (.node v cs)) (other : v.content ≠ .document)
    (unnamed : v.content.elementName? = none) : cs = [] := by
  have shaped := trim.resolve_left other
  unfold LeafShaped at shaped
  dsimp only [Tree.value, Tree.children] at shaped
  cases content : v.content <;> rw [content] at shaped unnamed other
  case document => exact absurd rfl other
  case element => cases unnamed
  all_goals exact shaped

theorem element (trim : Trim (.node v cs)) (content : v.content = .element name attributes) :
    (isVoid name = true → cs = []) ∧ (isRawText name = true → ∀ c ∈ cs, c.IsText) := by
  have shaped : LeafShaped (.node v cs) := trim.resolve_left (by rw [Tree.value, content]; rintro ⟨⟩)
  unfold LeafShaped at shaped
  rwa [Tree.value, content] at shaped

end Trim

theorem joinTexts_texts {cs : List HtmlTree} (texts : ∀ c ∈ cs, c.IsText) :
    joinTexts (cs.map Tree.tidy) = joinTexts [.node (.text (Tree.joinedText cs)) []] := by
  induction cs with
  | nil => rfl
  | cons c cs ih =>
    rw [List.forall_mem_cons] at texts
    obtain ⟨v, value, rfl, content⟩ := texts.1
    have rest := ih texts.2
    rw [List.map_cons, joinTexts, List.foldr_cons, ← joinTexts, rest]
    simp only [Tree.joinedText, List.flatMap_cons, Tree.value, content, Content.textValue]
    generalize cs.flatMap _ = more
    rw [Tree.tidy, content]
    cases more with
    | nil =>
      rw [List.append_nil]
      cases value <;> rfl
    | cons c more => cases value <;> rfl

variable {above : List String}

/-- What is known of reading the events of each tree is known of reading those of all. -/
theorem read_flatMap {ts : List HtmlTree} (outer : List (List Shape))
    (each : ∀ t ∈ ts, ∀ shapes, t.events.foldr Event.read (shapes :: outer) =
      (t.spliced.map Tree.tidy).foldr Shape.before shapes :: outer) (shapes : List Shape) :
    (ts.flatMap Tree.events).foldr Event.read (shapes :: outer) =
      ((ts.flatMap Tree.spliced).map Tree.tidy).foldr Shape.before shapes :: outer := by
  induction ts with
  | nil => rfl
  | cons t ts ih =>
    rw [List.forall_mem_cons] at each
    rw [List.flatMap_cons, List.foldr_append, ih each.2, each.1, List.flatMap_cons, List.map_append,
      List.foldr_append]

/-- Reading the events of a tree gives the shapes that stand in its place. -/
theorem read_events {t : HtmlTree} (leaves : Everywhere (fun _ t => LeafShaped t) above t)
    (shapes : List Shape) (outer : List (List Shape)) :
    t.events.foldr Event.read (shapes :: outer) =
      (t.spliced.map Tree.tidy).foldr Shape.before shapes :: outer := by
  induction t using Tree.induction generalizing above shapes outer with
  | node v cs ih =>
    have top := leaves.top
    unfold LeafShaped at top
    rw [Tree.events_node, Tree.spliced_node]
    cases content : v.content with
    | document =>
      rw [Tree.value, content] at top
      exact top.elim
    | text value =>
      rw [Tree.value, content] at top
      have childless : cs = [] := top
      subst childless
      rw [if_neg (by simp [Tree.isInjected_of_text content])]
      simp only [read_chars, List.flatMap_nil, List.map_cons, List.map_nil, List.foldr_cons,
        List.foldr_nil, Tree.tidy, Tree.tidyAll, content]
      rfl
    | comment value | doctype value =>
      rw [Tree.value, content] at top
      have childless : cs = [] := top
      subst childless
      rw [if_neg (by rw [Node.isInjected_of_unnamed (by rw [content]; rfl)]; decide)]
      simp only [List.flatMap_nil, List.map_cons, List.map_nil, List.foldr_cons, List.foldr_nil,
        Tree.tidy, Tree.tidyAll, content]
      rfl
    | element name attributes =>
      rw [Tree.value, content] at top
      dsimp only at top ⊢
      have children (shapes : List Shape) (outer : List (List Shape)) :=
        read_flatMap outer (fun c member shapes => ih c member (leaves.child c member) shapes outer) shapes
      split
      · exact children shapes outer
      · split
        · next void =>
          have childless : cs = [] := top.1 void
          subst childless
          simp only [List.flatMap_nil, List.map_cons, List.map_nil, List.foldr_cons, List.foldr_nil,
            Tree.tidy, Tree.tidyAll, content]
          rfl
        · split
          · next raw =>
            have texts : ∀ c ∈ cs, c.IsText := top.2 raw
            have same : cs.flatMap Tree.spliced = cs := by
              refine (List.flatMap_congr fun c member => Tree.spliced_text (texts c member)).trans ?_
              exact List.flatMap_singleton' cs
            rw [same]
            simp only [List.map_cons, List.map_nil, List.foldr_cons, List.foldr_nil, Tree.tidy,
              Tree.tidyAll_eq, content, joinTexts_texts texts]
            rfl
          · rw [List.foldr_cons, List.foldr_append, List.foldr_cons, List.foldr_nil]
            have inner := children [] (shapes :: outer)
            rw [Event.read, inner]
            simp only [List.map_cons, List.map_nil, List.foldr_cons, List.foldr_nil, Tree.tidy,
              Tree.tidyAll_eq, content]
            rfl

/-- Documents with the same events have the same normal shape. -/
theorem normalShape_eq {t u : HtmlTree} (documents : t.value.content = u.value.content)
    (first : ∀ c ∈ t.children, Everywhere (fun _ t => LeafShaped t) [] c)
    (second : ∀ c ∈ u.children, Everywhere (fun _ t => LeafShaped t) [] c)
    (same : t.children.flatMap Tree.events = u.children.flatMap Tree.events) :
    t.normalShape = u.normalShape := by
  have left := read_flatMap [] (fun c member shapes => read_events (first c member) shapes []) []
  have right := read_flatMap [] (fun c member shapes => read_events (second c member) shapes []) []
  rw [same, right] at left
  injection left with shapes
  rw [Tree.normalShape, Tree.normalShape, Tree.tidy, Tree.tidy, documents, Tree.tidyAll_eq,
    Tree.tidyAll_eq, joinTexts, joinTexts, shapes]

end LocatedHtml
