import LocatedHtml.Proofs.Construction.Basic
import LocatedHtml.Proofs.Tree

/-!
Facts about the nodes of a construction. A fact about a node is told the names of the elements above it,
nearest first. It holds throughout a construction when it holds of all content and of every open
element as it would stand if it ended now.
-/

namespace LocatedHtml

/-- The names of the elements above the children of a node. -/
def Content.namesBelow (content : Content) (above : List String) : List String :=
  content.elementName?.toList ++ above

@[simp] theorem Content.namesBelow_element (name : String) (attributes : OrderedMap Text)
    (above : List String) : (Content.element name attributes).namesBelow above = name :: above := rfl

/-- `p` holds of a tree below elements of the given names, and so of every node in it. -/
inductive Everywhere (p : List String → HtmlTree → Prop) : List String → HtmlTree → Prop
  | node {above : List String} {v : Node} {cs : List HtmlTree} (top : p above (.node v cs))
      (below : ∀ c ∈ cs, Everywhere p (v.content.namesBelow above) c) : Everywhere p above (.node v cs)

namespace Everywhere

variable {p q : List String → HtmlTree → Prop} {above : List String} {t : HtmlTree}

theorem top (holds : Everywhere p above t) : p above t := by
  cases holds
  assumption

theorem child (holds : Everywhere p above t) :
    ∀ c ∈ t.children, Everywhere p (t.value.content.namesBelow above) c := by
  cases holds
  assumption

theorem leaf {v : Node} (top : p above (.node v [])) : Everywhere p above (.node v []) :=
  .node top fun _ member => absurd member List.not_mem_nil

theorem of_children {v : Node} {cs : List HtmlTree} (top : p above (.node v cs))
    (below : ∀ c ∈ cs, Everywhere p (v.content.namesBelow above) c) :
    Everywhere p above (.node v cs) := .node top below

theorem imp (holds : Everywhere p above t) (implies : ∀ above t, p above t → q above t) :
    Everywhere q above t := by
  induction holds with
  | node top _ ih => exact .node (implies _ _ top) ih

theorem and (left : Everywhere p above t) (right : Everywhere q above t) :
    Everywhere (fun above t => p above t ∧ q above t) above t := by
  induction left with
  | node top _ ih =>
    exact .node ⟨top, right.top⟩ fun c member => ih c member (right.child c member)

/-- What holds everywhere holds at each place, told the names of the elements above. -/
theorem at_place (holds : Everywhere p above t) {nodes : List Node}
    (names : nodes.filterMap (·.content.elementName?) = above) {place : List Node × HtmlTree}
    (member : place ∈ t.places nodes) :
    p (place.1.filterMap (·.content.elementName?)) place.2 := by
  induction holds generalizing nodes with
  | @node above v cs top _ ih =>
    rw [Tree.places_node] at member
    rcases List.mem_cons.1 member with rfl | member
    · simpa only [names] using top
    · obtain ⟨c, child, member⟩ := List.mem_flatMap.1 member
      refine ih c child ?_ member
      cases name : v.content.elementName? <;>
        simp only [Content.namesBelow, List.filterMap_cons, name, names, Option.toList,
          List.nil_append, List.singleton_append]

theorem at_subtree (holds : Everywhere p above t) {u : HtmlTree} (member : u ∈ t.subtrees) :
    ∃ above, p above u := by
  induction holds with
  | @node above v cs top _ ih =>
    rcases Tree.mem_subtrees_node.1 member with rfl | ⟨c, child, member⟩
    · exact ⟨above, top⟩
    · exact ih c child member

theorem of_subtrees {p : HtmlTree → Prop} (holds : ∀ u ∈ t.subtrees, p u) :
    Everywhere (fun _ u => p u) above t := by
  induction t using Tree.induction generalizing above with
  | node v cs ih =>
    apply of_children (holds _ (Tree.mem_subtrees_self _))
    intro c child
    apply ih c child
    intro u below
    exact holds u (Tree.mem_subtrees_node.2 (.inr ⟨c, child, below⟩))

/-- What holds everywhere holds of a node with children and of each of these below it. -/
theorem at_child (holds : Everywhere p above t) {u c : HtmlTree} (member : u ∈ t.subtrees)
    (child : c ∈ u.children) :
    ∃ above, p above u ∧ p (u.value.content.namesBelow above) c := by
  induction holds with
  | @node above v cs top below ih =>
    rcases Tree.mem_subtrees_node.1 member with rfl | ⟨d, inside, member⟩
    · exact ⟨above, top, (below c child).top⟩
    · exact ih d inside member

end Everywhere

/-- The names of the structural elements around the content of a stage. -/
def Stage.above : Stage → List String
  | .beforeHtml | .afterHtml => []
  | .beforeHead | .afterHead | .afterBody => ["html"]
  | .inHead => ["head", "html"]
  | .inBody => ["body", "html"]

/-- Elements can be open in the stage. -/
def Stage.hasOpened (stage : Stage) : Prop := stage = .inHead ∨ stage = .inBody

/-- A fact about an element stays true whatever children the element gets besides those it has. -/
def Grows (p : List String → HtmlTree → Prop) (above : List String) (e : OpenElement) : Prop :=
  ∀ more, p above { e with children := e.children ++ more }.toTree

/-- A fact holds of all open elements, the outermost one standing below `base`, and each may grow. -/
def OpenedSound (p : List String → HtmlTree → Prop) (base : List String) :
    List OpenElement → Prop
  | [] => True
  | e :: outer =>
    Everywhere p (outer.map (·.name) ++ base) e.toTree ∧ Grows p (outer.map (·.name) ++ base) e ∧
      OpenedSound p base outer

theorem OpenedSound.imp {p q : List String → HtmlTree → Prop} {base : List String}
    {opened : List OpenElement} (sound : OpenedSound p base opened)
    (implies : ∀ above t, p above t → q above t) : OpenedSound q base opened := by
  induction opened with
  | nil => trivial
  | cons e outer ih =>
    exact ⟨sound.1.imp implies, fun more => implies _ _ (sound.2.1 more), ih sound.2.2⟩

theorem Grows.child {p : List String → HtmlTree → Prop} {above : List String} {e : OpenElement}
    (grows : Grows p above e) (t : HtmlTree) :
    Grows p above { e with children := e.children ++ [t] } := by
  intro more
  have longer := grows (t :: more)
  rwa [List.append_cons] at longer

namespace Construction

/-- The names of the elements around the place where content is put, innermost first. -/
def above (s : Construction) : List String := s.names ++ s.stage.above

/-- A fact holds of everything in a construction. -/
structure Sound (p : List String → HtmlTree → Prop) (s : Construction) : Prop where
  content : ∀ stage, ∀ t ∈ s.content stage, Everywhere p stage.above t
  opened : OpenedSound p s.stage.above s.opened
  staged : s.opened ≠ [] → s.stage.hasOpened

variable {p : List String → HtmlTree → Prop} {s : Construction}

theorem Sound.imp {q : List String → HtmlTree → Prop} (sound : s.Sound p)
    (implies : ∀ above t, p above t → q above t) : s.Sound q where
  content stage t member := (sound.content stage t member).imp implies
  opened := sound.opened.imp implies
  staged := sound.staged

theorem sound_initial : Sound p {} where
  content stage t member := by cases stage <;> exact absurd member List.not_mem_nil
  opened := trivial
  staged inside := absurd rfl inside

namespace Sound

/-- Soundness depends on nothing but content, open elements and stage. -/
theorem congr (sound : s.Sound p) {r : Construction} (content : r.content = s.content)
    (opened : r.opened = s.opened) (stage : r.stage = s.stage) : r.Sound p where
  content := by rw [content]; exact sound.content
  opened := by rw [opened, stage]; exact sound.opened
  staged := by rw [opened, stage]; exact sound.staged

theorem settled (sound : s.Sound p) (outside : ¬s.stage.hasOpened) : s.opened = [] := by
  by_contra inside
  exact outside (sound.staged inside)

theorem leave_innermost (sound : s.Sound p) {e : OpenElement} {outer : List OpenElement}
    (inside : s.opened = e :: outer) : Sound p { s with opened := outer } where
  content := sound.content
  opened := by
    have opened := sound.opened
    rw [inside] at opened
    exact opened.2.2
  staged _ := sound.staged (by rw [inside]; exact List.cons_ne_nil _ _)

theorem append (sound : s.Sound p) {t : HtmlTree}
    (holds : Everywhere p s.above t) : (s.append t).Sound p := by
  cases inside : s.opened with
  | nil =>
    refine ⟨?_, ?_, ?_⟩
    · intro stage u member
      rw [content_append inside] at member
      split at member
      · next current =>
        rcases List.mem_append.1 member with member | member
        · exact sound.content _ _ member
        · rw [List.mem_singleton.1 member, current]
          simpa only [Construction.above, names, inside, List.map_nil, List.nil_append] using holds
      · exact sound.content _ _ member
    · rw [append_opened inside]
      trivial
    · rw [append_opened inside]
      exact fun absurd => (absurd rfl).elim
  | cons e outer =>
    have opened := sound.opened
    rw [inside] at opened
    obtain ⟨innermost, grows, outer_⟩ := opened
    rw [append_inside inside]
    refine ⟨sound.content, ⟨?_, grows.child t, outer_⟩, fun _ => ?_⟩
    · apply Everywhere.of_children (grows [t])
      intro c member
      rcases List.mem_append.1 member with member | member
      · exact innermost.child c member
      · rw [List.mem_singleton.1 member]
        simpa only [Construction.above, names, inside, List.map_cons, List.cons_append,
          Content.namesBelow_element] using holds
    · exact sound.staged (by rw [inside]; exact List.cons_ne_nil _ _)

theorem close (sound : s.Sound p) (n : Nat) : (s.close n).Sound p := by
  apply close_induction (motive := Sound p)
  · intro r e outer inside sound
    apply (sound.leave_innermost inside).append
    have opened := sound.opened
    rw [inside] at opened
    exact opened.1
  · exact sound

theorem endText (sound : s.Sound p) {stop : Nat}
    (text : ∀ o, s.openText = some o →
      Everywhere p s.above (.node ⟨.text o.value, some (.plain (.ofMark o.start stop))⟩ [])) :
    (s.endText stop).Sound p := by
  unfold Construction.endText
  split
  · exact sound
  · next o openText =>
    exact append (s := { s with openText := none }) (sound.congr rfl rfl rfl)
      (text o openText)

theorem enter (sound : s.Sound p) (stage : Stage) :
    (s.enter stage).Sound p where
  content := (sound.close s.opened.length).content
  opened := by
    rw [show (s.enter stage).opened = [] from closeAll_opened s]
    trivial
  staged inside := absurd (closeAll_opened s) inside

theorem openHead (sound : s.Sound p) : s.openHead.Sound p := by
  unfold Construction.openHead
  split
  · exact sound.enter _
  · exact sound.enter _
  · exact sound

theorem openBody (sound : s.Sound p) : s.openBody.Sound p := by
  unfold Construction.openBody
  split
  · exact sound
  · exact (sound.enter .inBody).congr rfl rfl rfl

theorem push (sound : s.Sound p) {e : OpenElement} (holds : Everywhere p s.above e.toTree)
    (grows : Grows p s.above e) (staged : s.stage.hasOpened) :
    Sound p { s with opened := e :: s.opened } where
  content := sound.content
  opened := ⟨holds, grows, sound.opened⟩
  staged _ := staged

end Sound

end Construction

end LocatedHtml
