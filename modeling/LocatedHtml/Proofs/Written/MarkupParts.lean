import LocatedHtml.Proofs.Paths
import LocatedHtml.Proofs.Written.Rendering

/-!
The parts of which the markup of a tree consists, each with the path of its node. The end tag of an element
stands behind everything that is written for the nodes below the element, and in front of what is written for
the next of its siblings.
-/

namespace LocatedHtml

namespace Content

/-- The markup with which a node starts; a document has none. -/
def opening? (verbatim : Bool) : Content → Option Text
  | .document => none
  | .element name attributes => some (writtenStartTag name attributes)
  | .text value => some (writtenText verbatim value)
  | .comment value => some (writtenComment value)
  | .doctype value => some (writtenDoctype value)

/-- The end tag of an element, unless it is void. -/
def endTag? : Content → Option Text
  | .element name _ => if isVoid name then none else some (writtenEndTag name)
  | _ => none

/-- The children of the node are written. -/
def showsChildren : Content → Bool
  | .document => true
  | .element name _ => !isVoid name
  | _ => false

theorem endTag?_element (name : String) (attributes : OrderedMap Text) :
    (element name attributes).endTag? = if isVoid name then none else some (writtenEndTag name) := rfl

theorem showsChildren_element (name : String) (attributes : OrderedMap Text) :
    (element name attributes).showsChildren = !isVoid name := rfl

end Content

/-- A part of the markup of a tree: what its node starts with, or the end tag of its node. -/
structure MarkupPart where
  path : Tree.Path
  isEnd : Bool
  markup : Text
  deriving DecidableEq, Repr

namespace MarkupPart

/-- What the top of a tree has itself is at most one part at either end. -/
def ofTop (isEnd : Bool) (markup? : Option Text) : List MarkupPart := markup?.toList.map (⟨[], isEnd, ·⟩)

def inChild (i : Nat) (part : MarkupPart) : MarkupPart := { part with path := i :: part.path }

theorem inChild_inj {i j : Nat} {a b : MarkupPart} (same : a.inChild i = b.inChild j) : i = j ∧ a = b := by
  obtain ⟨path, isEnd, markup⟩ := a
  obtain ⟨_, _, _⟩ := b
  obtain ⟨paths, rfl, rfl⟩ := MarkupPart.mk.inj same
  obtain ⟨rfl, rfl⟩ := List.cons.inj paths
  exact ⟨rfl, rfl⟩

/-- How two parts of a tree stand to each other if the first comes before the second. -/
inductive Before (a b : MarkupPart) : Prop where
  /-- A node starts before everything below it, and before its end tag. -/
  | opened (start : a.isEnd = false) (inside : a.path <+: b.path) (other : a.path ≠ b.path ∨ b.isEnd = true)
  /-- An end tag comes behind everything below its node. -/
  | ended (stop : b.isEnd = true) (inside : b.path <+: a.path) (other : a.path ≠ b.path ∨ a.isEnd = false)
  /-- What belongs to a child or stands below it comes before what belongs to a later child. -/
  | aside (earlier : a.path < b.path) (apart : ¬a.path <+: b.path)

theorem Before.inChild {a b : MarkupPart} (before : a.Before b) (i : Nat) : (a.inChild i).Before (b.inChild i) := by
  have apart (other : a.path ≠ b.path) : (a.inChild i).path ≠ (b.inChild i).path := fun same =>
    other (List.cons.inj same).2
  cases before with
  | opened start inside other =>
    exact .opened start (List.cons_prefix_cons.2 ⟨rfl, inside⟩) (other.imp_left apart)
  | ended stop inside other =>
    exact .ended stop (List.cons_prefix_cons.2 ⟨rfl, inside⟩) (other.imp_left apart)
  | aside earlier apart =>
    exact .aside (List.cons_lt_cons_iff.2 (.inr ⟨rfl, earlier⟩)) fun inside =>
      apart (List.cons_prefix_cons.1 inside).2

theorem before_inChild {i j : Nat} (order : i < j) (a b : MarkupPart) : (a.inChild i).Before (b.inChild j) :=
  .aside (List.cons_lt_cons_iff.2 (.inl order)) fun inside => Nat.ne_of_lt order (List.cons_prefix_cons.1 inside).1

theorem Before.asymm {a b : MarkupPart} (before : a.Before b) : ¬b.Before a := by
  intro after
  -- Only paths that lead to the same node start with each other, and a node has just one part at each end.
  cases before with
  | opened start inside other =>
    cases after with
    | opened start' inside' _ =>
      rcases other with apart | stop
      · exact apart (inside.eq_of_length_le inside'.length_le)
      · exact Bool.false_ne_true (start'.symm.trans stop)
    | ended stop _ _ => exact Bool.false_ne_true (start.symm.trans stop)
    | aside earlier _ => exact List.not_lt.2 inside.le earlier
  | ended stop inside other =>
    cases after with
    | opened start _ _ => exact Bool.false_ne_true (start.symm.trans stop)
    | ended stop' inside' _ =>
      rcases other with apart | start
      · exact apart (inside'.eq_of_length_le inside.length_le)
      · exact Bool.false_ne_true (start.symm.trans stop')
    | aside _ apart => exact apart inside
  | aside earlier apart =>
    cases after with
    | opened _ inside _ => exact List.not_lt.2 inside.le earlier
    | ended _ inside _ => exact apart inside
    | aside earlier' _ => exact List.lt_asymm earlier earlier'

theorem Before.ne {a b : MarkupPart} (before : a.Before b) : a ≠ b := by
  intro same
  subst same
  exact before.asymm before

theorem mem_ofTop {isEnd : Bool} {markup? : Option Text} {part : MarkupPart} :
    part ∈ ofTop isEnd markup? ↔ part.path = [] ∧ part.isEnd = isEnd ∧ markup? = some part.markup := by
  obtain ⟨path, stop, markup⟩ := part
  rw [ofTop, List.mem_map]
  constructor
  · intro made
    obtain ⟨text, member, same⟩ := made
    obtain ⟨rfl, rfl, rfl⟩ := MarkupPart.mk.inj same
    exact ⟨rfl, rfl, Option.mem_toList.1 member⟩
  · intro made
    obtain ⟨rfl, rfl, markup⟩ := made
    exact ⟨_, Option.mem_toList.2 markup, rfl⟩

theorem pairwise_ofTop (isEnd : Bool) (markup? : Option Text) : (ofTop isEnd markup?).Pairwise Before := by
  cases markup? with
  | none => exact .nil
  | some markup => exact List.pairwise_singleton _ _

theorem markup_ofTop (isEnd : Bool) (markup? : Option Text) :
    (ofTop isEnd markup?).flatMap markup = markup?.getD [] := by
  cases markup? with
  | none => rfl
  | some text => exact List.append_nil text

end MarkupPart

/-- Texts directly below the nodes, nearest first, are written without escapes; where there is no node above,
`verbatim` tells. -/
def verbatimAt (verbatim : Bool) : List Node → Bool
  | [] => verbatim
  | v :: _ => v.content.isVerbatimParent

theorem verbatimAt_append (verbatim : Bool) (near : List Node) (v : Node) :
    verbatimAt verbatim (near ++ [v]) = verbatimAt v.content.isVerbatimParent near := by
  cases near <;> rfl

namespace Tree

mutual

/-- The parts of a tree; `verbatim` says that its parent writes texts without escapes. -/
def markupParts (verbatim : Bool) : HtmlTree → List MarkupPart
  | .node v cs =>
    MarkupPart.ofTop false (v.content.opening? verbatim) ++
      ((if v.content.showsChildren then markupPartsAll v.content.isVerbatimParent 0 cs else []) ++
        MarkupPart.ofTop true v.content.endTag?)

def markupPartsAll (verbatim : Bool) (i : Nat) : List HtmlTree → List MarkupPart
  | [] => []
  | t :: rest => (markupParts verbatim t).map (MarkupPart.inChild i) ++ markupPartsAll verbatim (i + 1) rest

end

/-- The part is written for a node of the tree: every node above it shows its children. -/
def Writes (verbatim : Bool) (t : HtmlTree) (part : MarkupPart) : Prop :=
  ∃ above u, t.place? [] part.path = some (above, u) ∧ (∀ v ∈ above, v.content.showsChildren = true) ∧
    (if part.isEnd then u.value.content.endTag? else u.value.content.opening? (verbatimAt verbatim above)) =
      some part.markup

variable {v : Node} {cs : List HtmlTree} {verbatim : Bool}

theorem markupPartsAll_eq (i : Nat) (ts : List HtmlTree) : markupPartsAll verbatim i ts =
    (ts.zipIdx i).flatMap fun c => (c.1.markupParts verbatim).map (MarkupPart.inChild c.2) := by
  induction ts generalizing i with
  | nil => rfl
  | cons t ts ih => rw [markupPartsAll, ih, List.zipIdx_cons, List.flatMap_cons]

theorem innerHtml_eq (t : HtmlTree) :
    t.innerHtml = t.children.flatMap (outerHtml t.value.content.isVerbatimParent) := by
  rw [innerHtml, Unwritten.ofChildren, List.map_eq_flatMap, Unwritten.write_flatMap]
  rfl

open Unwritten in
/-- A node is written as what it starts with, its children if it shows them, and its end tag. -/
theorem outerHtml_node : (Tree.node v cs).outerHtml verbatim = (v.content.opening? verbatim).getD [] ++
    ((if v.content.showsChildren then (Tree.node v cs).innerHtml else []) ++ v.content.endTag?.getD []) := by
  rw [outerHtml, innerHtml, value, children, write]
  cases content : v.content with
  | document =>
    dsimp only
    rw [List.append_nil]
    exact (List.append_nil _).symm
  | element name attributes =>
    rw [Content.endTag?_element, Content.showsChildren_element]
    cases void : isVoid name with
    | true =>
      dsimp only
      rw [void, if_pos rfl, write]
      rfl
    | false =>
      dsimp only
      rw [void, if_neg Bool.false_ne_true, write_append, write, write, List.append_nil]
      rfl
  | text value | comment value | doctype value =>
    dsimp only
    rw [write]
    rfl

theorem outerHtml_element {t : HtmlTree} {name : String} {attributes : OrderedMap Text}
    (element : t.value.content = .element name attributes) (shown : isVoid name = false) (verbatim : Bool) :
    t.outerHtml verbatim = writtenStartTag name attributes ++ t.innerHtml ++ writtenEndTag name := by
  obtain ⟨v, cs⟩ := t
  rw [value] at element
  rw [outerHtml_node, element, Content.endTag?_element, Content.showsChildren_element, shown, List.append_assoc]
  rfl

def partsBelow (v : Node) (cs : List HtmlTree) : List MarkupPart :=
  if v.content.showsChildren then
    cs.zipIdx.flatMap fun c => (c.1.markupParts v.content.isVerbatimParent).map (MarkupPart.inChild c.2)
  else []

theorem mem_partsBelow {part : MarkupPart} : part ∈ partsBelow v cs ↔ v.content.showsChildren = true ∧
    ∃ i, ∃ c : HtmlTree, cs[i]? = some c ∧
      ∃ inner : MarkupPart, inner ∈ c.markupParts v.content.isVerbatimParent ∧ inner.inChild i = part := by
  rw [partsBelow]
  split
  · next shown =>
    rw [List.mem_flatMap, and_iff_right shown]
    constructor
    · intro below
      obtain ⟨⟨c, i⟩, child, member⟩ := below
      exact ⟨i, c, List.mem_zipIdx_iff_getElem?.1 child, List.mem_map.1 member⟩
    · intro below
      obtain ⟨i, c, child, member⟩ := below
      exact ⟨(c, i), List.mem_zipIdx_iff_getElem?.2 child, List.mem_map.2 member⟩
  · next hidden => exact iff_of_false List.not_mem_nil fun below => hidden below.1

theorem path_ne_nil_of_below {part : MarkupPart} (below : part ∈ partsBelow v cs) : part.path ≠ [] := by
  obtain ⟨_, i, _, _, inner, _, rfl⟩ := mem_partsBelow.1 below
  exact List.cons_ne_nil i inner.path

theorem markupParts_node : (Tree.node v cs).markupParts verbatim =
    MarkupPart.ofTop false (v.content.opening? verbatim) ++
      (partsBelow v cs ++ MarkupPart.ofTop true v.content.endTag?) := by
  rw [markupParts, markupPartsAll_eq, partsBelow]

theorem outerHtml_markupParts (verbatim : Bool) (t : HtmlTree) :
    t.outerHtml verbatim = (t.markupParts verbatim).flatMap MarkupPart.markup := by
  induction t using Tree.induction generalizing verbatim with
  | node v cs ih =>
    have below : (partsBelow v cs).flatMap MarkupPart.markup =
        if v.content.showsChildren then (Tree.node v cs).innerHtml else [] := by
      rw [partsBelow]
      split
      · rw [innerHtml_eq, List.flatMap_assoc, Tree.children, ← flatMap_zipIdx]
        apply List.flatMap_congr
        intro c child
        -- Where a part stands does not matter for what it is.
        rw [List.flatMap_map]
        exact (ih c.1 (mem_of_mem_zipIdx child) _).symm
      · rfl
    rw [outerHtml_node, markupParts_node, List.flatMap_append, List.flatMap_append, MarkupPart.markup_ofTop,
      MarkupPart.markup_ofTop, below]

theorem markupParts_ordered (verbatim : Bool) (t : HtmlTree) :
    (t.markupParts verbatim).Pairwise MarkupPart.Before := by
  induction t using Tree.induction generalizing verbatim with
  | node v cs ih =>
    have children : (partsBelow v cs).Pairwise MarkupPart.Before := by
      rw [partsBelow]
      split
      · apply pairwise_children
        · intro c child
          rw [List.pairwise_map]
          exact (ih c.1 (mem_of_mem_zipIdx child) _).imp fun before => before.inChild c.2
        · intro c d before a first b second
          obtain ⟨a, _, rfl⟩ := List.mem_map.1 first
          obtain ⟨b, _, rfl⟩ := List.mem_map.1 second
          exact MarkupPart.before_inChild before a b
      · exact .nil
    rw [markupParts_node]
    refine List.pairwise_append.2 ⟨MarkupPart.pairwise_ofTop _ _, List.pairwise_append.2 ⟨children,
      MarkupPart.pairwise_ofTop _ _, ?_⟩, ?_⟩
    · intro a below b last
      obtain ⟨top, stop, _⟩ := MarkupPart.mem_ofTop.1 last
      exact .ended stop (top ▸ List.nil_prefix) (.inl (top ▸ path_ne_nil_of_below below))
    · intro a first b later
      obtain ⟨top, start, _⟩ := MarkupPart.mem_ofTop.1 first
      refine .opened start (top ▸ List.nil_prefix) ?_
      rcases List.mem_append.1 later with below | last
      · exact .inl (top ▸ (path_ne_nil_of_below below).symm)
      · exact .inr (MarkupPart.mem_ofTop.1 last).2.1

section Writes

variable {i : Nat} {part : MarkupPart} {isEnd : Bool} {markup : Text}

theorem writes_top : (Tree.node v cs).Writes verbatim ⟨[], isEnd, markup⟩ ↔
    (if isEnd then v.content.endTag? else v.content.opening? verbatim) = some markup := by
  constructor
  · intro writes
    obtain ⟨_, _, leads, _, written⟩ := writes
    cases leads
    exact written
  · intro written
    exact ⟨[], .node v cs, rfl, List.forall_mem_nil _, written⟩

theorem writes_inChild : (Tree.node v cs).Writes verbatim (part.inChild i) ↔ v.content.showsChildren = true ∧
    ∃ c : HtmlTree, cs[i]? = some c ∧ c.Writes v.content.isVerbatimParent part := by
  constructor
  · intro writes
    obtain ⟨_, u, leads, shown, written⟩ := writes
    obtain ⟨c, near, child, inner, rfl⟩ := place?_cons_eq_some.1 leads
    rw [List.forall_mem_append, List.forall_mem_singleton] at shown
    rw [verbatimAt_append] at written
    exact ⟨shown.2, c, child, near, u, inner, shown.1, written⟩
  · intro writes
    obtain ⟨top, c, child, near, u, leads, shown, written⟩ := writes
    refine ⟨near ++ [v], u, place?_cons_eq_some.2 ⟨c, near, child, leads, rfl⟩, ?_, ?_⟩
    · rw [List.forall_mem_append, List.forall_mem_singleton]
      exact ⟨shown, top⟩
    · rw [verbatimAt_append]
      exact written

end Writes

theorem mem_markupParts_iff {t : HtmlTree} {part : MarkupPart} :
    part ∈ t.markupParts verbatim ↔ t.Writes verbatim part := by
  obtain ⟨path, isEnd, markup⟩ := part
  -- An empty path leads to the parts of the top itself, any other into one child, which has its own `verbatim`.
  induction path generalizing t verbatim with
  | nil =>
    obtain ⟨v, cs⟩ := t
    have deeper : ⟨[], isEnd, markup⟩ ∉ partsBelow v cs := fun below => path_ne_nil_of_below below rfl
    rw [markupParts_node, List.mem_append, List.mem_append, or_iff_right deeper, MarkupPart.mem_ofTop,
      MarkupPart.mem_ofTop, writes_top]
    cases isEnd <;> simp
  | cons i path ih =>
    obtain ⟨v, cs⟩ := t
    have top (stop : Bool) (markup? : Option Text) :
        ⟨i :: path, isEnd, markup⟩ ∉ MarkupPart.ofTop stop markup? := fun member =>
      List.cons_ne_nil i path (MarkupPart.mem_ofTop.1 member).1
    have inChild : MarkupPart.mk (i :: path) isEnd markup = (MarkupPart.mk path isEnd markup).inChild i := rfl
    rw [markupParts_node, List.mem_append, List.mem_append, or_iff_right (top _ _), or_iff_left (top _ _),
      mem_partsBelow, inChild, writes_inChild]
    refine and_congr_right fun _ => ?_
    constructor
    · intro below
      obtain ⟨j, c, child, inner, member, same⟩ := below
      obtain ⟨rfl, rfl⟩ := MarkupPart.inChild_inj same
      exact ⟨c, child, ih.1 member⟩
    · intro writes
      obtain ⟨c, child, written⟩ := writes
      exact ⟨i, c, child, _, ih.2 written, rfl⟩

end Tree

end LocatedHtml
