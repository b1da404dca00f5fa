import LocatedHtml.Proofs.Forest.Growth
import LocatedHtml.Proofs.Forest.Splicing

/-!
Texts put into nodes of a tree that stands among others. A node that gets a text loses its children to the
forest, so the same node can be found again and get another text; what counts is the last one.
-/

namespace LocatedHtml

open LocatedHtml.Tree (All)

namespace NumberedTree

/-- Texts that nodes hold in place of their children, each in a node of its own, the last one first. -/
abbrev Held := List (NodeId × NodeId × Text)

/-- A text node. -/
def textLeaf (n : NodeId) (value : Text) : NumberedTree := .node (n, ⟨.text value, none⟩) []

mutual

/-- The tree with texts in some of its nodes. -/
def filled (held : Held) : NumberedTree → NumberedTree
  | .node v cs =>
    match held.lookup v.1 with
    | some (leaf, value) => .node v [textLeaf leaf value]
    | none => .node v (filledAll held cs)

/-- The trees with texts in some of their nodes. -/
def filledAll (held : Held) : List NumberedTree → List NumberedTree
  | [] => []
  | t :: ts => filled held t :: filledAll held ts

end

variable {held : Held} {n leaf : NodeId} {value : Text} {p : NodeId × Node → Prop} {t : NumberedTree}

theorem filledAll_eq (held : Held) (ts : List NumberedTree) : filledAll held ts = ts.map (filled held) := by
  induction ts with
  | nil => rfl
  | cons t ts ih => rw [filledAll, ih, List.map_cons]

theorem filled_of_some {v : NodeId × Node} {cs : List NumberedTree}
    (here : held.lookup v.1 = some (leaf, value)) :
    filled held (.node v cs) = .node v [textLeaf leaf value] := by
  rw [filled, here]

theorem filled_of_none {v : NodeId × Node} {cs : List NumberedTree} (none : held.lookup v.1 = none) :
    filled held (.node v cs) = .node v (cs.map (filled held)) := by
  rw [filled, none, filledAll_eq]

theorem filled_children (none : held.lookup (topId t) = none) :
    (filled held t).children = t.children.map (filled held) := by
  cases t
  exact congrArg Tree.children (filled_of_none none)

@[simp] theorem filled_value (held : Held) (t : NumberedTree) : (filled held t).value = t.value := by
  cases t
  rw [filled]
  split <;> rfl

theorem filled_nil (t : NumberedTree) : filled [] t = t := by
  induction t using Tree.induction with
  | node v cs ih =>
    rw [filled_of_none rfl, List.map_congr_left ih, List.map_id']

/-- What holds of all values of a tree and of the texts holds when these are put in. -/
theorem all_filled (all : t.All p)
    (leaves : ∀ {n leaf value}, held.lookup n = some (leaf, value) → p (leaf, ⟨.text value, none⟩)) :
    (filled held t).All p := by
  induction t using Tree.induction with
  | node v cs ih =>
    obtain ⟨top, below⟩ := Tree.all_node.1 all
    cases here : held.lookup v.1 with
    | some entry =>
      rw [filled_of_some here, Tree.all_node, List.forall_mem_singleton]
      exact ⟨top, .leaf (leaves here)⟩
    | none =>
      rw [filled_of_none here, Tree.all_node, List.forall_mem_map]
      exact ⟨top, fun c child => ih c child (below c child)⟩

theorem replaced_filled (leaf : NodeId) (value : Text)
    (leaves : ∀ {m leaf value}, held.lookup m = some (leaf, value) → leaf ≠ n) (t : NumberedTree) :
    replaced n (fun t => [.node t.value [textLeaf leaf value]]) (filled held t) =
      [filled ((n, leaf, value) :: held) t] := by
  induction t using Tree.induction with
  | node v cs ih =>
    have top : topId (filled held (.node v cs)) = v.1 := by rw [topId, filled_value, Tree.value]
    rw [replaced, top]
    split
    · next here =>
      rw [filled_value, filled_of_some (by rw [here, List.lookup_cons_self])]
      rfl
    · next other =>
      have skipped : ((n, leaf, value) :: held).lookup v.1 = held.lookup v.1 := by
        rw [List.lookup_cons, beq_false_of_ne other]
      cases here : held.lookup v.1 with
      | some entry =>
        have apart : Lacks n (textLeaf entry.1 entry.2) := .leaf (leaves here)
        rw [filled_of_some here, filled_of_some (skipped.trans here), substituteBelow,
          substitute_of_lacks (by rwa [List.forall_mem_singleton])]
      | none =>
        rw [filled_of_none here, filled_of_none (skipped.trans here), substituteBelow, substitute_eq,
          List.flatMap_map, List.flatMap_congr ih, ← List.map_eq_flatMap]

/-- A node stays in the tree if no node above it gets a text. -/
theorem mem_ids_filled (has : n ∈ ids t)
    (open_ : ∀ u ∈ t.subtrees, n ∈ ids u → topId u ≠ n → held.lookup (topId u) = none) :
    n ∈ ids (filled held t) := by
  induction t using Tree.induction with
  | node v cs ih =>
    by_cases here : v.1 = n
    · have top : topId (filled held (.node v cs)) = n := by rw [topId, filled_value, Tree.value, here]
      exact List.mem_map.2 ⟨_, Tree.mem_subtrees_self _, top⟩
    · have none : held.lookup v.1 = none := open_ _ (Tree.mem_subtrees_self _) has here
      rw [ids_node, List.mem_cons, List.mem_flatMap] at has
      obtain ⟨c, child, has⟩ := has.resolve_left (Ne.symm here)
      rw [filled_of_none none, ids_node, List.mem_cons, List.mem_flatMap]
      refine .inr ⟨_, List.mem_map_of_mem child, ih c child has fun u member => ?_⟩
      exact open_ u (Tree.mem_subtrees_node.2 (.inr ⟨c, child, member⟩))

end NumberedTree

open NumberedTree

/-- A tree with its nodes numbered from a base on, behind other trees and before copies of others; numbers
from the limit on are of later nodes. -/
structure Layout where
  before : List NumberedTree
  base : NodeId
  tree : HtmlTree
  copies : List NumberedTree
  limit : NodeId
  before_lt : ∀ u ∈ before, u.All (·.1 < base)
  copies_mem : ∀ u ∈ copies, u.All fun v => base + tree.size ≤ v.1 ∧ v.1 < limit
  limit_le : base + tree.size ≤ limit

namespace Layout

variable {l : Layout} {next : NodeId} {v : NodeId × Node} {u : NumberedTree}

/-- The tree with its numbers. -/
def copy (l : Layout) : NumberedTree := l.tree.number l.base

theorem topId_copy (l : Layout) : topId l.copy = l.base := topId_number l.base l.tree

theorem value_copy (l : Layout) : l.copy.value.2 = l.tree.value := by
  rw [copy]
  cases l.tree
  rfl

theorem range_copy (member : u ∈ l.copy.subtrees) : l.base ≤ topId u ∧ topId u < l.base + l.tree.size :=
  all_number l.base l.tree u member

theorem copy_nodup (l : Layout) : (ids l.copy).Nodup := by
  rw [copy, ids_number]
  exact List.nodup_range'

theorem before_lacks (member : u ∈ l.copy.subtrees) : ∀ t ∈ l.before, Lacks (topId u) t :=
  fun t front => (l.before_lt t front).imp fun v small here =>
    absurd (range_copy member).1 (by rw [← here]; exact Nat.not_le_of_lt small)

theorem copies_lack (member : u ∈ l.copy.subtrees) : ∀ t ∈ l.copies, Lacks (topId u) t :=
  fun t copied => (l.copies_mem t copied).imp fun v large here =>
    absurd (range_copy member).2 (by rw [← here]; exact Nat.not_lt_of_le large.1)

/-- A node that may stand behind the trees of the layout: one of the tree or a later one. -/
def Behind (l : Layout) (next : NodeId) (v : NodeId × Node) : Prop :=
  l.base < v.1 ∧ v.1 < next ∧ (v.1 < l.limit → ∃ u ∈ l.copy.subtrees, u.value = v)

theorem base_lt_limit (l : Layout) : l.base < l.limit :=
  Nat.lt_of_lt_of_le (Nat.lt_add_of_pos_right (Tree.size_pos l.tree)) l.limit_le

theorem behind_of_limit_le (late : l.limit ≤ v.1) (small : v.1 < next) : l.Behind next v :=
  ⟨Nat.lt_of_lt_of_le l.base_lt_limit late, small, fun early => absurd late (Nat.not_le_of_lt early)⟩

theorem Behind.mono {next' : NodeId} (behind : l.Behind next v) (later : next ≤ next') : l.Behind next' v :=
  ⟨behind.1, Nat.lt_of_lt_of_le behind.2.1 later, behind.2.2⟩

/-- A node that stands behind has the number of a node of the tree only if it is that node. -/
theorem Behind.value_eq (behind : l.Behind next v) (member : u ∈ l.copy.subtrees) (same : v.1 = topId u) :
    v = u.value := by
  have early : v.1 < l.limit := by
    rw [same]
    exact Nat.lt_of_lt_of_le (range_copy member).2 l.limit_le
  obtain ⟨w, inside, rfl⟩ := behind.2.2 early
  rw [List.inj_on_of_nodup_map (f := topId) l.copy_nodup inside member same]

end Layout

/-- A forest with the trees of a layout, in which nodes of the tree hold texts. -/
structure Forest.Holds (f : Forest) (l : Layout) (held : Held) : Prop where
  roots : ∃ after, f.roots = l.before ++ filled held l.copy :: (l.copies ++ after) ∧
    ∀ u ∈ after, u.All (l.Behind f.next)
  next : l.limit ≤ f.next
  leaves : ∀ {n leaf : NodeId} {value : Text}, held.lookup n = some (leaf, value) →
    l.limit ≤ leaf ∧ leaf < f.next
  top : held.lookup l.base = none

namespace Forest.Holds

variable {f g : Forest} {l : Layout} {held : Held} {u w : NumberedTree}

theorem grown (holds : f.Holds l held) (more : f.Grown g) : g.Holds l held where
  roots := by
    obtain ⟨after, roots, behind⟩ := holds.roots
    obtain ⟨new, roots', fresh⟩ := more.roots
    refine ⟨after ++ new, by rw [roots', roots, List.append_assoc, List.cons_append, List.append_assoc], ?_⟩
    rw [List.forall_mem_append]
    refine ⟨fun u member => (behind u member).imp fun v here => here.mono more.next,
      fun u member => (fresh u member).imp fun v here => ?_⟩
    exact Layout.behind_of_limit_le (Nat.le_trans holds.next here.1) here.2
  next := Nat.le_trans holds.next more.next
  leaves here := ⟨(holds.leaves here).1, Nat.lt_of_lt_of_le (holds.leaves here).2 more.next⟩
  top := holds.top

theorem topId_filled (held : Held) (l : Layout) : topId (filled held l.copy) = l.base := by
  rw [topId, filled_value]
  exact l.topId_copy

/-- Below its top the tree has no nodes but its own and later ones. -/
theorem below (holds : f.Holds l held) : ∀ c ∈ (filled held l.copy).children, c.All (l.Behind f.next) := by
  have none := holds.top
  rw [← l.topId_copy] at none
  rw [filled_children none, List.forall_mem_map]
  intro c child
  refine all_filled (fun u member => ?_) fun here => ?_
  · obtain ⟨above, small⟩ := children_number l.base l.tree c child u member
    refine ⟨above, Nat.lt_of_lt_of_le small (Nat.le_trans l.limit_le holds.next), fun _ => ⟨u, ?_, rfl⟩⟩
    exact Tree.mem_subtrees_iff.2 (.inr ⟨c, child, member⟩)
  · exact Layout.behind_of_limit_le (holds.leaves here).1 (holds.leaves here).2

theorem of_find? (holds : f.Holds l held) (member : u ∈ l.copy.subtrees) (inner : topId u ≠ l.base)
    (found : f.find? (topId u) = some w) :
    w.value = u.value ∧ ∀ c ∈ w.children, c.All (l.Behind f.next) := by
  obtain ⟨after, roots, behind⟩ := holds.roots
  obtain ⟨same, root, inside, below⟩ := find?_eq_some found
  have all : w.All (l.Behind f.next) := by
    rw [roots, List.mem_append, List.mem_cons, List.mem_append] at inside
    rcases inside with front | rfl | copied | back
    · exact absurd same ((Layout.before_lacks member root front).subtree below).top
    · rcases Tree.mem_subtrees_iff.1 below with rfl | ⟨c, child, below⟩
      · exact absurd ((topId_filled held l).symm.trans same).symm inner
      · exact (holds.below c child).subtree below
    · exact absurd same ((Layout.copies_lack member root copied).subtree below).top
    · exact (behind root back).subtree below
  exact ⟨all.top.value_eq member same, all.children⟩

theorem setText (holds : f.Holds l held) (member : u ∈ l.copy.subtrees) (inner : topId u ≠ l.base)
    {name : String} {attributes : OrderedMap Text} (element : u.value.2.content = .element name attributes)
    (reached : topId u ∈ ids (filled held l.copy)) (value : Text) :
    (f.setText (topId u) value).Holds l ((topId u, f.next, value) :: held) := by
  obtain ⟨after, roots, behind⟩ := holds.roots
  have place : filled held l.copy ∈ f.roots := by
    rw [roots]
    exact List.mem_append_right _ List.mem_cons_self
  obtain ⟨w, found⟩ := find?_isSome place reached
  obtain ⟨same, children⟩ := holds.of_find? member inner found
  have leaves {m leaf : NodeId} {value : Text} (here : held.lookup m = some (leaf, value)) :
      leaf ≠ topId u := Nat.ne_of_gt
    (Nat.lt_of_lt_of_le (Layout.range_copy member).2 (Nat.le_trans l.limit_le (holds.leaves here).1))
  have later (v : NodeId × Node) (here : l.Behind f.next v) : l.Behind (f.next + 1) v :=
    here.mono (Nat.le_succ _)
  have put := replaced_filled f.next value leaves l.copy
  unfold Forest.setText
  rw [found]
  dsimp only
  rw [same, element]
  refine ⟨⟨substitute (topId u) (fun t => [.node t.value [textLeaf f.next value]]) after ++ w.children, ?_, ?_⟩,
    Nat.le_succ_of_le holds.next, fun here => ?_, ?_⟩
  · change substitute (topId u) (fun t => [.node t.value [textLeaf f.next value]]) f.roots ++ w.children = _
    rw [roots, substitute_append, substitute_of_lacks (Layout.before_lacks member), substitute_cons, put,
      substitute_append, substitute_of_lacks (Layout.copies_lack member)]
    simp only [List.append_assoc, List.cons_append, List.nil_append]
  · rw [List.forall_mem_append]
    refine ⟨all_substitute (fun t back => (behind t back).imp later) fun t all _ => ?_,
      fun c child => (children c child).imp later⟩
    rw [List.forall_mem_singleton, Tree.all_node, List.forall_mem_singleton]
    exact ⟨all.top, .leaf (Layout.behind_of_limit_le holds.next (Nat.lt_succ_self _))⟩
  · rw [List.lookup_cons] at here
    split at here
    · cases here
      exact ⟨holds.next, Nat.lt_succ_self _⟩
    · exact ⟨(holds.leaves here).1, Nat.lt_succ_of_lt (holds.leaves here).2⟩
  · rw [List.lookup_cons, beq_false_of_ne (Ne.symm inner)]
    exact holds.top

/-- What was found among the copies when nothing held a text is found there still. -/
theorem rootOf?_eq (holds : f.Holds l held) (start : g.roots = l.before ++ l.copy :: l.copies) {n : NodeId}
    (late : l.base + l.tree.size ≤ n) (early : n < l.limit) {t : NumberedTree}
    (found : g.rootOf? n = some t) : f.rootOf? n = some t := by
  have inFront : l.before.find? (fun t => (ids t).contains n) = none := by
    rw [List.find?_eq_none]
    intro u front has
    obtain ⟨w, below, same⟩ := List.mem_map.1 (List.contains_iff_mem.1 has)
    have small := l.before_lt u front w below
    change topId w < _ at small
    rw [same] at small
    exact absurd (Nat.le_trans (Nat.le_add_right _ _) late) (Nat.not_le_of_lt small)
  have apart (held : Held) (leaves : ∀ {m leaf value}, held.lookup m = some (leaf, value) → l.limit ≤ leaf) :
      (ids (filled held l.copy)).contains n = false := by
    rw [← Bool.not_eq_true, List.contains_iff_mem, ← lacks_iff]
    refine all_filled (fun u member same => ?_) fun here => ?_
    · change topId u = n at same
      exact absurd (Layout.range_copy member).2 (by rw [same]; exact Nat.not_lt_of_le late)
    · exact Nat.ne_of_gt (Nat.lt_of_lt_of_le early (leaves here))
  obtain ⟨after, roots, _⟩ := holds.roots
  have apartFirst := apart [] (fun none => by cases none)
  rw [filled_nil] at apartFirst
  rw [rootOf?, start, List.find?_append, inFront, Option.none_or, List.find?_cons, apartFirst] at found
  rw [rootOf?, roots, List.find?_append, inFront, Option.none_or, List.find?_cons,
    apart held fun here => (holds.leaves here).1, List.find?_append]
  dsimp only at found ⊢
  rw [found, Option.some_or]

/-- Without injected elements the tree is the spliced one. -/
theorem html?_removeInjected (holds : f.Holds l held) :
    (f.removeInjected l.base).1.html? l.base = some (.node l.tree.value
      (Tree.splicedAll (Tree.mapAll Prod.snd (filled held l.copy).children))) := by
  obtain ⟨after, roots, behind⟩ := holds.roots
  have self : l.copy ∈ l.copy.subtrees := Tree.mem_subtrees_self _
  have inFront := Layout.before_lacks self
  have copies := Layout.copies_lack self
  rw [l.topId_copy] at inFront copies
  have spliced := Forest.html?_removeInjected (t := filled held l.copy) roots
  rw [topId_filled held l] at spliced
  rw [spliced inFront (fun c child => (holds.below c child).imp fun v here => Nat.ne_of_gt here.1) ?_]
  · rw [filled_value, l.value_copy]
  · rw [List.forall_mem_append]
    exact ⟨copies, fun u back => (behind u back).imp fun v here => Nat.ne_of_gt here.1⟩

theorem html?_removeInjected_nil (holds : f.Holds l []) :
    (f.removeInjected l.base).1.html? l.base =
      some (.node l.tree.value (l.tree.children.flatMap Tree.spliced)) := by
  have children : Tree.mapAll Prod.snd l.copy.children = l.tree.children := by
    have same : l.copy.toHtml = l.tree := Tree.map_number l.base l.tree
    rw [← same, toHtml_eq, Tree.mapAll_eq]
    rfl
  rw [holds.html?_removeInjected, filled_nil, children, Tree.splicedAll_eq]

end Forest.Holds

/-- A forest that has grown from planting a tree has the layout of the tree. -/
theorem Forest.Grown.layout {f g : Forest} {t : HtmlTree} (grown : (f.plant t).Grown g)
    (bounded : f.Bounded) :
    ∃ l : Layout, l.base = f.next ∧ l.tree = t ∧ l.limit = g.next ∧
      g.roots = l.before ++ l.copy :: l.copies ∧ g.Holds l [] := by
  obtain ⟨copies, roots, fresh⟩ := grown.roots
  have front : (f.plant t).roots = f.roots ++ [t.number f.next] := rfl
  rw [front, List.append_assoc, List.singleton_append] at roots
  let l : Layout := ⟨f.roots, f.next, t, copies, g.next, bounded, fresh, grown.next⟩
  refine ⟨l, rfl, rfl, rfl, roots, ⟨[], ?_, List.forall_mem_nil _⟩, Nat.le_refl _, fun none => (by cases none),
    rfl⟩
  rw [filled_nil, List.append_nil]
  exact roots

end LocatedHtml
