import LocatedHtml.Proofs.Forest.Values

/-!
Taking the injected elements out of a tree of a forest. The tree is spliced, and the trees around it stay
as they are.
-/

namespace LocatedHtml

namespace Tree

mutual

/-- What stands in place of a tree when injected elements leave their children in their places. -/
def spliced : HtmlTree → List HtmlTree
  | .node v cs => if v.isInjected true then splicedAll cs else [.node v (splicedAll cs)]

/-- What stands in place of some trees when injected elements leave their children. -/
def splicedAll : List HtmlTree → List HtmlTree
  | [] => []
  | t :: rest => spliced t ++ splicedAll rest

end

theorem splicedAll_eq (ts : List HtmlTree) : splicedAll ts = ts.flatMap spliced := by
  induction ts with
  | nil => rfl
  | cons t ts ih => rw [splicedAll, ih, List.flatMap_cons]

theorem spliced_node (v : Node) (cs : List HtmlTree) :
    (Tree.node v cs).spliced =
      if v.isInjected true then cs.flatMap spliced else [.node v (cs.flatMap spliced)] := by
  rw [spliced, splicedAll_eq]

theorem spliced_of_stays {v : Node} (stays : v.isInjected true = false) (cs : List HtmlTree) :
    (Tree.node v cs).spliced = [.node v (cs.flatMap spliced)] := by
  rw [spliced_node, stays, if_neg Bool.false_ne_true]

end Tree

open NumberedTree

theorem spliceAll_toHtml (ts : List NumberedTree) :
    Tree.mapAll Prod.snd (spliceAll ts) = Tree.splicedAll (Tree.mapAll Prod.snd ts) := by
  have below (t : NumberedTree) : Tree.mapAll Prod.snd (splice true t) = (t.map Prod.snd).spliced := by
    induction t using Tree.induction with
    | node v cs ih =>
      have inside : Tree.mapAll Prod.snd (spliceAll cs) = Tree.splicedAll (Tree.mapAll Prod.snd cs) := by
        rw [spliceAll_eq, Tree.mapAll_eq, Tree.mapAll_eq, Tree.splicedAll_eq, List.map_flatMap,
          List.flatMap_map]
        apply List.flatMap_congr
        intro c child
        rw [← ih c child, Tree.mapAll_eq]
      rw [splice, Tree.map, Tree.spliced]
      split
      · exact inside
      · rw [Tree.mapAll, Tree.mapAll, Tree.map, inside]
  rw [spliceAll_eq, Tree.mapAll_eq, Tree.mapAll_eq, Tree.splicedAll_eq, List.map_flatMap, List.flatMap_map]
  apply List.flatMap_congr
  intro t _
  rw [← below t, Tree.mapAll_eq]

namespace Forest

variable {f : Forest} {n : NodeId}

/-- A node that stands below no other one has no parent. -/
theorem parent?_eq_none (below : ∀ root ∈ f.roots, ∀ c ∈ root.children, Lacks n c) :
    f.parent? n = none := by
  rw [parent?, List.find?_eq_none, subtrees_eq]
  intro u member parent
  obtain ⟨root, inside, member⟩ := List.mem_flatMap.1 member
  obtain ⟨c, child, same⟩ := List.any_eq_true.1 parent
  cases root with
  | node v cs =>
    rcases Tree.mem_subtrees_node.1 member with rfl | ⟨d, top, member⟩
    · exact (below _ inside c child).top (eq_of_beq same)
    · exact (((below _ inside d top).subtree member).children c child).top (eq_of_beq same)

/-- Taking out what is injected below the top of a tree splices the tree. -/
theorem html?_removeInjected {before after : List NumberedTree} {t : NumberedTree}
    (roots : f.roots = before ++ t :: after) (inFront : ∀ u ∈ before, Lacks t.topId u)
    (below : ∀ c ∈ t.children, Lacks t.topId c) (behind : ∀ u ∈ after, Lacks t.topId u) :
    (f.removeInjected t.topId).1.html? t.topId =
      some (.node t.value.2 (Tree.splicedAll (Tree.mapAll Prod.snd t.children))) := by
  obtain ⟨v, cs⟩ := t
  change ∀ u ∈ before, Lacks v.1 u at inFront
  change ∀ u ∈ after, Lacks v.1 u at behind
  have orphan : f.parent? v.1 = none := by
    apply parent?_eq_none
    rw [roots, List.forall_mem_append, List.forall_mem_cons]
    exact ⟨fun u member => (inFront u member).children, below, fun u member => (behind u member).children⟩
  have stays : v.2.isInjected false = false := rfl
  have spliced : substitute v.1 (splice false) f.roots = before ++ .node v (spliceAll cs) :: after := by
    rw [roots, substitute_append, substitute_of_lacks inFront, substitute]
    have here : (Tree.node v cs).value.1 = v.1 := rfl
    rw [if_pos here, splice, stays, if_neg Bool.false_ne_true, substitute_of_lacks behind,
      List.singleton_append]
  have found := find?_root roots inFront
  unfold removeInjected
  change f.find? v.1 = _ at found
  rw [topId, Tree.value, found]
  dsimp only
  rw [orphan, Option.isSome_none, spliced, List.append_assoc, List.cons_append, html?]
  have again := find?_root (f := ⟨before ++ .node v (spliceAll cs) :: (after ++
    injected false (.node v cs)), f.next⟩) rfl inFront
  change Forest.find? _ v.1 = _ at again
  rw [again, Option.map_some, toHtml, Tree.map, spliceAll_toHtml]
  rfl

theorem removeInjected_plant (v : Node) (cs : List HtmlTree) :
    ((plant {} (.node v cs)).removeInjected 0).1.html? 0 = some (.node v (cs.flatMap Tree.spliced)) := by
  have below : ∀ c ∈ ((Tree.node v cs).number 0).children, Lacks 0 c := fun c child =>
    (children_number 0 (.node v cs) c child).imp fun _ after => Nat.ne_of_gt after.1
  have spliced := html?_removeInjected (f := plant {} (.node v cs)) (t := (Tree.node v cs).number 0) rfl
    (List.forall_mem_nil _) below (List.forall_mem_nil _)
  have numbered : Tree.mapAll Prod.snd (Tree.numberAll 1 cs) = cs := by
    have same := Tree.map_number 0 (.node v cs)
    rw [Tree.number, Tree.map] at same
    injection same
  change Forest.html? _ 0 =
    some (.node v (Tree.splicedAll (Tree.mapAll Prod.snd (Tree.numberAll 1 cs)))) at spliced
  rwa [numbered, Tree.splicedAll_eq] at spliced

end Forest

end LocatedHtml
