import LocatedHtml.Proofs.Forest.LinkedSplicing
import LocatedHtml.Proofs.LinkedEdits
import LocatedHtml.Proofs.TextContent

/-!
Taking the injected elements out of the tree of a root. The nodes that stay keep their order, each below the
nearest of the nodes above it that stay as well, and the text of the tree is the same.
-/

namespace LocatedHtml

open NumberedTree

namespace Links

variable {s : Links} {c p : NodeId}

/-- A walk along the links of some trees goes through their nodes in document order. -/
theorem walkFrom_eq (ts : List NumberedTree) {steps : Nat}
    (children : ∀ r ∈ ts.flatMap NumberedTree.rows, s.children r.number = r.children)
    (enough : (ts.flatMap ids).length ≤ steps) : s.walkFrom steps (ts.map topId) = ts.flatMap ids := by
  induction steps generalizing ts with
  | zero => exact (List.eq_nil_of_length_eq_zero (Nat.le_zero.1 enough)).symm
  | succ steps ih =>
    cases ts with
    | nil => rfl
    | cons t ts =>
      obtain ⟨v, cs⟩ := t
      rw [List.flatMap_cons, rows_node, List.cons_append, List.forall_mem_cons, ← List.flatMap_append] at children
      rw [List.flatMap_cons, ids_node, List.cons_append, List.length_cons, Nat.succ_le_succ_iff,
        ← List.flatMap_append] at enough
      have here : s.children v.1 = cs.map topId := children.1
      rw [List.map_cons, walkFrom, List.flatMap_cons, ids_node, List.cons_append, ← List.flatMap_append,
        ← ih _ children.2 enough, List.map_append, ← here]
      rfl

/-- Only nodes within reach tell what is nearest above a node. -/
theorem NearestKept.congr {gone gone' within : NodeId → Prop}
    (closed : ∀ c p, within c → s.parent? c = some p → within p) (same : ∀ m, within m → (gone m ↔ gone' m))
    (member : within c) (nearest : s.NearestKept gone c p) : s.NearestKept gone' c p := by
  induction nearest with
  | parent linked stays => exact .parent linked fun goes => stays ((same _ (closed _ _ member linked)).2 goes)
  | above linked goes _ ih =>
    have inside := closed _ _ member linked
    exact .above linked ((same _ inside).1 goes) (ih inside)

theorem NearestKept.exists_parent {gone : NodeId → Prop} (nearest : s.NearestKept gone c p) :
    ∃ q, s.parent? c = some q := by
  cases nearest with
  | parent linked _ => exact ⟨_, linked⟩
  | above linked _ _ => exact ⟨_, linked⟩

theorem isInjected_of_top (top : s.parent? c = none) : s.isInjected c = false := by
  rw [isInjected, top]
  cases s.node? c <;> rfl

theorem isInjected_iff {v : Node} (node : s.node? c = some v) :
    s.isInjected c = true ↔ (∃ q, s.parent? c = some q) ∧ v.isInjected true = true := by
  rw [isInjected, node, Option.map_some, Option.getD_some]
  cases s.parent? c <;> simp [Node.isInjected]

end Links

namespace Forest

variable {f : Forest} {s : Links} {t : NumberedTree} {r m : NodeId}

/-- A node without a parent is the top of a tree. -/
theorem Full.exists_root (full : f.Full) (found : f.find? r = some t) (top : f.parent? r = none) :
    ∃ before after, f.roots = before ++ t :: after := by
  obtain ⟨same, root, inside, below⟩ := find?_eq_some found
  have has : r ∈ f.roots.map topId ++ f.subtrees.flatMap belowTop := by
    rw [← f.ids_perm.mem_iff]
    exact List.mem_flatMap.2 ⟨root, inside, List.mem_map.2 ⟨t, below, same⟩⟩
  rcases List.mem_append.1 has with root | child
  · obtain ⟨u, member, number⟩ := List.mem_map.1 root
    have among : u ∈ f.subtrees := by
      rw [subtrees_eq]
      exact List.mem_flatMap.2 ⟨u, member, Tree.mem_subtrees_self u⟩
    have again := find?_eq full.numbered.distinct among
    rw [number, found, Option.some.injEq] at again
    exact List.append_of_mem (again ▸ member)
  · obtain ⟨u, member, below⟩ := List.mem_flatMap.1 child
    obtain ⟨c, child, number⟩ := List.mem_map.1 below
    have linked := parent?_of_child full.numbered.below_nodup member child
    rw [number, top] at linked
    cases linked

namespace Mirrors

theorem rows_perm (mirrors : f.Mirrors s) (found : f.find? r = some t) :
    ∃ others, f.rows.Perm (t.rows ++ others) :=
  have ⟨others, perm, _⟩ := mirrors.full.substitute_rows (w := id) (fun _ => rfl) found
  ⟨others, perm⟩

theorem mem_rows (mirrors : f.Mirrors s) (found : f.find? r = some t) {row : Row} (member : row ∈ t.rows) :
    row ∈ f.rows :=
  have ⟨_, perm⟩ := mirrors.rows_perm found
  perm.mem_iff.2 (List.mem_append_left _ member)

theorem walk_eq (mirrors : f.Mirrors s) (found : f.find? r = some t) : s.walk r = t.ids := by
  obtain ⟨others, perm⟩ := mirrors.rows_perm found
  have enough : t.ids.length ≤ s.nodes.length := by
    rw [← mirrors.shown.length_eq, perm.length_eq, List.length_append, ← NumberedTree.numbers_rows, List.length_map]
    exact Nat.le_add_right _ _
  have children : ∀ row ∈ [t].flatMap NumberedTree.rows, s.children row.number = row.children :=
    fun row member => mirrors.shown.children row (mirrors.mem_rows found (by simpa using member))
  rw [Links.walk, ← (find?_eq_some found).1]
  exact (Links.walkFrom_eq [t] children (by simpa using enough)).trans (List.flatMap_singleton _ _)

/-- The other trees of the forest have no number of the tree. -/
theorem exists_apart (mirrors : f.Mirrors s) (found : f.find? r = some t) (top : s.parent? r = none) :
    ∃ before behind, f.roots = before ++ t :: behind ∧ ∀ u ∈ before ++ behind, ∀ m ∈ ids u, m ∉ t.ids := by
  rw [mirrors.parent?_eq, Option.map_eq_none_iff] at top
  obtain ⟨before, behind, roots⟩ := mirrors.full.exists_root found top
  have distinct := mirrors.full.nodup
  rw [roots, (List.perm_middle.flatMap_right ids).nodup_iff, List.flatMap_cons, List.nodup_append'] at distinct
  exact ⟨before, behind, roots, fun u other m inside member =>
    distinct.2.2 member (List.mem_flatMap.2 ⟨u, other, inside⟩)⟩

theorem node?_of_value (mirrors : f.Mirrors s) (found : f.find? r = some t) {v : NodeId × Node}
    (member : v ∈ t.values) : s.node? v.1 = some v.2 := by
  obtain ⟨u, inside, rfl⟩ := List.mem_map.1 member
  exact mirrors.shown.node? (row u) (mirrors.mem_rows found (List.mem_map_of_mem inside))

/-- Every node of a tree but the top has a parent in the tree. -/
theorem exists_parent (mirrors : f.Mirrors s) (found : f.find? r = some t) (member : m ∈ t.ids) (other : m ≠ r) :
    ∃ p ∈ t.ids, s.parent? m = some p := by
  rw [(NumberedTree.ids_perm t).mem_iff, (find?_eq_some found).1] at member
  obtain ⟨u, inside, below⟩ := List.mem_flatMap.1 ((List.mem_cons.1 member).resolve_left other)
  exact ⟨u.topId, List.mem_map_of_mem inside,
    (mirrors.shown.parent? m u.topId).2 ⟨row u, mirrors.mem_rows found (List.mem_map_of_mem inside), rfl, below⟩⟩

/-- The way up from a node of a tree whose top has no parent stays in the tree. -/
theorem mem_walk_of_parent? (mirrors : f.Mirrors s) (found : f.find? r = some t) (top : s.parent? r = none)
    {c p : NodeId} (member : c ∈ s.walk r) (linked : s.parent? c = some p) : p ∈ s.walk r := by
  have other : c ≠ r := by
    rintro rfl
    rw [top] at linked
    cases linked
  rw [mirrors.walk_eq found] at member ⊢
  obtain ⟨q, inside, again⟩ := mirrors.exists_parent found member other
  rw [linked, Option.some.injEq] at again
  exact again ▸ inside

/-- To tell what is nearest above a node of the tree, only the injected nodes of the tree matter. -/
theorem nearestKept_iff (mirrors : f.Mirrors s) (found : f.find? r = some t) (top : s.parent? r = none)
    {c p : NodeId} (member : c ∈ s.walk r) :
    s.NearestKept (· ∈ (s.walk r).filter s.isInjected) c p ↔
      s.NearestKept (fun q => s.isInjected q = true) c p := by
  have goes : ∀ m ∈ s.walk r, m ∈ (s.walk r).filter s.isInjected ↔ s.isInjected m = true :=
    fun m inside => List.mem_filter.trans (and_iff_right inside)
  have closed : ∀ c p, c ∈ s.walk r → s.parent? c = some p → p ∈ s.walk r := fun _ _ =>
    mirrors.mem_walk_of_parent? found top
  exact ⟨.congr closed goes member, .congr closed (fun m inside => (goes m inside).symm) member⟩

section Top

variable {v w : NodeId × Node} {cs : List NumberedTree} (mirrors : f.Mirrors s)
  (found : f.find? v.1 = some (.node v cs))
include mirrors found

theorem ids_below : v.1 ∉ cs.flatMap ids ∧ (cs.flatMap ids).Nodup := by
  obtain ⟨others, perm⟩ := mirrors.rows_perm found
  have distinct := (perm.map Row.number).nodup_iff.1 (mirrors.full.nodup_iff.2 List.nodup_range)
  rw [List.map_append, NumberedTree.numbers_rows, ids_node] at distinct
  exact List.nodup_cons.1 (List.nodup_append'.1 distinct).1

/-- Below the top of a tree each node has a parent, so it is injected if it looks like it. -/
theorem value_below (member : w ∈ cs.flatMap values) :
    s.node? w.1 = some w.2 ∧ (∃ p, s.parent? w.1 = some p) ∧ s.isInjected w.1 = goesBelow w := by
  have inside : w ∈ values (.node v cs) := by
    rw [values_node]
    exact List.mem_cons_of_mem v member
  have below : w.1 ∈ cs.flatMap ids := by
    obtain ⟨c, child, member⟩ := List.mem_flatMap.1 member
    exact List.mem_flatMap.2 ⟨c, child, ids_eq c ▸ List.mem_map_of_mem member⟩
  have node := mirrors.node?_of_value found inside
  have other : w.1 ≠ v.1 := fun same => (mirrors.ids_below found).1 (same ▸ below)
  obtain ⟨p, _, linked⟩ := mirrors.exists_parent found (ids_eq _ ▸ List.mem_map_of_mem inside) other
  refine ⟨node, ⟨p, linked⟩, ?_⟩
  rw [Bool.eq_iff_iff, Links.isInjected_iff node]
  exact and_iff_right ⟨p, linked⟩

/-- A node below the top goes if its number is among those of the nodes that go. -/
theorem contains_below (member : w ∈ cs.flatMap values) :
    ((leaving cs).map Prod.fst).contains w.1 = goesBelow w := by
  rw [Bool.eq_iff_iff, List.contains_iff_mem, List.mem_map]
  constructor
  · rintro ⟨u, goes, same⟩
    obtain ⟨inside, goes⟩ := List.mem_filter.1 goes
    have node := (mirrors.value_below found inside).1
    rw [same, (mirrors.value_below found member).1, Option.some.injEq] at node
    rwa [Prod.ext same node.symm] at goes
  · intro goes
    exact ⟨w, List.mem_filter.2 ⟨member, goes⟩, rfl⟩

theorem walk_below : s.walk v.1 = v.1 :: (cs.flatMap values).map Prod.fst := by
  rw [mirrors.walk_eq found, ids_eq, values_node, List.map_cons]

theorem filter_injected (top : s.parent? v.1 = none) :
    (s.walk v.1).filter s.isInjected = (leaving cs).map Prod.fst := by
  rw [mirrors.walk_below found, List.filter_cons, Links.isInjected_of_top top, if_neg Bool.false_ne_true,
    List.filter_map]
  exact congrArg _ (List.filter_congr fun w member => (mirrors.value_below found member).2.2)

theorem filter_kept (top : s.parent? v.1 = none) : (s.walk v.1).filter (fun m => !s.isInjected m) =
    v.1 :: ((cs.flatMap values).filter fun w => !goesBelow w).map Prod.fst := by
  rw [mirrors.walk_below found, List.filter_cons, Links.isInjected_of_top top, Bool.not_false, if_pos rfl,
    List.filter_map]
  refine congrArg _ (congrArg _ (List.filter_congr fun w member => ?_))
  rw [Function.comp_apply, (mirrors.value_below found member).2.2]

theorem thin_top : thin (fun w => ((leaving cs).map Prod.fst).contains w.1) (.node v cs) =
    splice false (.node v cs) := by
  have stays : ((leaving cs).map Prod.fst).contains v.1 = false := by
    rw [← Bool.not_eq_true, List.contains_iff_mem]
    intro goes
    obtain ⟨w, member, same⟩ := List.mem_map.1 goes
    obtain ⟨c, child, inside⟩ := List.mem_flatMap.1 (List.mem_of_mem_filter member)
    refine (mirrors.ids_below found).1 (List.mem_flatMap.2 ⟨c, child, ?_⟩)
    rw [← same, ids_eq]
    exact List.mem_map_of_mem inside
  rw [thin_node, stays, if_neg Bool.false_ne_true, splice_top]
  have inside := List.flatMap_congr fun c child => thin_congr fun w member =>
    mirrors.contains_below found (List.mem_flatMap.2 ⟨c, child, member⟩)
  rw [inside]

/-- Thinned by the nodes below the top that go, the forest is the same around the tree. -/
theorem exists_thinned (top : s.parent? v.1 = none) : ∃ before behind, (∀ u ∈ before, Lacks v.1 u) ∧
    thinAll (fun w => ((leaving cs).map Prod.fst).contains w.1) f.roots =
      before ++ .node v (cs.flatMap (thin goesBelow)) :: behind ∧
    substitute v.1 (splice false) f.roots = before ++ .node v (cs.flatMap (thin goesBelow)) :: behind := by
  obtain ⟨before, behind, roots, apart⟩ := mirrors.exists_apart found top
  have lacks : ∀ u ∈ before ++ behind, Lacks v.1 u := fun u other =>
    lacks_iff.2 fun inside => apart u other v.1 inside (topId_mem_ids (.node v cs))
  have stay : ∀ u ∈ before ++ behind, ∀ w ∈ values u, ((leaving cs).map Prod.fst).contains w.1 = false := by
    intro u other w member
    rw [← Bool.not_eq_true, List.contains_iff_mem]
    intro goes
    obtain ⟨x, inside, same⟩ := List.mem_map.1 goes
    refine apart u other w.1 (ids_eq u ▸ List.mem_map_of_mem member) ?_
    rw [ids_eq, values_node, ← same]
    exact List.mem_map_of_mem (List.mem_cons_of_mem v (List.mem_of_mem_filter inside))
  rw [List.forall_mem_append] at lacks stay
  refine ⟨before, behind, lacks.1, ?_, ?_⟩
  · rw [roots, thinAll_append, thinAll, thinAll_of_none stay.1, thinAll_of_none stay.2, mirrors.thin_top found,
      splice_top, List.singleton_append]
  · rw [roots, substitute_append, substitute_cons, substitute_of_lacks lacks.1, substitute_of_lacks lacks.2,
      replaced, if_pos (show topId (.node v cs) = v.1 from rfl), splice_top, List.singleton_append]

/-- Taking the injected elements out of a tree thins the forest by them. -/
theorem removeInjected_eq (top : s.parent? v.1 = none) : f.removeInjected v.1 =
    (⟨thinAll (fun w => ((leaving cs).map Prod.fst).contains w.1) f.roots ++
      (leaving cs).map fun w => .node w [], f.next⟩, (leaving cs).length) := by
  obtain ⟨_, _, _, thinned, spliced⟩ := mirrors.exists_thinned found top
  rw [mirrors.parent?_eq, Option.map_eq_none_iff] at top
  rw [Forest.removeInjected, found]
  dsimp only
  rw [top, Option.isSome_none, spliced, injected_top, thinned, List.length_map]

theorem find?_removeInjected (top : s.parent? v.1 = none) :
    (f.removeInjected v.1).1.find? v.1 = some (.node v (cs.flatMap (thin goesBelow))) := by
  obtain ⟨before, behind, lacks, thinned, _⟩ := mirrors.exists_thinned found top
  rw [mirrors.removeInjected_eq found top, thinned, List.append_assoc]
  exact find?_root (t := .node v (cs.flatMap (thin goesBelow))) rfl lacks

theorem textContent_removeInjected (top : s.parent? v.1 = none) :
    ((f.removeInjected v.1).1.html? v.1).map Tree.textContent = (f.html? v.1).map Tree.textContent := by
  have spliced : cs.flatMap (thin goesBelow) = NumberedTree.spliceAll cs := by
    rw [spliceAll_eq]
    exact List.flatMap_congr fun c _ => (splice_below c).symm
  rw [html?, html?, mirrors.find?_removeInjected found top, found, spliced, Option.map_some, Option.map_some,
    Option.map_some, Option.map_some, toHtml, toHtml, Tree.map, Tree.map, spliceAll_toHtml, Tree.textContent,
    Tree.textContent, Tree.collectText_node, Tree.collectText_node, Tree.splicedAll_eq,
    Tree.collectText_flatMap Tree.spliced fun t _ => Tree.collectText_spliced t]

/-- Along the links each node that goes leaves its children to its parent, and the forest follows. -/
theorem removeInjected (top : s.parent? v.1 = none) : ∃ after : Links,
    s.removeInjected v.1 = (after, .ok (leaving cs).length) ∧
    (∀ n, after.node? n = s.node? n) ∧ (f.removeInjected v.1).1.Mirrors after ∧
    ∀ c p, after.parent? c = some p ↔
      c ∉ (s.walk v.1).filter s.isInjected ∧ s.NearestKept (· ∈ (s.walk v.1).filter s.isInjected) c p := by
  have removed := mirrors.filter_injected found top
  have distinct : ((leaving cs).map Prod.fst).Nodup := by
    rw [← removed, mirrors.walk_eq found, ids_node]
    exact (List.nodup_cons.2 (mirrors.ids_below found)).filter _
  obtain ⟨fine, left, parents⟩ := mirrors.spliceAll distinct fun w member =>
    have ⟨node, child, _⟩ := mirrors.value_below found (List.mem_of_mem_filter member)
    ⟨node, child⟩
  refine ⟨_, ?_, Links.node?_spliceAll s ((leaving cs).map Prod.fst), ?_, by rwa [removed]⟩
  · rw [← removed] at fine ⊢
    rw [Links.removeInjected_eq fine, removed, List.length_map]
  · rwa [mirrors.removeInjected_eq found top]

/-- In a tree without injected elements there is nothing to take out. -/
theorem removeInjected_of_none (top : s.parent? v.1 = none) (nothing : leaving cs = []) :
    s.removeInjected v.1 = (s, .ok 0) ∧ f.removeInjected v.1 = (f, 0) := by
  constructor
  · rw [Links.removeInjected, mirrors.filter_injected found top, nothing]
    rfl
  · have same : thinAll (fun _ => false) f.roots ++ [] = f.roots := by
      rw [List.append_nil, thinAll_of_none fun _ _ _ _ => rfl]
    rw [mirrors.removeInjected_eq found top, nothing]
    exact congrArg (fun roots => (Forest.mk roots f.next, 0)) same

end Top

end Mirrors

end Forest

/-- Injected elements are taken out of the tree of a node without a parent as if all of them left at once.
The number told is how many of the nodes of the tree are injected. The others stay in document order, each
below the nearest node above it that was not injected, and each node still knows as its parent the node that
has it as a child. The text of the tree is the same, no injected element is left, and taking them out again
changes nothing. -/
theorem removeInjected_splices {f : Forest} {s : Links} {r : NodeId} (mirrors : f.Mirrors s)
    (known : r < s.nodes.length) (top : s.parent? r = none) : ∃ (g : Forest) (after : Links),
      s.removeInjected r = (after, .ok ((s.walk r).countP s.isInjected)) ∧
      f.removeInjected r = (g, (s.walk r).countP s.isInjected) ∧ g.Mirrors after ∧
      (f.find? r).map ids = some (s.walk r) ∧ (g.find? r).map ids = some (after.walk r) ∧
      after.walk r = (s.walk r).filter (fun c => !s.isInjected c) ∧
      (∀ n, after.node? n = s.node? n) ∧
      (∀ c ∈ after.walk r, ∀ p,
        after.parent? c = some p ↔ s.NearestKept (fun q => s.isInjected q = true) c p) ∧
      after.Linked ∧
      (g.html? r).map Tree.textContent = (f.html? r).map Tree.textContent ∧
      (∀ c ∈ after.walk r, after.isInjected c = false) ∧
      after.removeInjected r = (after, .ok 0) ∧ g.removeInjected r = (g, 0) := by
  obtain ⟨⟨v, cs⟩, found, number, _⟩ := mirrors.full.find?_row (mirrors.length ▸ known)
  change v.1 = r at number
  subst number
  obtain ⟨after, result, nodes, mirrored, parents⟩ := mirrors.removeInjected found top
  have there := mirrors.find?_removeInjected found top
  have count : (s.walk v.1).countP s.isInjected = (leaving cs).length := by
    rw [List.countP_eq_length_filter, mirrors.filter_injected found top, List.length_map]
  have counted : (f.removeInjected v.1).2 = (leaving cs).length := by
    rw [mirrors.removeInjected_eq found top]
  have stillTop : after.parent? v.1 = none := by
    rw [Option.eq_none_iff_forall_ne_some]
    intro p linked
    obtain ⟨q, old⟩ := ((parents _ p).1 linked).2.exists_parent
    rw [top] at old
    cases old
  have kept : after.walk v.1 = (s.walk v.1).filter fun c => !s.isInjected c := by
    rw [mirrored.walk_below there, mirrors.filter_kept found top, flatMap_values_thin]
  have left : (after.walk v.1).filter after.isInjected = [] := by
    rw [mirrored.filter_injected there stillTop, leaving_thin, List.map_nil]
  obtain ⟨again, forestAgain⟩ := mirrored.removeInjected_of_none there stillTop (leaving_thin cs)
  refine ⟨(f.removeInjected v.1).1, after, by rw [result, count], by rw [count, ← counted], mirrored,
    by rw [found, Option.map_some, mirrors.walk_eq found], by rw [there, Option.map_some, mirrored.walk_eq there],
    kept, nodes, fun c member p => ?_, mirrored.shown.linked, mirrors.textContent_removeInjected found top,
    fun c member => ?_, again, forestAgain⟩
  · rw [kept, List.mem_filter, Bool.not_eq_true'] at member
    have stays : c ∉ (s.walk v.1).filter s.isInjected := fun gone =>
      Bool.false_ne_true (member.2.symm.trans (List.mem_filter.1 gone).2)
    rw [parents, and_iff_right stays, mirrors.nearestKept_iff found top member.1]
  · exact Bool.not_eq_true _ ▸ List.filter_eq_nil_iff.1 left c member

/-- An injected element below another one leaves with it, and both leave their texts to the document. -/
theorem removeInjected_splices_nested : ∃ (f : Forest) (s : Links), f.Mirrors s ∧ 0 < s.nodes.length ∧
    s.parent? 0 = none ∧ s.walk 0 = [0, 1, 2, 3, 4] ∧ s.parent? 3 = some 2 ∧ s.parent? 2 = some 1 ∧
    ∃ after : Links, s.removeInjected 0 = (after, .ok 2) ∧ after.walk 0 = [0, 3, 4] ∧
      after.parent? 3 = some 0 ∧ after.parent? 4 = some 0 ∧ after.removeInjected 0 = (after, .ok 0) := by
  have nodes := (((((Reached.planted []).created ⟨.document, none⟩).created ⟨.element "html" [], none⟩).created
    ⟨.element "body" [], none⟩).created ⟨.text ['a'], none⟩).created ⟨.text ['b'], none⟩
  have first := nodes.edited (e := .append 2 3)
    ⟨by decide, by decide, Links.not_isAbove_of_top (by decide) (by decide)⟩
  have second := first.edited (e := .append 1 2)
    ⟨by decide, by decide, Links.not_isAbove_of_top (by decide) (by decide)⟩
  have third := second.edited (e := .append 1 4)
    ⟨by decide, by decide, Links.not_isAbove_of_top (by decide) (by decide)⟩
  have whole := third.edited (e := .append 0 1)
    ⟨by decide, by decide, Links.not_isAbove_of_top (by decide) (by decide)⟩
  obtain ⟨_, after, result, _, _, _, _, kept, _, parents, _, _, _, again, _⟩ :=
    removeInjected_splices whole.mirrors (r := 0) (by decide) (by decide)
  have walked := kept.trans (c := [0, 3, 4]) (by decide)
  refine ⟨_, _, whole.mirrors, by decide, by decide, by decide, by decide, by decide, after, result, walked, ?_, ?_,
    again⟩
  · refine (parents 3 (walked ▸ by decide) 0).2 (.above (q := 2) (by decide) (by decide) ?_)
    exact .above (q := 1) (by decide) (by decide) (.parent (by decide) (by decide))
  · refine (parents 4 (walked ▸ by decide) 0).2 (.above (q := 1) (by decide) (by decide) ?_)
    exact .parent (by decide) (by decide)

end LocatedHtml
