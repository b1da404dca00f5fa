import LocatedHtml.Forest.Basic
import LocatedHtml.Proofs.Tree
import Mathlib.Data.List.Nodup
import Mathlib.Data.List.Perm.Basic

/-!
The numbers of a planted tree: every node has one of its own, so a number leads to one node, and to one
parent, which has it among its children once.
-/

namespace LocatedHtml

namespace Tree

variable {α : Type}

theorem mapAll_eq {β : Type} (f : α → β) (ts : List (Tree α)) : mapAll f ts = ts.map (Tree.map f) := by
  induction ts with
  | nil => rfl
  | cons t ts ih => rw [mapAll, ih, List.map_cons]

theorem subtrees_map {β : Type} (f : α → β) (t : Tree α) :
    (t.map f).subtrees = t.subtrees.map (Tree.map f) := by
  induction t using Tree.induction with
  | node v cs ih =>
    rw [subtrees_node, List.map_cons, List.map_flatMap, ← List.flatMap_congr ih, map, mapAll_eq,
      subtrees_node, List.flatMap_map]

theorem size_map {β : Type} (f : α → β) (t : Tree α) : (t.map f).size = t.size := by
  refine @Tree.rec _ (fun t => (t.map f).size = t.size) (fun ts => sizeAll (mapAll f ts) = sizeAll ts) ?_ ?_ ?_ t
  · intro v cs ih
    rw [map, size, size, ih]
  · rfl
  · intro t ts first rest
    rw [mapAll, sizeAll, sizeAll, first, rest]

theorem map_number (n : Nat) (t : Tree α) : (t.number n).map Prod.snd = t := by
  refine @Tree.rec _ (fun t => ∀ n, (t.number n).map Prod.snd = t)
    (fun ts => ∀ n, mapAll Prod.snd (numberAll n ts) = ts) ?_ ?_ ?_ t n
  · intro v cs ih n
    rw [number, map, ih]
  · intro n
    rfl
  · intro t ts first rest n
    rw [numberAll, mapAll, first, rest]

end Tree

namespace NumberedTree

theorem ids_node (v : NodeId × Node) (cs : List NumberedTree) :
    ids (.node v cs) = v.1 :: cs.flatMap ids := by
  unfold ids
  rw [Tree.subtrees_node, List.map_cons, List.map_flatMap]
  rfl

/-- A tree that is numbered from `n` on uses the numbers that follow, in document order. -/
theorem ids_number (n : Nat) (t : HtmlTree) : ids (t.number n) = List.range' n t.size := by
  refine @Tree.rec _ (fun t => ∀ n, ids (t.number n) = List.range' n t.size)
    (fun ts => ∀ n, (Tree.numberAll n ts).flatMap ids = List.range' n (Tree.sizeAll ts))
    ?_ ?_ ?_ t n
  · intro v cs ih n
    rw [Tree.number, ids_node, ih, Tree.size, List.range'_succ]
  · intro n
    rfl
  · intro t ts first rest n
    rw [Tree.numberAll, List.flatMap_cons, first, rest, Tree.sizeAll, ← List.range'_append_1]

theorem toHtml_node (v : NodeId × Node) (cs : List NumberedTree) :
    toHtml (.node v cs) = .node v.2 (cs.map toHtml) := by
  rw [toHtml, Tree.map, Tree.mapAll_eq]
  rfl

theorem toHtml_eq (t : NumberedTree) : t.toHtml = .node t.value.2 (t.children.map toHtml) := by
  cases t
  exact toHtml_node _ _

theorem length_ids (t : NumberedTree) : (ids t).length = t.size := by
  refine @Tree.rec _ (fun t => (ids t).length = t.size)
    (fun ts => (ts.flatMap ids).length = Tree.sizeAll ts) ?_ ?_ ?_ t
  · intro v cs ih
    rw [ids_node, List.length_cons, ih, Tree.size]
  · rfl
  · intro t ts first rest
    rw [List.flatMap_cons, List.length_append, first, rest, Tree.sizeAll]

theorem topId_mem_ids (t : NumberedTree) : t.topId ∈ ids t :=
  List.mem_map_of_mem (Tree.mem_subtrees_self t)

theorem idxOf_topId (t : NumberedTree) : (ids t).idxOf t.topId = 0 := by
  cases t
  rw [ids_node]
  exact List.idxOf_cons_self

/-- A tree is its numbers in document order and what is at them. -/
theorem eq_of_ids {t u : NumberedTree} (html : t.toHtml = u.toHtml) (same : ids t = ids u) : t = u := by
  induction t using Tree.induction generalizing u with
  | node v cs ih =>
    obtain ⟨w, ds⟩ := u
    rw [toHtml_node, toHtml_node] at html
    rw [ids_node, ids_node] at same
    injection html with content children
    injection same with number below
    have inside : cs = ds := by
      clear content number
      induction cs generalizing ds with
      | nil =>
        rw [List.map_nil] at children
        exact (List.map_eq_nil_iff.1 children.symm).symm
      | cons c cs rest =>
        cases ds with
        | nil => cases children
        | cons d ds =>
          rw [List.map_cons, List.map_cons] at children
          injection children with first others
          rw [List.flatMap_cons, List.flatMap_cons] at below
          have length : (ids c).length = (ids d).length := by
            rw [length_ids, length_ids, ← Tree.size_map Prod.snd c, ← Tree.size_map Prod.snd d]
            exact congrArg Tree.size first
          obtain ⟨here, there⟩ := List.append_inj below length
          rw [ih c List.mem_cons_self first here,
            rest (fun x member => ih x (List.mem_cons_of_mem c member)) ds others there]
    rw [inside, show v = w from Prod.ext number content]

theorem ids_map (g : NodeId → NodeId) (t : NumberedTree) : ids (t.map (Prod.map g id)) = (ids t).map g := by
  induction t using Tree.induction with
  | node v cs ih =>
    rw [Tree.map, Tree.mapAll_eq, ids_node, ids_node, List.flatMap_map, List.map_cons, List.map_flatMap,
      List.flatMap_congr ih]
    rfl

theorem toHtml_map (g : NodeId → NodeId) (t : NumberedTree) : toHtml (t.map (Prod.map g id)) = toHtml t := by
  induction t using Tree.induction with
  | node v cs ih =>
    have inside : cs.map (toHtml ∘ Tree.map (Prod.map g id)) = cs.map toHtml := List.map_congr_left ih
    rw [Tree.map, Tree.mapAll_eq, toHtml_node, toHtml_node, List.map_map, inside]
    rfl

/-- Numbering a tree anew gives each node its place, counted from the base. -/
theorem number_toHtml {t : NumberedTree} (distinct : (ids t).Nodup) (base : NodeId) :
    t.toHtml.number base = t.map (Prod.map (fun n => base + (ids t).idxOf n) id) := by
  apply eq_of_ids
  · rw [toHtml_map]
    exact Tree.map_number base t.toHtml
  · rw [ids_number, ids_map]
    apply List.ext_getElem
    · rw [List.length_range', List.length_map, length_ids]
      exact Tree.size_map Prod.snd t
    · intro i _ bound
      rw [List.length_map] at bound
      rw [List.getElem_range', List.getElem_map, distinct.idxOf_getElem, Nat.one_mul]

/-- The numbers of the children of a node. -/
def belowTop (t : NumberedTree) : List NodeId := t.children.map topId

/-- Every node but the top is a child of one node of the tree. -/
theorem ids_perm (t : NumberedTree) : t.ids.Perm (t.topId :: t.subtrees.flatMap belowTop) := by
  induction t using Tree.induction with
  | node v cs ih =>
    rw [ids_node, Tree.subtrees_node, List.flatMap_cons, List.flatMap_assoc]
    apply List.Perm.cons
    have each : (cs.flatMap ids).Perm
        (cs.flatMap fun c => [topId c] ++ c.subtrees.flatMap belowTop) := List.Perm.flatMap_left cs ih
    have apart := List.flatMap_append_perm cs (fun c => [topId c]) fun c => c.subtrees.flatMap belowTop
    rw [← List.map_eq_flatMap] at apart
    exact each.trans apart.symm

end NumberedTree

/-- Among lists without a common element one that has the element is the one that is found. -/
theorem find?_contains {α : Type} {f : α → List NodeId} {l : List α} {a : α} {n : NodeId}
    (nodup : (l.flatMap f).Nodup) (member : a ∈ l) (has : n ∈ f a) :
    l.find? (fun b => (f b).contains n) = some a := by
  induction l with
  | nil => cases member
  | cons b l ih =>
    rw [List.flatMap_cons, List.nodup_append'] at nodup
    rcases List.mem_cons.1 member with rfl | member
    · rw [List.find?_cons_of_pos]
      simpa using has
    · have other : n ∉ f b := by
        intro both
        exact nodup.2.2 both (List.mem_flatMap.2 ⟨a, member, has⟩)
      rw [List.find?_cons_of_neg (by simpa using other)]
      exact ih nodup.2.1 member

namespace Forest

open NumberedTree

variable {f : Forest} {t c : NumberedTree}

/-- Where numbers are used once, the number of a node leads to the node. -/
theorem find?_eq (distinct : (f.subtrees.map topId).Nodup) (member : t ∈ f.subtrees) :
    f.find? t.topId = some t := by
  have nodup : (f.subtrees.flatMap fun u => [topId u]).Nodup := by
    rwa [← List.map_eq_flatMap]
  have found := find?_contains nodup member (List.mem_singleton_self (topId t))
  rw [find?, ← found]
  congr 1
  funext u
  rw [Bool.eq_iff_iff, beq_iff_eq, List.contains_iff_mem, List.mem_singleton]
  exact eq_comm

theorem parent?_eq (f : Forest) (n : NodeId) :
    f.parent? n = f.subtrees.find? fun t => (belowTop t).contains n := by
  unfold parent?
  congr 1
  funext t
  rw [Bool.eq_iff_iff, List.contains_iff_mem, belowTop, List.mem_map, List.any_eq_true]
  simp only [beq_iff_eq, topId]

/-- Where no node is a child twice, the parent of a child is the node that it is a child of. -/
theorem parent?_of_child (distinct : (f.subtrees.flatMap belowTop).Nodup) (member : t ∈ f.subtrees)
    (child : c ∈ t.children) : f.parent? c.topId = some t := by
  rw [parent?_eq]
  exact find?_contains distinct member (List.mem_map_of_mem child)

variable (tree : HtmlTree)

theorem plant_nodup : (NumberedTree.ids (tree.number 0)).Nodup := by
  rw [ids_number]
  exact List.nodup_range'

/-- In a planted tree the number of a node leads to the node. -/
theorem find?_plant {t : NumberedTree} (member : t ∈ (plant {} tree).subtrees) :
    (plant {} tree).find? t.topId = some t :=
  find?_eq (plant_nodup tree) member

theorem belowTop_nodup : (0 :: (plant {} tree).subtrees.flatMap belowTop).Nodup := by
  have top : topId (tree.number 0) = 0 := by
    cases tree
    rfl
  have nodup := (ids_perm (tree.number 0)).nodup_iff.1 (plant_nodup tree)
  rwa [top] at nodup

/-- In a planted tree the parent of a child is the node that it is a child of. -/
theorem parent?_plant {t c : NumberedTree} (member : t ∈ (plant {} tree).subtrees)
    (child : c ∈ t.children) : (plant {} tree).parent? c.topId = some t :=
  parent?_of_child (belowTop_nodup tree).of_cons member child

theorem parent?_top : (plant {} tree).parent? 0 = none := by
  rw [parent?_eq, List.find?_eq_none]
  intro t member below
  rw [List.contains_iff_mem] at below
  have apart := (List.nodup_cons.1 (belowTop_nodup tree)).1
  exact apart (List.mem_flatMap.2 ⟨t, member, below⟩)

/-- In a planted tree a child stands once among the children of its parent. -/
theorem count_childIds_plant {t c : NumberedTree} (member : t ∈ (plant {} tree).subtrees)
    (child : c ∈ t.children) : ((plant {} tree).childIds t.topId).count c.topId = 1 := by
  have nodup := (List.nodup_flatMap.1 (belowTop_nodup tree).of_cons).1 t member
  rw [childIds, find?_plant tree member]
  exact List.count_eq_one_of_mem nodup (List.mem_map_of_mem child)

end Forest

end LocatedHtml
