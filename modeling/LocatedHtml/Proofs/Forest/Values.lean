import LocatedHtml.Forest.Edit
import LocatedHtml.Proofs.Numbering

/-!
What changes to a forest do to the values of its nodes: a change in one place keeps a property of all
values if what it puts there has it, and it does nothing where its place is not.
-/

namespace LocatedHtml

namespace Tree

variable {α : Type} {p q : α → Prop} {v : α} {t u : Tree α} {cs : List (Tree α)}

/-- `p` holds of the value of every node of a tree. -/
def All (p : α → Prop) (t : Tree α) : Prop := ∀ u ∈ t.subtrees, p u.value

theorem all_node : All p (.node v cs) ↔ p v ∧ ∀ c ∈ cs, c.All p := by
  constructor
  · intro all
    exact ⟨all _ (mem_subtrees_self _), fun c child u member =>
      all u (mem_subtrees_node.2 (.inr ⟨c, child, member⟩))⟩
  · rintro ⟨top, below⟩ u member
    rcases mem_subtrees_node.1 member with rfl | ⟨c, child, member⟩
    · exact top
    · exact below c child u member

namespace All

theorem top (all : t.All p) : p t.value := all t (mem_subtrees_self t)

theorem children (all : t.All p) : ∀ c ∈ t.children, c.All p := by
  cases t
  exact (all_node.1 all).2

theorem leaf (top : p v) : All p (.node v []) := all_node.2 ⟨top, List.forall_mem_nil _⟩

theorem imp (all : t.All p) (implies : ∀ v, p v → q v) : t.All q := fun u member =>
  implies _ (all u member)

theorem subtree (all : t.All p) (member : u ∈ t.subtrees) : u.All p := fun _ below =>
  all _ (mem_subtrees_trans below member)

end All

end Tree

namespace NumberedTree

open LocatedHtml.Tree (All)

variable {p : NodeId × Node → Prop} {n : NodeId} {change : NumberedTree → List NumberedTree}

/-- The number is not in the tree. -/
abbrev Lacks (n : NodeId) (t : NumberedTree) : Prop := t.All fun v => v.1 ≠ n

theorem lacks_iff {t : NumberedTree} : Lacks n t ↔ n ∉ ids t := by
  constructor
  · intro lacks member
    obtain ⟨u, inside, same⟩ := List.mem_map.1 member
    exact lacks u inside same
  · intro absent u member same
    exact absent (List.mem_map.2 ⟨u, member, same⟩)

theorem all_number (base : NodeId) (t : HtmlTree) :
    (t.number base).All fun v => base ≤ v.1 ∧ v.1 < base + t.size := by
  intro u member
  have numbered := List.mem_map_of_mem (f := topId) member
  change topId u ∈ ids (t.number base) at numbered
  rw [ids_number, List.mem_range'_1] at numbered
  exact numbered

/-- Below the top of a numbered tree the number of the top is not used again. -/
theorem children_number (base : NodeId) (t : HtmlTree) :
    ∀ c ∈ (t.number base).children, c.All fun v => base < v.1 ∧ v.1 < base + t.size := by
  intro c child u member
  have all := (all_number base t).children c child u member
  have distinct : (ids (t.number base)).Nodup := by
    rw [ids_number]
    exact List.nodup_range'
  cases t with
  | node v cs =>
    rw [Tree.number, ids_node, List.nodup_cons] at distinct
    have other : base ≠ u.value.1 := fun same => distinct.1 (List.mem_flatMap.2
      ⟨c, child, List.mem_map.2 ⟨u, member, same.symm⟩⟩)
    exact ⟨Nat.lt_of_le_of_ne all.1 other, all.2⟩

theorem topId_number (base : NodeId) (t : HtmlTree) : topId (t.number base) = base := by
  cases t
  rfl

/-- What takes the place of a tree among others. -/
def replaced (n : NodeId) (change : NumberedTree → List NumberedTree) (t : NumberedTree) :
    List NumberedTree :=
  if topId t = n then change t else [substituteBelow n change t]

theorem substitute_cons (t : NumberedTree) (ts : List NumberedTree) :
    substitute n change (t :: ts) = replaced n change t ++ substitute n change ts := rfl

theorem substitute_eq (ts : List NumberedTree) :
    substitute n change ts = ts.flatMap (replaced n change) := by
  induction ts with
  | nil => rfl
  | cons t ts ih => rw [substitute_cons, ih, List.flatMap_cons]

theorem spliceAll_eq (ts : List NumberedTree) : spliceAll ts = ts.flatMap (splice true) := by
  induction ts with
  | nil => rfl
  | cons t ts ih => rw [spliceAll, ih, List.flatMap_cons]

/-- Where a number is not, nothing is put in its place. -/
theorem replaced_of_lacks {t : NumberedTree} (lacks : Lacks n t) : replaced n change t = [t] := by
  induction t using Tree.induction with
  | node v cs ih =>
    have apart : topId (.node v cs) ≠ n := lacks.top
    have below := lacks.children
    rw [replaced, if_neg apart, substituteBelow, substitute_eq,
      List.flatMap_congr fun c child => ih c child (below c child), List.flatMap_singleton']

theorem substitute_of_lacks {ts : List NumberedTree} (lacks : ∀ t ∈ ts, Lacks n t) :
    substitute n change ts = ts := by
  rw [substitute_eq, List.flatMap_congr fun t member => replaced_of_lacks (lacks t member),
    List.flatMap_singleton']

theorem substitute_append (ts us : List NumberedTree) :
    substitute n change (ts ++ us) = substitute n change ts ++ substitute n change us := by
  rw [substitute_eq, substitute_eq, substitute_eq, List.flatMap_append]

theorem all_replaced {t : NumberedTree} (all : t.All p)
    (changed : ∀ t, t.All p → topId t = n → ∀ u ∈ change t, u.All p) :
    ∀ u ∈ replaced n change t, u.All p := by
  induction t using Tree.induction with
  | node v cs ih =>
    unfold replaced
    split
    · next here => exact changed _ all here
    · obtain ⟨top, below⟩ := Tree.all_node.1 all
      rw [List.forall_mem_singleton, substituteBelow, substitute_eq, Tree.all_node]
      refine ⟨top, fun u member => ?_⟩
      obtain ⟨c, child, member⟩ := List.mem_flatMap.1 member
      exact ih c child (below c child) u member

theorem all_substitute {ts : List NumberedTree} (all : ∀ t ∈ ts, t.All p)
    (changed : ∀ t, t.All p → topId t = n → ∀ u ∈ change t, u.All p) :
    ∀ u ∈ substitute n change ts, u.All p := by
  intro u member
  rw [substitute_eq] at member
  obtain ⟨t, inside, member⟩ := List.mem_flatMap.1 member
  exact all_replaced (all t inside) changed u member

theorem all_splice {hasParent : Bool} {t : NumberedTree} (all : t.All p) :
    ∀ u ∈ splice hasParent t, u.All p := by
  induction t using Tree.induction generalizing hasParent with
  | node v cs ih =>
    obtain ⟨top, below⟩ := Tree.all_node.1 all
    have inside : ∀ u ∈ spliceAll cs, u.All p := by
      intro u member
      rw [spliceAll_eq] at member
      obtain ⟨c, child, member⟩ := List.mem_flatMap.1 member
      exact ih c child (below c child) u member
    rw [splice]
    split
    · exact inside
    · rw [List.forall_mem_singleton, Tree.all_node]
      exact ⟨top, inside⟩

theorem all_injected {hasParent : Bool} {t : NumberedTree} (all : t.All p) :
    ∀ u ∈ injected hasParent t, u.All p := by
  intro u member
  obtain ⟨⟨depth, w⟩, visited, same⟩ := List.mem_filterMap.1 member
  dsimp only at same
  split at same
  · cases same
    exact .leaf (all w (List.mem_map_of_mem visited))
  · cases same

end NumberedTree

namespace Forest

open NumberedTree

variable {f : Forest} {n : NodeId}

theorem subtrees_eq (f : Forest) : f.subtrees = f.roots.flatMap Tree.subtrees := by
  rw [subtrees, Tree.walk_map, List.map_flatMap]
  simp only [Tree.walk_subtrees]

/-- Every node of a forest is the top of a tree or a child of one node. -/
theorem ids_perm (f : Forest) :
    (f.roots.flatMap ids).Perm (f.roots.map topId ++ f.subtrees.flatMap belowTop) := by
  have each : (f.roots.flatMap ids).Perm
      (f.roots.flatMap fun t => [topId t] ++ t.subtrees.flatMap belowTop) :=
    List.Perm.flatMap_left _ fun t _ => NumberedTree.ids_perm t
  rw [subtrees_eq, List.flatMap_assoc, List.map_eq_flatMap]
  exact each.trans (List.flatMap_append_perm _ _ _).symm

theorem find?_eq_some {t : NumberedTree} (found : f.find? n = some t) :
    topId t = n ∧ ∃ root ∈ f.roots, t ∈ root.subtrees := by
  have same : (topId t == n) = true := List.find?_some (p := fun t => topId t == n) found
  refine ⟨eq_of_beq same, ?_⟩
  have member := List.mem_of_find?_eq_some found
  rw [subtrees_eq] at member
  exact List.mem_flatMap.1 member

theorem find?_isSome {root : NumberedTree} (member : root ∈ f.roots) (has : n ∈ ids root) :
    ∃ t, f.find? n = some t := by
  obtain ⟨t, inside, same⟩ := List.mem_map.1 has
  rw [← Option.isSome_iff_exists, find?, List.find?_isSome, subtrees_eq]
  exact ⟨t, List.mem_flatMap.2 ⟨root, member, inside⟩, beq_iff_eq.2 same⟩

theorem find?_lacks {ts : List NumberedTree} (lacks : ∀ t ∈ ts, Lacks n t) :
    (ts.flatMap Tree.subtrees).find? (·.value.1 == n) = none := by
  rw [List.find?_eq_none]
  intro u member same
  obtain ⟨t, inside, member⟩ := List.mem_flatMap.1 member
  exact lacks t inside u member (eq_of_beq same)

theorem find?_root {before after : List NumberedTree} {t : NumberedTree}
    (roots : f.roots = before ++ t :: after) (apart : ∀ u ∈ before, Lacks (topId t) u) :
    f.find? (topId t) = some t := by
  have first : t.subtrees.find? (·.value.1 == topId t) = some t := by
    cases t with
    | node v cs =>
      rw [Tree.subtrees_node, List.find?_cons_of_pos]
      exact beq_self_eq_true v.1
  rw [find?, subtrees_eq, roots, List.flatMap_append, List.flatMap_cons, List.find?_append,
    find?_lacks apart, Option.none_or, List.find?_append, first, Option.some_or]

end Forest

end LocatedHtml
