import LocatedHtml.Forest.LinkedCopy
import LocatedHtml.Proofs.Forest.LinkedForest

/-!
Copying a tree node by node along its links. The stack holds trees in document order, so the copies get the
numbers that the copied tree has when it is planted.
-/

namespace LocatedHtml

open NumberedTree

namespace Cloning

theorem run_add (a b : Nat) (c : Cloning) : run (a + b) c = run b (run a c) := by
  induction a generalizing c with
  | zero => rw [Nat.zero_add, run]
  | succ a ih => rw [Nat.succ_add, run, run, ih]

theorem run_done {s : Links} {memo : Memo} (steps : Nat) : run steps ⟨s, memo, []⟩ = ⟨s, memo, []⟩ := by
  induction steps with
  | zero => rfl
  | succ steps ih => exact ih

variable {s : Links} {n p : NodeId} {v w : Node} {ks kids : List NodeId} {rows others : List Row}

/-- A step copies a node without its children and puts the copy last below the copy of its parent. -/
theorem step_below (memo : Memo) (ahead : List (NodeId × Option NodeId))
    (shown : s.Shows (⟨p, w, ks⟩ :: others)) (member : ⟨n, v, kids⟩ ∈ others) :
    ∃ s', step ⟨s, memo, (n, some p) :: ahead⟩ = ⟨s', (n, s.nodes.length) :: memo,
        kids.map (fun kid => (kid, some s.nodes.length)) ++ ahead⟩ ∧
      s'.Shows (⟨s.nodes.length, v, []⟩ :: ⟨p, w, ks ++ [s.nodes.length]⟩ :: others) := by
  have node : s.node? n = some v := shown.node? _ (List.mem_cons_of_mem _ member)
  have children : s.children n = kids := shown.children _ (List.mem_cons_of_mem _ member)
  have created := (shown.create v).perm (.swap _ _ _)
  have free : (s.create v).parent? s.nodes.length = none := by
    rw [Links.parent?_create]
    exact Option.eq_none_iff_forall_ne_some.2 fun p linked => Nat.lt_irrefl _ (Links.lt_of_parent? linked)
  have last : (s.create v).children p = ks := created.children _ List.mem_cons_self
  have known : s.nodes.length < (s.create v).nodes.length := by simp [Links.create]
  refine ⟨_, ?_, (created.attach known free (List.perm_append_singleton _ ks)).perm (.swap _ _ _)⟩
  simp only [step, node, children, last]

/-- Nodes in document order with their copies, which have the numbers from a base on. -/
def pairs (ids : List NodeId) (base : NodeId) : Memo := ids.zip (List.range' base ids.length)

theorem pairs_cons (n : NodeId) (ids : List NodeId) (base : NodeId) :
    pairs (n :: ids) base = (n, base) :: pairs ids (base + 1) := by
  rw [pairs, List.length_cons, List.range'_succ, List.zip_cons_cons, pairs]

theorem pairs_append (ids more : List NodeId) (base : NodeId) :
    pairs (ids ++ more) base = pairs ids base ++ pairs more (base + ids.length) := by
  rw [pairs, List.length_append, ← List.range'_append_1, List.zip_append (by simp), pairs, pairs]

theorem length_rows_number (t : NumberedTree) (base : NodeId) :
    (NumberedTree.rows (t.toHtml.number base)).length = t.size := by
  rw [← List.length_map Row.number, NumberedTree.numbers_rows, ids_number, List.length_range', toHtml,
    Tree.size_map]

mutual

/-- To copy a tree takes a step for each of its nodes. -/
theorem run_tree (t : NumberedTree) {s : Links} (memo : Memo) (ahead : List (NodeId × Option NodeId))
    {p : NodeId} {w : Node} {ks : List NodeId} {others : List Row}
    (shown : s.Shows (⟨p, w, ks⟩ :: others)) (inside : ∀ r ∈ t.rows, r ∈ others) :
    ∃ s', run t.size ⟨s, memo, (t.topId, some p) :: ahead⟩ =
        ⟨s', (pairs t.ids s.nodes.length).reverse ++ memo, ahead⟩ ∧
      s'.Shows (⟨p, w, ks ++ [s.nodes.length]⟩ ::
        (NumberedTree.rows (t.toHtml.number s.nodes.length) ++ others)) := by
  cases t with
  | node v cs =>
    rw [rows_node, List.forall_mem_cons] at inside
    -- the step for the top puts its children on the stack in front of what is ahead
    obtain ⟨s₁, stepped, shown₁⟩ := step_below memo ahead shown inside.1
    have length : s₁.nodes.length = s.nodes.length + 1 := by
      rw [← shown₁.length_eq, ← shown.length_eq]
      rfl
    obtain ⟨s₂, ran, shown₂⟩ := run_trees cs ((v.1, s.nodes.length) :: memo) ahead shown₁
      fun r member => List.mem_cons_of_mem _ (inside.2 r member)
    rw [length] at ran shown₂
    refine ⟨s₂, ?_, shown₂.perm ?_⟩
    · change run (Tree.size (.node v cs)) ⟨s, memo, (v.1, some p) :: ahead⟩ = _
      rw [Tree.size, run, stepped, List.map_map]
      refine ran.trans ?_
      rw [ids_node, pairs_cons, List.reverse_cons, List.append_assoc, List.singleton_append]
    · rw [toHtml_node, Tree.number, rows_node, List.nil_append]
      exact (List.perm_middle.cons _).trans (.swap _ _ _)

theorem run_trees (ts : List NumberedTree) {s : Links} (memo : Memo) (ahead : List (NodeId × Option NodeId))
    {p : NodeId} {w : Node} {ks : List NodeId} {others : List Row}
    (shown : s.Shows (⟨p, w, ks⟩ :: others)) (inside : ∀ r ∈ ts.flatMap NumberedTree.rows, r ∈ others) :
    ∃ s', run (Tree.sizeAll ts) ⟨s, memo, ts.map (fun t => (t.topId, some p)) ++ ahead⟩ =
        ⟨s', (pairs (ts.flatMap ids) s.nodes.length).reverse ++ memo, ahead⟩ ∧
      s'.Shows (⟨p, w, ks ++ (Tree.numberAll s.nodes.length (ts.map toHtml)).map topId⟩ ::
        ((Tree.numberAll s.nodes.length (ts.map toHtml)).flatMap NumberedTree.rows ++ others)) := by
  cases ts with
  | nil => exact ⟨s, rfl, by simpa [Tree.numberAll] using shown⟩
  | cons t ts =>
    rw [List.flatMap_cons, List.forall_mem_append] at inside
    obtain ⟨s₁, ran₁, shown₁⟩ :=
      run_tree t memo (ts.map (fun t => (t.topId, some p)) ++ ahead) shown inside.1
    have length : s₁.nodes.length = s.nodes.length + t.size := by
      rw [← shown₁.length_eq, ← shown.length_eq, List.length_cons, List.length_append, length_rows_number,
        List.length_cons]
      omega
    obtain ⟨s₂, ran₂, shown₂⟩ := run_trees ts ((pairs t.ids s.nodes.length).reverse ++ memo) ahead shown₁
      fun r member => List.mem_append_right _ (inside.2 r member)
    rw [length] at ran₂ shown₂
    refine ⟨s₂, ?_, shown₂.perm ?_⟩
    · rw [Tree.sizeAll, run_add, List.map_cons, List.cons_append, ran₁, ran₂, List.flatMap_cons, pairs_append,
        List.reverse_append, List.append_assoc, length_ids]
    · rw [List.map_cons, Tree.numberAll, List.map_cons, topId_number, List.flatMap_cons,
        show t.toHtml.size = t.size from Tree.size_map _ t, List.append_assoc, List.append_assoc]
      exact (List.perm_append_comm_assoc _ _ _).cons _

end

/-- Of each node its copy is found, and of other nodes what was found before. -/
theorem lookup_pairs {ids : List NodeId} (distinct : ids.Nodup) (base : NodeId) (memo : Memo) (n : NodeId) :
    ((pairs ids base).reverse ++ memo).lookup n =
      if n ∈ ids then some (base + ids.idxOf n) else memo.lookup n := by
  induction ids generalizing base memo with
  | nil => rfl
  | cons k ids ih =>
    rw [List.nodup_cons] at distinct
    rw [pairs_cons, List.reverse_cons, List.append_assoc, List.singleton_append, ih distinct.2, List.lookup_cons]
    by_cases same : n = k
    · subst same
      simp [distinct.1]
    · simp [same, List.idxOf_cons_ne _ (Ne.symm same), beq_false_of_ne same, Nat.add_assoc, Nat.add_comm 1]

end Cloning

namespace Links

variable {s : Links} {t : NumberedTree} {rows : List Row} {n : NodeId}

/-- Copying a tree adds its rows with new numbers and tells for each node which copy it has. -/
theorem cloneTree_spec (shown : s.Shows rows) (inside : ∀ r ∈ t.rows, r ∈ rows) (small : t.size ≤ s.nodes.length)
    (memo : Memo) : ∃ s', s.cloneTree memo t.topId =
        (s', (Cloning.pairs t.ids s.nodes.length).reverse ++ memo) ∧
      s'.Shows (NumberedTree.rows (t.toHtml.number s.nodes.length) ++ rows) := by
  obtain ⟨v, cs⟩ := t
  rw [rows_node, List.forall_mem_cons] at inside
  have node : s.node? v.1 = some v.2 := shown.node? _ inside.1
  have children : s.children v.1 = cs.map topId := shown.children _ inside.1
  have created := shown.create v.2
  have length : (s.create v.2).nodes.length = s.nodes.length + 1 := by simp [create]
  have stepped : Cloning.step ⟨s, memo, [(v.1, none)]⟩ = ⟨s.create v.2, (v.1, s.nodes.length) :: memo,
      cs.map (fun c => (topId c, some s.nodes.length)) ++ []⟩ := by
    simp [Cloning.step, node, children, Function.comp_def]
  obtain ⟨s', ran, shown'⟩ := Cloning.run_trees cs ((v.1, s.nodes.length) :: memo) [] created inside.2
  rw [length] at ran shown'
  -- there are as many steps as nodes of all trees together; those left over change nothing
  obtain ⟨more, enough⟩ := Nat.exists_eq_add_of_le small
  have done : Cloning.run (Tree.sizeAll cs + 1 + more) ⟨s, memo, [(v.1, none)]⟩ =
      ⟨s', (Cloning.pairs (cs.flatMap ids) (s.nodes.length + 1)).reverse ++ (v.1, s.nodes.length) :: memo, []⟩ := by
    rw [Cloning.run_add, Cloning.run, stepped, ran, Cloning.run_done]
  rw [Tree.size] at enough
  rw [← enough] at done
  refine ⟨s', ?_, ?_⟩
  · rw [cloneTree, show topId (.node v cs) = v.1 from rfl, done, ids_node, Cloning.pairs_cons,
      List.reverse_cons, List.append_assoc, List.singleton_append]
  · rwa [toHtml_node, Tree.number, rows_node]

/-- Every node of a tree is as many steps from the top as there are nodes above it. -/
theorem exists_climb (linked : ∀ r ∈ t.rows, ∀ b ∈ r.children, s.parent? b = some r.number) (has : n ∈ ids t) :
    ∃ d < t.size, ∀ k, s.climb (d + k) n = s.climb k t.topId := by
  induction t using Tree.induction with
  | node v cs ih =>
    rw [ids_node, List.mem_cons] at has
    rw [rows_node, List.forall_mem_cons] at linked
    rcases has with rfl | has
    · exact ⟨0, Tree.size_pos _, fun k => by rw [Nat.zero_add]; rfl⟩
    · obtain ⟨c, child, has⟩ := List.mem_flatMap.1 has
      obtain ⟨d, small, climbed⟩ := ih c child
        (fun r member => linked.2 r (List.mem_flatMap.2 ⟨c, child, member⟩)) has
      have smaller : c.size < Tree.size (.node v cs) := Tree.size_lt_of_mem_children child
      refine ⟨d + 1, by omega, fun k => ?_⟩
      have up : s.parent? c.topId = some v.1 := linked.1 _ (List.mem_map_of_mem child)
      rw [Nat.add_assoc, Nat.add_comm 1 k, climbed, climb, up]
      rfl

theorem climb_top (free : s.parent? n = none) (k : Nat) : s.climb k n = n := by
  cases k with
  | zero => rfl
  | succ k => rw [climb, free]

end Links

/-- The way up from a node ends at the top of its tree. -/
theorem Forest.Mirrors.top_eq {f : Forest} {s : Links} {n : NodeId} {t : NumberedTree} (mirrors : f.Mirrors s)
    (root : f.rootOf? n = some t) :
    s.top n = t.topId ∧ (∀ r ∈ t.rows, r ∈ f.rows) ∧ t.size ≤ s.nodes.length := by
  obtain ⟨member, has⟩ := rootOf?_eq_some root
  have numbered := mirrors.full.numbered
  have inside : ∀ r ∈ t.rows, r ∈ f.rows := fun r below => List.mem_flatMap.2 ⟨t, member, below⟩
  have small : t.size ≤ s.nodes.length := by
    have known : ids t ⊆ List.range f.next := fun m below =>
      List.mem_range.2 (mirrors.full.mem_iff.1 (List.mem_flatMap.2 ⟨t, member, below⟩))
    have few := (List.subperm_of_subset (numbered.ids_nodup member) known).length_le
    rwa [length_ids, List.length_range, ← mirrors.length] at few
  obtain ⟨d, less, climbed⟩ := Links.exists_climb (s := s) (fun r below b child =>
    (mirrors.shown.parent? b r.number).2 ⟨r, inside r below, rfl, child⟩) has
  refine ⟨?_, inside, small⟩
  obtain ⟨k, enough⟩ := Nat.exists_eq_add_of_le (Nat.le_of_lt (Nat.lt_of_lt_of_le less small))
  have free : s.parent? t.topId = none := by
    rw [mirrors.parent?_eq, numbered.parent?_top member]
    rfl
  rw [Links.top, enough, climbed, Links.climb_top free]

end LocatedHtml
