import LocatedHtml.Proofs.Forest.LinkedCopies
import LocatedHtml.Proofs.LinkedEdits

/-!
Copying several nodes together: every tree that has one of them is copied once, and the copies differ from
the trees in the numbers alone.
-/

namespace LocatedHtml

open NumberedTree

namespace Tree

theorem map_congr {α β : Type} {g h : α → β} {t : Tree α} (same : ∀ u ∈ t.subtrees, g u.value = h u.value) :
    t.map g = t.map h := by
  induction t using Tree.induction with
  | node v cs ih =>
    have top := same _ (mem_subtrees_self _)
    have below : cs.map (Tree.map g) = cs.map (Tree.map h) := List.map_congr_left fun c child =>
      ih c child fun u member => same u (mem_subtrees_node.2 (.inr ⟨c, child, member⟩))
    rw [map, map, mapAll_eq, mapAll_eq, below, show g v = h v from top]

end Tree

namespace NumberedTree

/-- The tree with other numbers. -/
def renumber (clone : NodeId → NodeId) (t : NumberedTree) : NumberedTree := t.map (Prod.map clone id)

variable {clone : NodeId → NodeId} {t u c : NumberedTree}

theorem topId_renumber (clone : NodeId → NodeId) (t : NumberedTree) :
    (t.renumber clone).topId = clone t.topId := by
  cases t
  rfl

theorem ids_renumber (t : NumberedTree) : (t.renumber clone).ids = t.ids.map clone := ids_map clone t

theorem renumber_subtree (below : u ∈ t.subtrees) : renumber clone u ∈ (t.renumber clone).subtrees := by
  rw [renumber, Tree.subtrees_map]
  exact List.mem_map_of_mem below

theorem renumber_child (child : c ∈ u.children) : renumber clone c ∈ (u.renumber clone).children := by
  cases u
  rw [renumber, Tree.map, Tree.mapAll_eq]
  exact List.mem_map_of_mem child

end NumberedTree

variable {f g : Forest} {c d : Copying} {n m : NodeId} {ns ms : List NodeId} {t : NumberedTree}

namespace Forest

/-- A node that is in a tree with one of the nodes. -/
def Touched (f : Forest) (ns : List NodeId) (m : NodeId) : Prop :=
  ∃ n ∈ ns, ∃ t, f.rootOf? n = some t ∧ m ∈ ids t

end Forest

namespace Copying

/-- Copies of trees of a forest whose nodes can be told apart, and no two in one place. -/
structure Apart (f : Forest) (c : Copying) : Prop extends CopiesOf f c where
  numbered : c.forest.Numbered
  distinct : ∀ {r r' base}, c.copied.lookup r = some base → c.copied.lookup r' = some base → r = r'

theorem apart_initial (numbered : f.Numbered) : Apart f ⟨f, []⟩ where
  toCopiesOf := copiesOf_initial f
  numbered := numbered
  distinct none := by cases none

theorem Apart.lt (apart : Apart f c) {r base : NodeId} (copied : c.copied.lookup r = some base) :
    base < c.forest.next := by
  obtain ⟨t, _, _, place⟩ := apart.copied copied
  exact apart.numbered.bounded.lt_of_rootOf? place

theorem Apart.copy (apart : Apart f c) (numbered : f.Numbered) (root : f.rootOf? n = some t) :
    Apart f (c.copy n).1 ∧ Leads f (c.copy n).1 n (c.copy n).2 := by
  obtain ⟨copies, leads⟩ := apart.toCopiesOf.copy numbered root
  suffices (c.copy n).1.forest.Numbered ∧ ∀ {r r' base}, (c.copy n).1.copied.lookup r = some base →
      (c.copy n).1.copied.lookup r' = some base → r = r' from ⟨⟨copies, this.1, this.2⟩, leads⟩
  unfold Copying.copy
  rw [apart.grown.rootOf?_eq root]
  dsimp only
  split
  · exact ⟨apart.numbered, apart.distinct⟩
  · refine ⟨apart.numbered.plant _, fun first second => ?_⟩
    rcases lookup_copied first with ⟨rfl, rfl⟩ | first <;> rcases lookup_copied second with ⟨rfl, same⟩ | second
    · rfl
    · exact absurd (apart.lt second) (Nat.lt_irrefl _)
    · subst same
      exact absurd (apart.lt first) (Nat.lt_irrefl _)
    · exact apart.distinct first second

/-- The copy of a node. -/
def cloneOf (f : Forest) (c : Copying) (n : NodeId) : NodeId :=
  match f.rootOf? n with
  | some t => (c.copied.lookup t.topId).getD 0 + (ids t).idxOf n
  | none => n

theorem Leads.eq_cloneOf (leads : Leads f c n m) : m = cloneOf f c n := by
  obtain ⟨t, base, root, copied, rfl⟩ := leads
  simp [cloneOf, root, copied]

/-- After all nodes have been copied, what has been copied leads from each to its copy. -/
theorem Apart.copyAll (apart : Apart f c) (numbered : f.Numbered)
    (known : ∀ n ∈ ns, ∃ t, f.rootOf? n = some t) :
    Apart f (c.copyAll ns).1 ∧ Later c (c.copyAll ns).1 ∧
      (∀ n ∈ ns, ∃ m, Leads f (c.copyAll ns).1 n m) ∧
      (c.copyAll ns).2 = ns.map (cloneOf f (c.copyAll ns).1) := by
  induction ns generalizing c with
  | nil => exact ⟨apart, .refl c, List.forall_mem_nil _, rfl⟩
  | cons n ns ih =>
    rw [List.forall_mem_cons] at known
    obtain ⟨⟨t, root⟩, others⟩ := known
    obtain ⟨first, leads⟩ := apart.copy numbered root
    obtain ⟨rest, later, led, clones⟩ := ih first others
    have leads := leads.later later
    refine ⟨rest, (later_copy c n).trans later, ?_, ?_⟩
    · rw [List.forall_mem_cons]
      exact ⟨⟨_, leads⟩, led⟩
    · rw [Copying.copyAll, List.map_cons]
      exact congrArg₂ List.cons leads.eq_cloneOf clones

variable {base : NodeId}

/-- The copy of a tree is the tree with the copies of its nodes. -/
theorem Apart.rootOf?_base (apart : Apart f c) (numbered : f.Numbered) (member : t ∈ f.roots)
    (copied : c.copied.lookup t.topId = some base) :
    c.forest.rootOf? base = some (t.renumber (cloneOf f c)) := by
  obtain ⟨u, root, _, place⟩ := apart.copied copied
  have top := numbered.rootOf?_eq member (topId_mem_ids t)
  rw [top, Option.some.injEq] at root
  subst root
  rw [place, number_toHtml (numbered.ids_nodup member), Option.some.injEq]
  apply Tree.map_congr
  intro u below
  have here : f.rootOf? u.value.1 = some t := numbered.rootOf?_eq member (List.mem_map_of_mem below)
  simp [Prod.map, cloneOf, here, copied]

/-- A tree and its copy, node for node. -/
theorem Apart.node (apart : Apart f c) (numbered : f.Numbered) (member : t ∈ f.roots)
    (copied : c.copied.lookup t.topId = some base) (has : m ∈ ids t) :
    c.forest.rootOf? (cloneOf f c m) = some (t.renumber (cloneOf f c)) ∧
    c.forest.find? (cloneOf f c m) = (f.find? m).map (renumber (cloneOf f c)) ∧
    c.forest.parent? (cloneOf f c m) = (f.parent? m).map (renumber (cloneOf f c)) := by
  have root : t.renumber (cloneOf f c) ∈ c.forest.roots :=
    (Forest.rootOf?_eq_some (apart.rootOf?_base numbered member copied)).1
  have inside {u : NumberedTree} (below : u ∈ t.subtrees) : u.renumber (cloneOf f c) ∈ c.forest.subtrees := by
    rw [Forest.subtrees_eq]
    exact List.mem_flatMap.2 ⟨_, root, renumber_subtree below⟩
  have inside' {u : NumberedTree} (below : u ∈ t.subtrees) : u ∈ f.subtrees := by
    rw [Forest.subtrees_eq]
    exact List.mem_flatMap.2 ⟨t, member, below⟩
  refine ⟨apart.numbered.rootOf?_eq root ?_, ?_, ?_⟩
  · rw [ids_renumber]
    exact List.mem_map_of_mem has
  · obtain ⟨u, below, rfl⟩ := List.mem_map.1 has
    rw [Forest.find?_eq numbered.distinct (inside' below), ← topId_renumber (cloneOf f c) u,
      Forest.find?_eq apart.numbered.distinct (inside below)]
    rfl
  · rcases List.mem_cons.1 ((ids_perm t).mem_iff.1 has) with rfl | has
    · rw [numbered.parent?_top member, ← topId_renumber (cloneOf f c) t, apart.numbered.parent?_top root]
      rfl
    · obtain ⟨u, below, has⟩ := List.mem_flatMap.1 has
      obtain ⟨v, child, rfl⟩ := List.mem_map.1 has
      rw [Forest.parent?_of_child numbered.below_nodup (inside' below) child, ← topId_renumber (cloneOf f c) v,
        Forest.parent?_of_child apart.numbered.below_nodup (inside below) (renumber_child child)]
      rfl

/-- The links have been copied as far as the forest has, and each node is found with its copy. -/
structure Follows (f : Forest) (c : Copying) (s : Links) (memo : Memo) : Prop where
  mirrors : c.forest.Mirrors s
  memo : ∀ {n t}, f.rootOf? n = some t →
    memo.lookup n = (c.copied.lookup t.topId).map (· + (ids t).idxOf n)

variable {s : Links} {memo : Memo}

theorem Follows.copy (follows : Follows f c s memo) (apart : Apart f c) (numbered : f.Numbered)
    (root : f.rootOf? n = some t) :
    ∃ s' memo', s.copy memo n = ((s', memo'), some (c.copy n).2) ∧ Follows f (c.copy n).1 s' memo' := by
  obtain ⟨member, has⟩ := Forest.rootOf?_eq_some root
  have here := apart.grown.rootOf?_eq root
  obtain ⟨top, inside, small⟩ := follows.mirrors.top_eq here
  have memo_top := follows.memo (numbered.rootOf?_eq member (topId_mem_ids t))
  have memo_node := follows.memo root
  change memo.lookup t.topId = (c.copied.lookup t.value.1).map _ at memo_top
  change memo.lookup n = (c.copied.lookup t.value.1).map _ at memo_node
  rw [Links.copy, Copying.copy, top, memo_top, here]
  dsimp only
  cases copied : c.copied.lookup t.value.1 with
  | some base =>
    rw [copied] at memo_node
    refine ⟨s, memo, ?_, follows⟩
    simp [memo_node]
  | none =>
    -- the copy along the links gets the numbers that the tree gets when it is planted
    obtain ⟨s', cloned, shown⟩ := Links.cloneTree_spec follows.mirrors.shown inside small memo
    have length := follows.mirrors.length
    rw [length] at cloned shown
    have found := Cloning.lookup_pairs (numbered.ids_nodup member) c.forest.next memo
    refine ⟨s', (Cloning.pairs t.ids c.forest.next).reverse ++ memo, ?_, ⟨?_, ?_⟩, fun {k u} place => ?_⟩
    · simp [cloned, found, has]
    · rw [← shown.length_eq, List.length_append, Cloning.length_rows_number, follows.mirrors.shown.length_eq,
        length, Forest.plant, show t.toHtml.size = t.size from Tree.size_map _ t, Nat.add_comm]
    · refine shown.perm ?_
      rw [Forest.plant_rows]
      exact List.perm_append_comm
    · obtain ⟨root', below⟩ := Forest.rootOf?_eq_some place
      rw [found]
      by_cases same : u = t
      · subst same
        simp [below, topId]
      · have outside : k ∉ ids t := fun both =>
          same (Option.some.inj (place.symm.trans (numbered.rootOf?_eq member both)))
        have other : u.topId ≠ t.value.1 := fun top => same (numbered.eq_of_topId root' member top)
        rw [if_neg outside, List.lookup_cons, beq_false_of_ne other]
        exact follows.memo place

theorem Follows.copyAll (follows : Follows f c s memo) (apart : Apart f c) (numbered : f.Numbered)
    (known : ∀ n ∈ ns, ∃ t, f.rootOf? n = some t) :
    ∃ s' memo', s.copyAll memo ns = ((s', memo'), (c.copyAll ns).2.map some) ∧
      Follows f (c.copyAll ns).1 s' memo' := by
  induction ns generalizing c s memo with
  | nil => exact ⟨s, memo, rfl, follows⟩
  | cons n ns ih =>
    rw [List.forall_mem_cons] at known
    obtain ⟨⟨t, root⟩, others⟩ := known
    obtain ⟨s₁, memo₁, first, follows₁⟩ := follows.copy apart numbered root
    obtain ⟨s₂, memo₂, rest, follows₂⟩ := ih follows₁ (apart.copy numbered root).1 others
    refine ⟨s₂, memo₂, ?_, follows₂⟩
    rw [Links.copyAll, first]
    dsimp only
    rw [rest]
    rfl

end Copying

/-- The nodes of one forest that are in the trees of some nodes have copies in another one: new nodes, apart
from one another, with the same content and children, in trees that differ in the numbers alone. What was in
the first forest is in the other one as it was. -/
structure Forest.CopiedBy (f g : Forest) (ns : List NodeId) (clone : NodeId → NodeId) : Prop where
  injective : ∀ {m m'}, f.Touched ns m → f.Touched ns m' → clone m = clone m' → m = m'
  node : ∀ {m}, f.Touched ns m → g.find? (clone m) = (f.find? m).map (renumber clone)
  parent : ∀ {m}, f.Touched ns m → g.parent? (clone m) = (f.parent? m).map (renumber clone)
  tree : ∀ {m}, f.Touched ns m → g.rootOf? (clone m) = (f.rootOf? m).map (renumber clone)
  place : ∀ {m t}, f.Touched ns m → f.rootOf? m = some t →
    (t.renumber clone).ids.idxOf (clone m) = t.ids.idxOf m
  separate : ∀ {m m'}, f.Touched ns m → f.Touched ns m' →
    g.rootOf? (clone m) = g.rootOf? (clone m') → f.rootOf? m = f.rootOf? m'
  fresh : ∀ {m t}, f.Touched ns m → g.rootOf? (clone m) = some t → ∀ n ∈ t.ids, f.next ≤ n
  kept : ∀ {m}, m < f.next → g.find? m = f.find? m ∧ g.parent? m = f.parent? m ∧ g.rootOf? m = f.rootOf? m

namespace Copying

theorem cloneOf_eq (root : f.rootOf? m = some t) {base : NodeId}
    (copied : c.copied.lookup t.topId = some base) : cloneOf f c m = base + (ids t).idxOf m := by
  simp [cloneOf, root, copied]

/-- The tree of a node that is touched has been copied. -/
theorem exists_copied (numbered : f.Numbered) (led : ∀ n ∈ ns, ∃ m, Leads f c n m) (touched : f.Touched ns m) :
    ∃ t base, t ∈ f.roots ∧ m ∈ ids t ∧ f.rootOf? m = some t ∧ c.copied.lookup t.topId = some base := by
  obtain ⟨n, member, t, root, has⟩ := touched
  obtain ⟨_, u, base, root', copied, _⟩ := led n member
  rw [root, Option.some.injEq] at root'
  subst root'
  have inside := (Forest.rootOf?_eq_some root).1
  exact ⟨t, base, inside, has, numbered.rootOf?_eq inside has, copied⟩

/-- Trees with the same copy are the same. -/
theorem Apart.eq_of_renumber (apart : Apart f c) (numbered : f.Numbered) {u : NumberedTree}
    {base base' : NodeId} (member : t ∈ f.roots) (member' : u ∈ f.roots) (copied : c.copied.lookup t.topId = some base)
    (copied' : c.copied.lookup u.topId = some base')
    (same : t.renumber (cloneOf f c) = u.renumber (cloneOf f c)) : t = u := by
  have top := congrArg topId same
  rw [topId_renumber, topId_renumber, cloneOf_eq (numbered.rootOf?_eq member (topId_mem_ids t)) copied,
    cloneOf_eq (numbered.rootOf?_eq member' (topId_mem_ids u)) copied', idxOf_topId, idxOf_topId] at top
  obtain rfl : base = base' := top
  exact numbered.eq_of_topId member member' (apart.distinct copied copied')

theorem Apart.copiedBy (apart : Apart f c) (numbered : f.Numbered) (later : Later ⟨f, []⟩ c)
    (led : ∀ n ∈ ns, ∃ m, Leads f c n m) : f.CopiedBy c.forest ns (cloneOf f c) where
  injective {m m'} touched touched' same := by
    obtain ⟨t, base, member, has, root, copied⟩ := exists_copied numbered led touched
    obtain ⟨u, base', member', has', root', copied'⟩ := exists_copied numbered led touched'
    have tree := (apart.node numbered member copied has).1
    rw [same, (apart.node numbered member' copied' has').1, Option.some.injEq] at tree
    obtain rfl := apart.eq_of_renumber numbered member' member copied' copied tree
    obtain rfl : base' = base := Option.some.inj (copied'.symm.trans copied)
    rw [cloneOf_eq root copied, cloneOf_eq root' copied', Nat.add_left_cancel_iff] at same
    exact (List.idxOf_inj has).1 same
  node touched := by
    obtain ⟨t, base, member, has, _, copied⟩ := exists_copied numbered led touched
    exact (apart.node numbered member copied has).2.1
  parent touched := by
    obtain ⟨t, base, member, has, _, copied⟩ := exists_copied numbered led touched
    exact (apart.node numbered member copied has).2.2
  tree touched := by
    obtain ⟨t, base, member, has, root, copied⟩ := exists_copied numbered led touched
    rw [root]
    exact (apart.node numbered member copied has).1
  place {m t} touched root := by
    obtain ⟨u, base, member, has, root', copied⟩ := exists_copied numbered led touched
    obtain rfl : u = t := Option.some.inj (root'.symm.trans root)
    have inside := (Forest.rootOf?_eq_some (apart.node numbered member copied has).1).1
    have bound : (ids u).idxOf m < ((u.renumber (cloneOf f c)).ids).length := by
      rw [ids_renumber, List.length_map]
      exact List.idxOf_lt_length_of_mem has
    have here : (u.renumber (cloneOf f c)).ids[(ids u).idxOf m] = cloneOf f c m := by
      simp [ids_renumber]
    rw [← here]
    exact (apart.numbered.ids_nodup inside).idxOf_getElem _ bound
  separate {m m'} touched touched' same := by
    obtain ⟨t, base, member, has, root, copied⟩ := exists_copied numbered led touched
    obtain ⟨u, base', member', has', root', copied'⟩ := exists_copied numbered led touched'
    rw [(apart.node numbered member copied has).1, (apart.node numbered member' copied' has').1,
      Option.some.injEq] at same
    rw [root, root', apart.eq_of_renumber numbered member member' copied copied' same]
  fresh {m t} touched root n below := by
    obtain ⟨u, base, member, has, _, copied⟩ := exists_copied numbered led touched
    rw [(apart.node numbered member copied has).1, Option.some.injEq] at root
    rw [← root, ids_renumber] at below
    obtain ⟨k, inside, rfl⟩ := List.mem_map.1 below
    rw [cloneOf_eq (numbered.rootOf?_eq member inside) copied]
    rcases later.fresh copied with earlier | late
    · cases earlier
    · exact Nat.le_add_right_of_le late
  kept old := ⟨apart.grown.find?_eq old, apart.grown.parent?_eq old, apart.grown.rootOf?_old old⟩

end Copying

/-- To copy nodes together gives each a clone, in one copy of each tree that has one of them. The trees that
a stack and a memo make along the links are the ones that are planted as copies. -/
theorem copyAll_copiedBy {s : Links} (mirrors : f.Mirrors s) (known : ∀ n ∈ ns, n < f.next) :
    ∃ clone : NodeId → NodeId, (f.copyAll ns).2 = ns.map clone ∧
      f.CopiedBy (f.copyAll ns).1 ns clone ∧
      (s.copyAll [] ns).1.1 = (f.copyAll ns).1.links ∧
      (s.copyAll [] ns).2 = ns.map fun n => some (clone n) := by
  have numbered := mirrors.full.numbered
  have rooted : ∀ n ∈ ns, ∃ t, f.rootOf? n = some t := fun n member => by
    obtain ⟨t, inside, has⟩ := List.mem_flatMap.1 (mirrors.full.mem_iff.2 (known n member))
    exact ⟨t, numbered.rootOf?_eq inside has⟩
  have start := Copying.apart_initial numbered
  obtain ⟨apart, later, led, clones⟩ := start.copyAll numbered rooted
  have follows : Copying.Follows f ⟨f, []⟩ s [] := ⟨mirrors, fun _ => rfl⟩
  obtain ⟨s', memo, copied, follows'⟩ := follows.copyAll start numbered rooted
  refine ⟨_, clones, apart.copiedBy numbered later led, ?_, ?_⟩
  · rw [copied]
    exact follows'.mirrors.eq
  · rw [copied, clones, List.map_map]
    rfl

/-- A child is asked for twice, with the top above it and the top of another tree. -/
theorem copyAll_copiedBy_twice : ∃ f s clone, Reached f s ∧ s.children 0 = [1] ∧
    (f.copyAll [1, 2, 0, 1]).2 = [4, 5, 3, 4] ∧ f.CopiedBy (f.copyAll [1, 2, 0, 1]).1 [1, 2, 0, 1] clone ∧
    (f.copyAll [1, 2, 0, 1]).1.links.children 3 = [4] := by
  have made := (((Reached.planted []).created ⟨.element "p" [], none⟩).created ⟨.text ['a'], none⟩).created
    ⟨.text ['b'], none⟩
  have joined := made.edited (e := .append 0 1)
    ⟨by decide, by decide, Links.not_isAbove_of_top (by decide) (by decide)⟩
  obtain ⟨clone, clones, copies, links, copied⟩ := @copyAll_copiedBy _ [1, 2, 0, 1] _ joined.mirrors (by
    rw [← joined.mirrors.length]
    decide)
  refine ⟨_, _, clone, joined, by decide, ?_, copies, ?_⟩
  · have found : [some 4, some 5, some 3, some 4] = _ := copied
    simp only [List.map_cons, List.map_nil, List.cons.injEq, Option.some.injEq, and_true] at found
    rw [clones]
    simp only [List.map_cons, List.map_nil, ← found.1, ← found.2.1, ← found.2.2.1]
  · rw [← links]
    decide

end LocatedHtml
