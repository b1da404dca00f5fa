import LocatedHtml.Proofs.Forest.LinkedForest
import Mathlib.Logic.Relation

/-!
Changes to a forest and to the links of its nodes, side by side. A forest has a node below another one only
once and only one way, so it can follow the links as long as no node is put below itself.
-/

namespace LocatedHtml

open NumberedTree

namespace Links

/-- A node is another one or above it. -/
def IsAbove (s : Links) : NodeId → NodeId → Prop := Relation.ReflTransGen fun a b => s.parent? b = some a

theorem not_isAbove_of_top {s : Links} {c p : NodeId} (top : s.parent? p = none) (other : p ≠ c) :
    ¬ s.IsAbove c p := by
  intro above
  rcases above.cases_tail with same | ⟨q, _, linked⟩
  · exact other same
  · rw [top] at linked
    cases linked

end Links

/-- A change to nodes that exist which puts no node below itself. A node that is not put anywhere, since the
target is not a child when the node has left its place, may be any. -/
def Edit.Allowed (s : Links) : Edit → Prop
  | .append parent child =>
    parent < s.nodes.length ∧ child < s.nodes.length ∧ ¬ s.IsAbove child parent
  | .insertBefore parent target child =>
    parent < s.nodes.length ∧ target < s.nodes.length ∧ child < s.nodes.length ∧
      (target ∈ (s.children parent).erase child → ¬ s.IsAbove child parent)
  | .remove node => node < s.nodes.length
  | .setText node _ => node < s.nodes.length

namespace Forest

variable {f : Forest} {s : Links} {n p c target : NodeId} {t taken : NumberedTree} {rest : List NumberedTree}

namespace Mirrors

theorem remove (mirrors : f.Mirrors s) (known : n < s.nodes.length) :
    (f.detach n).Mirrors (s.remove n).1 ∧ (s.remove n).2 = none := by
  obtain ⟨fine, shown⟩ := mirrors.shown.remove n
  refine ⟨⟨?_, shown.perm (mirrors.full.detach_rows ?_).symm⟩, fine⟩
  · rw [Links.length_remove, mirrors.length, detach]
    split <;> rfl
  · rwa [← mirrors.length]

/-- What is taken out with a node has the node above it. -/
theorem isAbove (mirrors : f.Mirrors s)
    (perm : (f.rows.map (Row.without c)).Perm (taken.rows ++ rest.flatMap NumberedTree.rows))
    (has : p ∈ ids taken) : s.IsAbove taken.topId p := by
  have linked : ∀ r ∈ taken.rows, ∀ b ∈ r.children, s.parent? b = some r.number := by
    intro r member b child
    obtain ⟨r₀, old, rfl⟩ := List.mem_map.1 (perm.mem_iff.2 (List.mem_append_left _ member))
    exact (mirrors.shown.parent? b r₀.number).2 ⟨r₀, old, rfl, List.mem_of_mem_erase child⟩
  -- below a node of the tree the way up goes on as it does from the node
  clear perm
  induction taken using Tree.induction with
  | node v cs ih =>
    rw [ids_node, List.mem_cons] at has
    rw [rows_node, List.forall_mem_cons] at linked
    rcases has with rfl | has
    · exact .refl
    · obtain ⟨u, child, has⟩ := List.mem_flatMap.1 has
      have inside : ∀ r ∈ NumberedTree.rows u, ∀ b ∈ r.children, s.parent? b = some r.number :=
        fun r member => linked.2 r (List.mem_flatMap.2 ⟨u, child, member⟩)
      exact .head (linked.1 _ (List.mem_map_of_mem child)) (ih u child has inside)

theorem append (mirrors : f.Mirrors s) (allowed : (Edit.append p c).Allowed s) :
    (f.append p c).Mirrors (s.append p c).1 ∧ (s.append p c).2 = none := by
  obtain ⟨parent, child, apart⟩ := allowed
  have full := mirrors.full
  rw [mirrors.length] at parent
  obtain ⟨taken, rest, took, top, perm⟩ := full.take (mirrors.length ▸ child)
  have has : p ∈ rest.flatMap ids := by
    refine (full.rest_numbers perm).2 parent fun below => apart ?_
    rw [← top]
    exact mirrors.isAbove perm below
  obtain ⟨v, ks, others, before, after, next⟩ := append_rows full took top perm has
  obtain ⟨fine, shown⟩ := mirrors.shown.append before child
  refine ⟨⟨?_, shown.perm after.symm⟩, fine⟩
  rw [next, Links.length_append, mirrors.length]

/-- The target is found among the children that the links have and among those that the forest has. -/
theorem target_iff (mirrors : f.Mirrors s) (top : topId taken = c)
    (perm : (f.rows.map (Row.without c)).Perm (taken.rows ++ rest.flatMap NumberedTree.rows))
    (allowed : (Edit.insertBefore p target c).Allowed s) :
    target ∈ ({ f with roots := rest } : Forest).childIds p ↔ target ∈ (s.remove c).1.children p := by
  have left := (mirrors.shown.remove c).2.perm perm
  rw [childIds]
  cases found : ({ f with roots := rest } : Forest).find? p with
  | some u =>
    obtain ⟨same, root, inside, below⟩ := find?_eq_some found
    have member : u.row ∈ rest.flatMap NumberedTree.rows :=
      List.mem_flatMap.2 ⟨root, inside, List.mem_map_of_mem below⟩
    have children := left.children u.row (List.mem_append_right _ member)
    rw [← same, show topId u = u.row.number from rfl, children]
    exact Iff.rfl
  | none =>
    -- the parent left with the node, so it is below the node, which the change must not ask for
    refine iff_of_false List.not_mem_nil fun child => ?_
    rw [mirrors.shown.linked.children_remove] at child
    obtain ⟨parent, _, _, apart⟩ := allowed
    refine apart child ?_
    rw [← top]
    refine mirrors.isAbove perm (by_contra fun outside => ?_)
    obtain ⟨root, inside, has⟩ := List.mem_flatMap.1
      ((mirrors.full.rest_numbers perm).2 (mirrors.length ▸ parent) outside)
    obtain ⟨u, there⟩ := find?_isSome (f := { f with roots := rest }) inside has
    rw [found] at there
    cases there

theorem insertBefore (mirrors : f.Mirrors s) (allowed : (Edit.insertBefore p target c).Allowed s) :
    (f.insertBefore p target c).1.Mirrors (s.insertBefore p target c).1 ∧
      (s.insertBefore p target c).2 = (f.insertBefore p target c).2 := by
  obtain ⟨_, _, child, _⟩ := id allowed
  have full := mirrors.full
  obtain ⟨taken, rest, took, top, perm⟩ := full.take (mirrors.length ▸ child)
  have target_iff := mirrors.target_iff top perm allowed
  by_cases inside : target ∈ ({ f with roots := rest } : Forest).childIds p
  · obtain ⟨v, ks, others, before, fine, after, next⟩ := insertBefore_rows full took top perm inside
    have children : (s.remove c).1.children p = ks :=
      ((mirrors.shown.remove c).2.perm before).children _ List.mem_cons_self
    obtain ⟨fine', shown⟩ := mirrors.shown.insertBefore before child (children ▸ target_iff.1 inside)
    refine ⟨⟨?_, shown.perm after.symm⟩, fine'.trans fine.symm⟩
    rw [next, Links.length_insertBefore, mirrors.length]
  · obtain ⟨removed, fine⟩ := mirrors.remove child
    rw [insertBefore_refused took inside, Links.insertBefore_refused fine (mt target_iff.2 inside)]
    exact ⟨removed, by rw [removed.description, removed.description]⟩

theorem setText (mirrors : f.Mirrors s) (known : n < s.nodes.length) (value : Text) :
    (f.setText n value).Mirrors (s.setText n value).1 ∧ (s.setText n value).2 = none := by
  have full := mirrors.full
  obtain ⟨t, found, rfl, member⟩ := full.find?_row (mirrors.length ▸ known)
  have node : s.node? t.topId = some t.value.2 := mirrors.shown.node? _ member
  unfold Forest.setText Links.setText
  rw [found, node, Option.map_some]
  dsimp only
  cases content : t.value.2.content with
  | text old =>
    obtain ⟨others, before, after⟩ := withContent_rows full found (.text value)
    have shown := (mirrors.shown.perm before).setContent (.text value)
    exact ⟨⟨by simp [mirrors.length], shown.perm after.symm⟩, rfl⟩
  | comment old =>
    obtain ⟨others, before, after⟩ := withContent_rows full found (.comment value)
    have shown := (mirrors.shown.perm before).setContent (.comment value)
    exact ⟨⟨by simp [mirrors.length], shown.perm after.symm⟩, rfl⟩
  | _ =>
    obtain ⟨others, before, after⟩ := leaf_rows full found ⟨.text value, none⟩
    obtain ⟨fine, shown⟩ := (mirrors.shown.perm before).replaceChildren ⟨.text value, none⟩
    refine ⟨⟨shown.length_eq.symm.trans ?_, shown.perm ?_⟩, fine⟩
    · rw [← mirrors.length, ← (mirrors.shown.perm before).length_eq]
      rfl
    · rw [mirrors.length]
      exact after.symm

theorem create (mirrors : f.Mirrors s) (v : Node) : (f.plant (.node v [])).Mirrors (s.create v) := by
  have shown := mirrors.shown.create v
  refine ⟨by simp [Links.create, plant, mirrors.length, Tree.size, Tree.sizeAll], shown.perm ?_⟩
  rw [plant_rows, mirrors.length, Tree.number, Tree.numberAll, rows_node]
  exact (List.perm_append_singleton _ _).symm

/-- A change that puts no node below itself is made in a forest as it is made to the links. -/
theorem edit (mirrors : f.Mirrors s) {e : Edit} (allowed : e.Allowed s) :
    (f.edit e).1.Mirrors (s.edit e).1 ∧ (s.edit e).2 = (f.edit e).2 := by
  cases e with
  | append p c => exact mirrors.append allowed
  | insertBefore p target c => exact mirrors.insertBefore allowed
  | remove n => exact mirrors.remove allowed
  | setText n value => exact mirrors.setText allowed value

end Mirrors

end Forest

/-- The forests and their links that changes lead to, side by side, from trees that have just been made. -/
inductive Reached : Forest → Links → Prop
  | planted (trees : List HtmlTree) :
    Reached (trees.foldl Forest.plant {}) (trees.foldl Forest.plant {}).links
  | created {f : Forest} {s : Links} (reached : Reached f s) (v : Node) :
    Reached (f.plant (.node v [])) (s.create v)
  | edited {f : Forest} {s : Links} {e : Edit} (reached : Reached f s) (allowed : e.Allowed s) :
    Reached (f.edit e).1 (s.edit e).1

variable {f : Forest} {s : Links}

theorem Reached.mirrors (reached : Reached f s) : f.Mirrors s := by
  induction reached with
  | planted trees => exact (Forest.full_plantAll trees).mirrors
  | created _ v ih => exact ih.create v
  | edited _ allowed ih => exact (ih.edit allowed).1

/-- However nodes have been moved, each knows as its parent the one node that has it as a child, and that
node has it once. So a node can always be taken out. A node that is put last or before a target stands
there, and no other children of any node change their order. -/
theorem reached_linked (reached : Reached f s) :
    s = f.links ∧
    (∀ c p, s.parent? c = some p ↔ c ∈ s.children p) ∧
    (∀ c p, c ∈ s.children p → (s.children p).count c = 1) ∧
    (∀ n, (s.remove n).2 = none) ∧
    (∀ e : Edit, e.Allowed s → (s.edit e).1 = (f.edit e).1.links ∧ (s.edit e).2 = (f.edit e).2) ∧
    (∀ p c, (Edit.append p c).Allowed s → (s.append p c).2 = none ∧
      ∀ q, (s.append p c).1.children q =
        if p = q then (s.children p).erase c ++ [c] else (s.children q).erase c) ∧
    ∀ p target c, (Edit.insertBefore p target c).Allowed s → (s.insertBefore p target c).2 = none →
      ∃ before after, (s.children p).erase c = before ++ target :: after ∧
        ∀ q, (s.insertBefore p target c).1.children q =
          if p = q then before ++ c :: target :: after else (s.children q).erase c := by
  have mirrors := reached.mirrors
  have shown := mirrors.shown
  refine ⟨mirrors.eq, fun c p => shown.parent?_iff, fun c p child => ?_, fun n => (shown.remove n).1,
    fun e allowed => ?_, fun p c allowed => ?_, fun p target c allowed fine => ?_⟩
  · exact List.count_eq_one_of_mem (shown.nodup_children p) child
  · exact ⟨(mirrors.edit allowed).1.eq, (mirrors.edit allowed).2⟩
  · exact ⟨(mirrors.append allowed).2, fun q => shown.children_append allowed.1 q⟩
  · exact shown.children_insertBefore allowed.1 fine

/-- A node is moved in front of its sibling and taken out by a move that is refused. -/
theorem reached_linked_moves : ∃ f s, Reached f s ∧ s.children 0 = [1] ∧ s.parent? 1 = some 0 ∧
    s.parent? 2 = none ∧ s = f.links ∧ (s.children 0).count 1 = 1 ∧ (s.remove 1).2 = none ∧
    (s.append 0 2).1.children 0 = [1, 2] := by
  have made := (((Reached.planted []).created ⟨.element "p" [], none⟩).created ⟨.text ['a'], none⟩).created
    ⟨.text ['b'], none⟩
  have first := made.edited (e := .append 0 1)
    ⟨by decide, by decide, Links.not_isAbove_of_top (by decide) (by decide)⟩
  have second := first.edited (e := .append 0 2)
    ⟨by decide, by decide, Links.not_isAbove_of_top (by decide) (by decide)⟩
  have moved := second.edited (e := .insertBefore 0 1 2)
    ⟨by decide, by decide, by decide, fun _ => Links.not_isAbove_of_top (by decide) (by decide)⟩
  have refused := moved.edited (e := .insertBefore 0 2 2)
    ⟨by decide, by decide, by decide, fun _ => Links.not_isAbove_of_top (by decide) (by decide)⟩
  obtain ⟨same, linked, once, removed, _, append, _⟩ := reached_linked refused
  obtain ⟨_, children⟩ := append 0 2
    ⟨by decide, by decide, Links.not_isAbove_of_top (by decide) (by decide)⟩
  exact ⟨_, _, refused, by decide, (linked 1 0).2 (by decide), by decide, same, once 1 0 (by decide), removed 1,
    (children 0).trans (by decide)⟩

end LocatedHtml
