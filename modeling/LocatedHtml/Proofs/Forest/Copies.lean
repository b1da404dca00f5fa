import LocatedHtml.Proofs.Forest.Growth

/-!
Copies of trees that are made together. A tree is copied once, however many of its nodes are asked for,
so the copies of two of its nodes are in one tree, as far apart as the nodes are.
-/

namespace LocatedHtml

open NumberedTree

variable {f : Forest} {n m : NodeId} {t : NumberedTree}

namespace Forest

/-- Every number of the forest belongs to one node and is below the next one. -/
structure Numbered (f : Forest) : Prop where
  nodup : (f.roots.flatMap ids).Nodup
  bounded : f.Bounded

theorem Numbered.distinct (numbered : f.Numbered) : (f.subtrees.map topId).Nodup := by
  rw [subtrees_eq, List.map_flatMap]
  exact numbered.nodup

theorem Numbered.below_nodup (numbered : f.Numbered) : (f.subtrees.flatMap belowTop).Nodup :=
  (f.ids_perm.nodup_iff.1 numbered.nodup).of_append_right

theorem Numbered.ids_nodup (numbered : f.Numbered) (member : t ∈ f.roots) : (ids t).Nodup :=
  (List.nodup_flatMap.1 numbered.nodup).1 t member

/-- The top of a tree is below no node. -/
theorem Numbered.parent?_top (numbered : f.Numbered) (member : t ∈ f.roots) : f.parent? t.topId = none := by
  rw [parent?_eq, List.find?_eq_none]
  intro u inside below
  have apart := (List.nodup_append'.1 (f.ids_perm.nodup_iff.1 numbered.nodup)).2.2
  exact apart (List.mem_map_of_mem member)
    (List.mem_flatMap.2 ⟨u, inside, List.contains_iff_mem.1 below⟩)

theorem rootOf?_eq_some (found : f.rootOf? n = some t) : t ∈ f.roots ∧ n ∈ ids t := by
  refine ⟨List.mem_of_find?_eq_some found, ?_⟩
  have has := List.find?_some (p := fun t => (ids t).contains n) found
  rwa [List.contains_iff_mem] at has

theorem Numbered.rootOf?_eq (numbered : f.Numbered) (member : t ∈ f.roots) (has : n ∈ ids t) :
    f.rootOf? n = some t :=
  find?_contains numbered.nodup member has

theorem Numbered.eq_of_topId (numbered : f.Numbered) {u : NumberedTree} (first : t ∈ f.roots)
    (second : u ∈ f.roots) (same : t.topId = u.topId) : t = u := by
  have here := numbered.rootOf?_eq first (topId_mem_ids t)
  rw [same, numbered.rootOf?_eq second (topId_mem_ids u)] at here
  exact (Option.some.inj here).symm

/-- The number of a top leads to the tree. -/
theorem Numbered.html?_top (numbered : f.Numbered) (member : t ∈ f.roots) :
    f.html? t.topId = some t.toHtml := by
  obtain ⟨before, after, roots⟩ := List.append_of_mem member
  have nodup := numbered.nodup
  rw [roots, List.flatMap_append, List.nodup_append'] at nodup
  have apart : ∀ u ∈ before, Lacks t.topId u := fun u front => lacks_iff.2 fun has =>
    nodup.2.2 (List.mem_flatMap.2 ⟨u, front, has⟩) (List.mem_flatMap.2
      ⟨t, List.mem_cons_self, List.mem_map_of_mem (Tree.mem_subtrees_self t)⟩)
  rw [html?, find?_root roots apart, Option.map_some]

theorem Bounded.lt_of_rootOf? (bounded : f.Bounded) (found : f.rootOf? n = some t) : n < f.next := by
  obtain ⟨member, has⟩ := rootOf?_eq_some found
  obtain ⟨u, below, rfl⟩ := List.mem_map.1 has
  exact bounded t member u below

theorem Bounded.rootOf?_plant (bounded : f.Bounded) (t : HtmlTree) :
    (f.plant t).rootOf? f.next = some (t.number f.next) := by
  have absent : f.roots.find? (fun u => (ids u).contains f.next) = none := by
    rw [List.find?_eq_none]
    intro u member has
    rw [List.contains_iff_mem] at has
    obtain ⟨w, below, same⟩ := List.mem_map.1 has
    exact Nat.ne_of_lt (bounded u member w below) same
  have present : (ids (t.number f.next)).contains f.next = true := by
    have first := Tree.size_pos t
    rw [List.contains_iff_mem, ids_number, List.mem_range'_1]
    omega
  rw [rootOf?, plant, List.find?_append, absent, Option.none_or, List.find?_cons_of_pos]
  exact present

theorem Numbered.plant (numbered : f.Numbered) (t : HtmlTree) : (f.plant t).Numbered where
  bounded := (Grown.plant f t).bounded numbered.bounded
  nodup := by
    have roots : (f.plant t).roots = f.roots ++ [t.number f.next] := rfl
    rw [roots, List.flatMap_append, List.flatMap_singleton, ids_number, List.nodup_append']
    refine ⟨numbered.nodup, List.nodup_range', fun n old new => ?_⟩
    obtain ⟨u, member, has⟩ := List.mem_flatMap.1 old
    obtain ⟨w, below, rfl⟩ := List.mem_map.1 has
    exact Nat.not_le_of_lt (numbered.bounded u member w below) (List.mem_range'_1.1 new).1

end Forest

namespace Copying

variable {c d e : Copying} {r base : NodeId}

/-- More has been copied. What had been copied stays, and what is new has new numbers. -/
structure Later (c d : Copying) : Prop where
  grown : c.forest.Grown d.forest
  kept : ∀ {r base}, c.copied.lookup r = some base → d.copied.lookup r = some base
  fresh : ∀ {r base}, d.copied.lookup r = some base →
    c.copied.lookup r = some base ∨ c.forest.next ≤ base

theorem Later.refl (c : Copying) : Later c c := ⟨.refl _, id, .inl⟩

theorem Later.trans (first : Later c d) (second : Later d e) : Later c e where
  grown := first.grown.trans second.grown
  kept copied := second.kept (first.kept copied)
  fresh copied := by
    rcases second.fresh copied with copied | late
    · exact first.fresh copied
    · exact .inr (Nat.le_trans first.grown.next late)

/-- Copies of trees of a forest, each in a place of its own. -/
structure CopiesOf (f : Forest) (c : Copying) : Prop where
  grown : f.Grown c.forest
  copied : ∀ {r base}, c.copied.lookup r = some base →
    ∃ t, f.rootOf? r = some t ∧ t.topId = r ∧ c.forest.rootOf? base = some (t.toHtml.number base)

theorem copiesOf_initial (f : Forest) : CopiesOf f ⟨f, []⟩ where
  grown := .refl f
  copied none := by cases none

/-- The one number is the copy of the other. -/
def Leads (f : Forest) (c : Copying) (n m : NodeId) : Prop :=
  ∃ t base, f.rootOf? n = some t ∧ c.copied.lookup t.topId = some base ∧ m = base + (ids t).idxOf n

theorem Leads.later (leads : Leads f c n m) (later : Later c d) : Leads f d n m := by
  obtain ⟨t, base, root, copied, rfl⟩ := leads
  exact ⟨t, base, root, later.kept copied, rfl⟩

theorem lookup_copied {copied : List (NodeId × NodeId)} {k next : NodeId}
    (found : ((k, next) :: copied).lookup r = some base) :
    r = k ∧ base = next ∨ copied.lookup r = some base := by
  rw [List.lookup_cons] at found
  split at found
  · next same => exact .inl ⟨eq_of_beq same, (Option.some.inj found).symm⟩
  · exact .inr found

theorem later_copy (c : Copying) (n : NodeId) : Later c (c.copy n).1 := by
  unfold Copying.copy
  split
  · exact .refl c
  · next root _ =>
    dsimp only
    split
    · exact .refl c
    · next absent =>
      refine ⟨.plant c.forest _, fun earlier => ?_, fun found => ?_⟩
      · rw [List.lookup_cons]
        split
        · next same =>
          rw [eq_of_beq same, absent] at earlier
          cases earlier
        · exact earlier
      · rcases lookup_copied found with ⟨_, rfl⟩ | earlier
        · exact .inr (Nat.le_refl _)
        · exact .inl earlier

/-- The tree of a node is copied unless that has been done, and the node's copy is in the copy. -/
theorem CopiesOf.copy (copies : CopiesOf f c) (numbered : f.Numbered) (root : f.rootOf? n = some t) :
    CopiesOf f (c.copy n).1 ∧ Leads f (c.copy n).1 n (c.copy n).2 := by
  have bounded := copies.grown.bounded numbered.bounded
  unfold Copying.copy
  rw [copies.grown.rootOf?_eq root]
  dsimp only
  cases copied : c.copied.lookup t.value.1 with
  | some base => exact ⟨copies, t, base, root, copied, rfl⟩
  | none =>
    obtain ⟨member, _⟩ := Forest.rootOf?_eq_some root
    have top : f.rootOf? t.topId = some t :=
      numbered.rootOf?_eq member (List.mem_map_of_mem (Tree.mem_subtrees_self t))
    have grown := Forest.Grown.plant c.forest t.toHtml
    refine ⟨⟨copies.grown.trans grown, fun found => ?_⟩, t, c.forest.next, root, List.lookup_cons_self, rfl⟩
    rcases lookup_copied found with ⟨rfl, rfl⟩ | earlier
    · exact ⟨t, top, rfl, bounded.rootOf?_plant t.toHtml⟩
    · obtain ⟨u, root, same, place⟩ := copies.copied earlier
      exact ⟨u, root, same, grown.rootOf?_eq place⟩

end Copying

end LocatedHtml
