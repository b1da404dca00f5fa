import LocatedHtml.Proofs.Forest.Edits
import LocatedHtml.Proofs.Forest.LinkedRows

/-!
Forests and the links of their nodes. A forest in which every number is used has one set of links, and they
tell of each node what the forest tells of it.
-/

namespace LocatedHtml

open NumberedTree

/-- The links are those of the forest. -/
structure Forest.Mirrors (f : Forest) (s : Links) : Prop where
  length : s.nodes.length = f.next
  shown : s.Shows f.rows

namespace Forest

variable {f : Forest} {s : Links} {c p : NodeId}

theorem Full.linkedNode (full : f.Full) {r : Row} (member : r ∈ f.rows) :
    (f.linkedNode r.number).node = r.node ∧ (f.linkedNode r.number).children = r.children := by
  rw [rows_eq] at member
  obtain ⟨t, inside, rfl⟩ := List.mem_map.1 member
  have found : f.find? t.row.number = some t := find?_eq full.numbered.distinct inside
  rw [Forest.linkedNode, childIds, found]
  exact ⟨rfl, rfl⟩

theorem children_rows (f : Forest) : f.rows.flatMap Row.children = f.subtrees.flatMap belowTop := by
  rw [rows_eq, List.flatMap_map]
  rfl

theorem Full.parent?_iff (full : f.Full) :
    (f.parent? c).map topId = some p ↔ ∃ r ∈ f.rows, r.number = p ∧ c ∈ r.children := by
  rw [rows_eq]
  constructor
  · intro parent
    obtain ⟨t, found, rfl⟩ := Option.map_eq_some_iff.1 parent
    rw [parent?_eq] at found
    have below := List.find?_some found
    exact ⟨t.row, List.mem_map_of_mem (List.mem_of_find?_eq_some found), rfl, List.contains_iff_mem.1 below⟩
  · rintro ⟨r, member, number, below⟩
    obtain ⟨t, inside, rfl⟩ := List.mem_map.1 member
    obtain ⟨u, child, rfl⟩ := List.mem_map.1 below
    rw [parent?_of_child full.numbered.below_nodup inside child, Option.map_some, ← number]
    rfl

theorem Full.mirrors (full : f.Full) : f.Mirrors f.links := by
  have length : f.links.nodes.length = f.next := by simp [links]
  have get {n : NodeId} (known : n < f.next) : f.links.nodes[n]? = some (f.linkedNode n) := by
    simp [links, known]
  refine ⟨length, by rwa [length], ?_, fun r member => ?_, fun r member => ?_, fun c p => ?_⟩
  · rw [children_rows]
    exact full.numbered.below_nodup
  · rw [Links.node?, get (full.lt_of_row member), Option.map_some, (full.linkedNode member).1]
  · rw [Links.children, get (full.lt_of_row member), Option.map_some, Option.getD_some,
      (full.linkedNode member).2]
  · rw [← full.parent?_iff]
    by_cases small : c < f.next
    · rw [Links.parent?, get small]
      rfl
    · have nowhere : ¬ ∃ r ∈ f.rows, r.number = p ∧ c ∈ r.children := by
        rintro ⟨r, member, _, below⟩
        have inside : c ∈ f.subtrees.flatMap belowTop := by
          rw [← children_rows]
          exact List.mem_flatMap.2 ⟨r, member, below⟩
        exact small (full.mem_iff.1 (f.ids_perm.mem_iff.2 (List.mem_append_right _ inside)))
      rw [full.parent?_iff]
      simp only [nowhere, iff_false]
      intro linked
      exact small (length ▸ Links.lt_of_parent? linked)

namespace Mirrors

theorem full (mirrors : f.Mirrors s) : f.Full := by
  rw [Full, ← mirrors.length]
  exact mirrors.shown.numbers

/-- A forest has one set of links. -/
theorem eq (mirrors : f.Mirrors s) : s = f.links :=
  mirrors.shown.eq mirrors.full.mirrors.shown

theorem parent?_eq (mirrors : f.Mirrors s) (n : NodeId) : s.parent? n = (f.parent? n).map topId :=
  Option.ext fun p => by rw [mirrors.shown.parent?, mirrors.full.parent?_iff]

theorem description (mirrors : f.Mirrors s) (n : NodeId) : s.description n = f.description n := by
  by_cases known : n < f.next
  · obtain ⟨t, found, rfl, member⟩ := mirrors.full.find?_row known
    have node := mirrors.shown.node? _ member
    have children := mirrors.shown.children _ member
    obtain ⟨v, here, same⟩ := Option.map_eq_some_iff.1 node
    change s.nodes[t.topId]? = some v at here
    change ((s.nodes[t.topId]?).map (·.children)).getD [] = t.belowTop at children
    rw [here, Option.map_some, Option.getD_some] at children
    rw [Links.description, here, Forest.description, html?, found]
    simp [toHtml_eq, same, children, row, belowTop, Tree.description, Tree.value, Tree.children]
  · have nowhere : f.find? n = none :=
      Option.eq_none_iff_forall_ne_some.2 fun t found => known (mirrors.full.lt_of_find? found)
    rw [← mirrors.length, Nat.not_lt] at known
    rw [Links.description, List.getElem?_eq_none known, Forest.description, html?, nowhere]
    rfl

end Mirrors

end Forest

end LocatedHtml
