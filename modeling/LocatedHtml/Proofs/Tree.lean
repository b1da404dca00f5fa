import LocatedHtml.Tree
import Mathlib.Data.List.Basic

/-!
Trees, their subtrees in document order, and the places at which these stand: a subtree together with
the values above it, nearest first.
-/

namespace LocatedHtml.Tree

variable {α β : Type}

@[elab_as_elim]
theorem induction {motive : Tree α → Prop}
    (node : ∀ v cs, (∀ c ∈ cs, motive c) → motive (.node v cs)) (t : Tree α) : motive t := by
  induction size : t.size using Nat.strongRecOn generalizing t with
  | ind n ih =>
    cases t with
    | node v cs =>
      apply node
      intro c member
      apply ih c.size _ c rfl
      rw [← size]
      exact size_lt_of_mem_children (t := .node v cs) member

theorem walk_append (ahead more : Ahead α) : walk (ahead ++ more) = walk ahead ++ walk more := by
  induction ahead using walk.induct with
  | case1 => simp only [List.nil_append, walk]
  | case2 depth v cs ahead ih =>
    simp only [List.map_subtype, List.unattach_attach, List.append_assoc] at ih
    rw [List.cons_append, walk, walk, ih, List.cons_append]

theorem walk_map (depth : Nat) (ts : List (Tree α)) :
    walk (ts.map fun t => (depth, t)) = ts.flatMap fun t => walk [(depth, t)] := by
  induction ts with
  | nil => simp only [List.map_nil, walk, List.flatMap_nil]
  | cons t ts ih =>
    rw [List.map_cons, ← List.singleton_append, walk_append, ih, List.flatMap_cons]

theorem walk_node (depth : Nat) (v : α) (cs : List (Tree α)) :
    walk [(depth, .node v cs)] =
      (depth, .node v cs) :: cs.flatMap fun c => walk [(depth + 1, c)] := by
  rw [walk, List.append_nil, walk_map]

theorem walk_subtrees (depth : Nat) (t : Tree α) :
    (walk [(depth, t)]).map Prod.snd = t.subtrees := by
  unfold subtrees visits
  induction t using Tree.induction generalizing depth with
  | node v cs ih =>
    simp only [walk_node, List.map_cons, List.map_flatMap]
    congr 1
    apply List.flatMap_congr
    intro c member
    rw [ih c member (depth + 1), ih c member (0 + 1)]

theorem subtrees_node (v : α) (cs : List (Tree α)) :
    (Tree.node v cs).subtrees = .node v cs :: cs.flatMap subtrees := by
  rw [← walk_subtrees 0, walk_node, List.map_cons, List.map_flatMap]
  simp only [walk_subtrees]

theorem mem_subtrees_self (t : Tree α) : t ∈ t.subtrees := by
  cases t
  rw [subtrees_node]
  exact List.mem_cons_self

theorem mem_subtrees_node {t : Tree α} {v : α} {cs : List (Tree α)} :
    t ∈ (Tree.node v cs).subtrees ↔ t = .node v cs ∨ ∃ c ∈ cs, t ∈ c.subtrees := by
  rw [subtrees_node, List.mem_cons, List.mem_flatMap]

theorem mem_subtrees_iff {t u : Tree α} : u ∈ t.subtrees ↔ u = t ∨ ∃ c ∈ t.children, u ∈ c.subtrees := by
  cases t
  exact mem_subtrees_node

theorem mem_subtrees_trans {t u w : Tree α} (below : w ∈ u.subtrees) (member : u ∈ t.subtrees) :
    w ∈ t.subtrees := by
  induction t using Tree.induction with
  | node v cs ih =>
    rcases mem_subtrees_node.1 member with rfl | ⟨c, child, member⟩
    · exact below
    · exact mem_subtrees_node.2 (.inr ⟨c, child, ih c child member⟩)

mutual

/-- All subtrees in document order, each with the values above it, nearest first. -/
def places (above : List α) : Tree α → List (List α × Tree α)
  | .node v cs => (above, .node v cs) :: placesAll (v :: above) cs

/-- The places in some trees with the same values above them. -/
def placesAll (above : List α) : List (Tree α) → List (List α × Tree α)
  | [] => []
  | t :: rest => places above t ++ placesAll above rest

end

theorem placesAll_eq (above : List α) (ts : List (Tree α)) :
    placesAll above ts = ts.flatMap (places above) := by
  induction ts with
  | nil => rfl
  | cons t ts ih => rw [placesAll, ih, List.flatMap_cons]

theorem places_node (above : List α) (v : α) (cs : List (Tree α)) :
    places above (.node v cs) = (above, .node v cs) :: cs.flatMap (places (v :: above)) := by
  rw [places, placesAll_eq]

theorem places_subtrees (above : List α) (t : Tree α) : (t.places above).map Prod.snd = t.subtrees := by
  induction t using Tree.induction generalizing above with
  | node v cs ih =>
    rw [places_node, subtrees_node, List.map_cons, List.map_flatMap]
    congr 1
    exact List.flatMap_congr fun c child => ih c child (v :: above)

theorem places_above {above : List α} {t : Tree α} {place : List α × Tree α}
    (member : place ∈ t.places above) : place = (above, t) ∨ place.1 ≠ [] := by
  induction t using Tree.induction generalizing above with
  | node v cs ih =>
    rw [places_node] at member
    rcases List.mem_cons.1 member with rfl | member
    · exact .inl rfl
    · obtain ⟨c, child, member⟩ := List.mem_flatMap.1 member
      right
      rcases ih c child member with rfl | inner
      · exact List.cons_ne_nil v above
      · exact inner

theorem above_suffix {above : List α} {t : Tree α} {place : List α × Tree α}
    (member : place ∈ t.places above) : above <:+ place.1 := by
  induction t using Tree.induction generalizing above with
  | node v cs ih =>
    rw [places_node] at member
    rcases List.mem_cons.1 member with rfl | member
    · exact List.suffix_rfl
    · obtain ⟨c, child, member⟩ := List.mem_flatMap.1 member
      exact (List.suffix_cons v above).trans (ih c child member)

end LocatedHtml.Tree
