import LocatedHtml.Proofs.Forest.Values

/-!
The nodes of a forest laid out in rows, each with the numbers of its children. An edit takes a number out
of the rows or changes one row; which tree a row comes from does not matter.
-/

namespace LocatedHtml

/-- A numbered node with the numbers of its children. -/
structure Row where
  number : NodeId
  node : Node
  children : List NodeId

/-- The row without a number among the children. -/
def Row.without (n : NodeId) (r : Row) : Row := { r with children := r.children.erase n }

theorem Row.without_of_not_mem {n : NodeId} {r : Row} (absent : n ∉ r.children) : r.without n = r := by
  rw [without, List.erase_of_not_mem absent]

theorem map_without {n : NodeId} {rows : List Row} (absent : ∀ r ∈ rows, n ∉ r.children) :
    rows.map (Row.without n) = rows := by
  rw [List.map_congr_left fun r member => Row.without_of_not_mem (absent r member), List.map_id']

namespace NumberedTree

/-- The top of a tree with the numbers of its children. -/
def row (t : NumberedTree) : Row := ⟨t.topId, t.value.2, t.belowTop⟩

/-- The nodes of a tree in document order. -/
def rows (t : NumberedTree) : List Row := t.subtrees.map row

variable {n : NodeId} {t taken : NumberedTree} {ts rest : List NumberedTree}

theorem rows_node (v : NodeId × Node) (cs : List NumberedTree) :
    rows (.node v cs) = ⟨v.1, v.2, cs.map topId⟩ :: cs.flatMap rows := by
  unfold rows
  rw [Tree.subtrees_node, List.map_cons, List.map_flatMap]
  rfl

theorem numbers_rows (t : NumberedTree) : t.rows.map Row.number = t.ids := by
  rw [rows, List.map_map]
  rfl

theorem numbers_flatMap_rows (ts : List NumberedTree) :
    (ts.flatMap rows).map Row.number = ts.flatMap ids := by
  simp only [List.map_flatMap, numbers_rows]

theorem children_rows (t : NumberedTree) : t.rows.flatMap Row.children = t.subtrees.flatMap belowTop := by
  rw [rows, List.flatMap_map]
  rfl

/-- What is below a node is in the tree, and the top is below none. -/
theorem not_mem_children (distinct : t.ids.Nodup) (absent : n ∉ t.ids ∨ n = t.topId) :
    ∀ r ∈ t.rows, n ∉ r.children := by
  intro r member below
  have perm := ids_perm t
  have inside : n ∈ t.subtrees.flatMap belowTop := by
    rw [← children_rows]
    exact List.mem_flatMap.2 ⟨r, member, below⟩
  rcases absent with absent | rfl
  · exact absent (perm.mem_iff.2 (List.mem_cons_of_mem _ inside))
  · exact (List.nodup_cons.1 (perm.nodup_iff.1 distinct)).1 inside

theorem rows_without (distinct : t.ids.Nodup) (absent : n ∉ t.ids ∨ n = t.topId) :
    t.rows.map (Row.without n) = t.rows :=
  map_without (not_mem_children distinct absent)

theorem flatMap_rows_without (distinct : (ts.flatMap ids).Nodup) (absent : n ∉ ts.flatMap ids) :
    (ts.flatMap rows).map (Row.without n) = ts.flatMap rows := by
  rw [List.map_flatMap]
  apply List.flatMap_congr
  intro t member
  exact rows_without ((List.nodup_flatMap.1 distinct).1 t member)
    (.inl fun has => absent (List.mem_flatMap.2 ⟨t, member, has⟩))

theorem takeBelow_node {v : NodeId × Node} {cs : List NumberedTree}
    (took : takeBelow n (.node v cs) = some (taken, t)) :
    ∃ left, takeFrom n cs = some (taken, left) ∧ t = .node v left := by
  rw [takeBelow] at took
  obtain ⟨⟨_, left⟩, below, same⟩ := Option.map_eq_some_iff.1 took
  cases same
  exact ⟨left, below, rfl⟩

/-- A tree is taken out in front, below the first tree or behind it. -/
theorem takeFrom_cons (took : takeFrom n (t :: ts) = some (taken, rest)) :
    topId t = n ∧ taken = t ∧ rest = ts ∨
      topId t ≠ n ∧ (∃ left, takeBelow n t = some (taken, left) ∧ rest = left :: ts) ∨
      topId t ≠ n ∧ ∃ left, takeFrom n ts = some (taken, left) ∧ rest = t :: left := by
  rw [takeFrom] at took
  split at took
  · next top =>
    cases took
    exact .inl ⟨top, rfl, rfl⟩
  · next other =>
    split at took
    · next left below =>
      cases took
      exact .inr (.inl ⟨other, left, below, rfl⟩)
    · obtain ⟨⟨_, left⟩, behind, same⟩ := Option.map_eq_some_iff.1 took
      cases same
      exact .inr (.inr ⟨other, left, behind, rfl⟩)

theorem mem_numbers_of_taken {all others : List Row} (top : topId taken = n)
    (perm : (all.map (Row.without n)).Perm (taken.rows ++ others)) : n ∈ all.map Row.number := by
  have numbers := perm.map Row.number
  rw [List.map_map, show Row.number ∘ Row.without n = Row.number from rfl, List.map_append,
    numbers_rows] at numbers
  rw [numbers.mem_iff, ← top]
  exact List.mem_append_left _ (topId_mem_ids taken)

mutual

theorem takeBelow_rows (t : NumberedTree) {left : NumberedTree} (distinct : t.ids.Nodup)
    (took : takeBelow n t = some (taken, left)) :
    topId taken = n ∧ topId left = topId t ∧
      (t.rows.map (Row.without n)).Perm (taken.rows ++ left.rows) := by
  cases t with
  | node v cs =>
    obtain ⟨rest, below, rfl⟩ := takeBelow_node took
    rw [ids_node, List.nodup_cons] at distinct
    obtain ⟨top, tops, perm⟩ := takeFrom_rows cs distinct.2 below
    refine ⟨top, rfl, ?_⟩
    rw [rows_node, rows_node, List.map_cons, Row.without, ← tops]
    exact (perm.cons _).trans List.perm_middle.symm

/-- To take a tree out takes its number out of all rows and leaves them otherwise as they are. -/
theorem takeFrom_rows (ts : List NumberedTree) {left : List NumberedTree} (distinct : (ts.flatMap ids).Nodup)
    (took : takeFrom n ts = some (taken, left)) :
    topId taken = n ∧ left.map topId = (ts.map topId).erase n ∧
      ((ts.flatMap rows).map (Row.without n)).Perm (taken.rows ++ left.flatMap rows) := by
  cases ts with
  | nil =>
    rw [takeFrom] at took
    cases took
  | cons t ts =>
    rw [List.flatMap_cons, List.nodup_append'] at distinct
    obtain ⟨here, there, apart⟩ := distinct
    have behind (has : n ∈ t.ids) : (ts.flatMap rows).map (Row.without n) = ts.flatMap rows :=
      flatMap_rows_without there (apart has)
    rw [List.flatMap_cons, List.map_append]
    rcases takeFrom_cons took with ⟨rfl, rfl, rfl⟩ | ⟨other, left, below, rfl⟩ | ⟨other, left, further, rfl⟩
    · rw [rows_without here (.inr rfl), behind (topId_mem_ids _), List.map_cons, List.erase_cons_head]
      exact ⟨rfl, rfl, .refl _⟩
    · obtain ⟨top, same, perm⟩ := takeBelow_rows t here below
      have has : n ∈ t.ids := by
        rw [← numbers_rows]
        exact mem_numbers_of_taken top perm
      have absent : n ∉ ts.map topId := fun member => by
        obtain ⟨u, inside, rfl⟩ := List.mem_map.1 member
        exact apart has (List.mem_flatMap.2 ⟨u, inside, topId_mem_ids u⟩)
      rw [List.map_cons, List.map_cons, same, List.erase_cons_tail (by simpa using other),
        List.erase_of_not_mem absent, behind has, List.flatMap_cons, ← List.append_assoc]
      exact ⟨top, rfl, perm.append_right _⟩
    · obtain ⟨top, tops, perm⟩ := takeFrom_rows ts there further
      have has : n ∈ ts.flatMap ids := by
        rw [← numbers_flatMap_rows]
        exact mem_numbers_of_taken top perm
      rw [List.map_cons, List.map_cons, tops, List.erase_cons_tail (by simpa using other),
        rows_without here (.inl fun both => apart both has), List.flatMap_cons]
      exact ⟨top, rfl, (perm.append_left _).trans (List.perm_append_comm_assoc _ _ _)⟩

end

mutual

theorem takeBelow_isSome (t : NumberedTree) (other : topId t ≠ n) (has : n ∈ t.ids) :
    (takeBelow n t).isSome := by
  cases t with
  | node v cs =>
    rw [ids_node, List.mem_cons] at has
    rw [takeBelow, Option.isSome_map]
    exact takeFrom_isSome cs (has.resolve_left (Ne.symm other))

/-- A tree can be taken out wherever its number is. -/
theorem takeFrom_isSome (ts : List NumberedTree) (has : n ∈ ts.flatMap ids) : (takeFrom n ts).isSome := by
  cases ts with
  | nil => cases has
  | cons t ts =>
    rw [takeFrom]
    split
    · rfl
    · next other =>
      split
      · rfl
      · next none =>
        rw [List.flatMap_cons, List.mem_append] at has
        rw [Option.isSome_map]
        refine takeFrom_isSome ts (has.resolve_left fun below => ?_)
        simpa [none] using takeBelow_isSome t other below

end

variable {p : NodeId} {w : NumberedTree → NumberedTree}

mutual

theorem substituteBelow_rows (t : NumberedTree) (same : ∀ u, topId (w u) = topId u)
    (distinct : t.ids.Nodup) (other : topId t ≠ p) (has : p ∈ t.ids) :
    ∃ u ∈ t.subtrees, ∃ others, topId u = p ∧ t.rows.Perm (rows u ++ others) ∧
      (substituteBelow p (fun u => [w u]) t).rows.Perm ((w u).rows ++ others) := by
  cases t with
  | node v cs =>
    rw [ids_node, List.nodup_cons] at distinct
    rw [ids_node, List.mem_cons] at has
    obtain ⟨u, below, others, top, before, after, tops⟩ :=
      substitute_rows cs same distinct.2 (has.resolve_left (Ne.symm other))
    refine ⟨u, ?_, ⟨v.1, v.2, cs.map topId⟩ :: others, top, ?_, ?_⟩
    · rw [Tree.subtrees_node]
      exact List.mem_cons_of_mem _ below
    · rw [rows_node]
      exact (before.cons _).trans List.perm_middle.symm
    · rw [substituteBelow, rows_node, tops]
      exact (after.cons _).trans List.perm_middle.symm

/-- To change one tree changes its rows and no others. -/
theorem substitute_rows (ts : List NumberedTree) (same : ∀ u, topId (w u) = topId u)
    (distinct : (ts.flatMap ids).Nodup) (has : p ∈ ts.flatMap ids) :
    ∃ u ∈ ts.flatMap Tree.subtrees, ∃ others, topId u = p ∧ (ts.flatMap rows).Perm (rows u ++ others) ∧
      ((substitute p (fun u => [w u]) ts).flatMap rows).Perm ((w u).rows ++ others) ∧
      (substitute p (fun u => [w u]) ts).map topId = ts.map topId := by
  cases ts with
  | nil => cases has
  | cons t ts =>
    rw [List.flatMap_cons, List.nodup_append'] at distinct
    obtain ⟨here, there, apart⟩ := distinct
    rw [List.flatMap_cons, List.mem_append] at has
    rw [substitute_cons]
    by_cases inside : p ∈ t.ids
    · have lacks : ∀ u ∈ ts, Lacks p u := fun u member => lacks_iff.2 fun both =>
        apart inside (List.mem_flatMap.2 ⟨u, member, both⟩)
      rw [substitute_of_lacks lacks, replaced]
      by_cases top : topId t = p
      · rw [if_pos top]
        exact ⟨t, by simp [Tree.mem_subtrees_self], ts.flatMap rows, top, .refl _, .refl _, by simp [same]⟩
      · obtain ⟨u, below, others, found, before, after⟩ := substituteBelow_rows t same here top inside
        rw [if_neg top]
        refine ⟨u, List.mem_append_left _ below, others ++ ts.flatMap rows, found, ?_, ?_, ?_⟩
        · rw [List.flatMap_cons, ← List.append_assoc]
          exact before.append_right _
        · rw [List.flatMap_append, List.flatMap_singleton, ← List.append_assoc]
          exact after.append_right _
        · cases t
          rfl
    · obtain ⟨u, below, others, found, before, after, tops⟩ :=
        substitute_rows ts same there (has.resolve_left inside)
      rw [replaced_of_lacks (lacks_iff.2 inside)]
      refine ⟨u, List.mem_append_right _ below, t.rows ++ others, found, ?_, ?_, by simp [tops]⟩
      · exact (before.append_left _).trans (List.perm_append_comm_assoc _ _ _)
      · exact (after.append_left _).trans (List.perm_append_comm_assoc _ _ _)

end

end NumberedTree

end LocatedHtml
