import LocatedHtml.Proofs.Forest.Copies
import LocatedHtml.Proofs.Forest.Rows

/-!
What the changes to a forest do to its rows. Nothing is lost in a forest, so its numbers are all numbers
that have been given out.
-/

namespace LocatedHtml

open NumberedTree

namespace NumberedTree

theorem rows_eq (t : NumberedTree) : t.rows = t.row :: t.children.flatMap rows := by
  cases t
  exact rows_node _ _

theorem rows_addLast (t u : NumberedTree) : (addLast t u).rows.Perm
    (⟨u.topId, u.value.2, u.belowTop ++ [t.topId]⟩ :: (u.children.flatMap rows ++ t.rows)) := by
  simp [addLast, rows_node, belowTop, topId]

theorem rows_addBefore (target : NodeId) (t u : NumberedTree) : (addBefore target t u).rows.Perm
    (⟨u.topId, u.value.2, u.belowTop.takeWhile (· != target) ++
      t.topId :: u.belowTop.dropWhile (· != target)⟩ :: (u.children.flatMap rows ++ t.rows)) := by
  have inside : u.children.flatMap rows = (u.children.takeWhile (·.value.1 != target)).flatMap rows ++
      (u.children.dropWhile (·.value.1 != target)).flatMap rows := by
    rw [← List.flatMap_append, List.takeWhile_append_dropWhile]
  rw [addBefore, rows_node, belowTop, List.takeWhile_map, List.dropWhile_map, List.map_append, List.map_cons,
    List.flatMap_append, List.flatMap_cons, inside, List.append_assoc]
  exact (List.perm_append_comm.append_left _).cons _

end NumberedTree

namespace Forest

variable {f : Forest} {n p c : NodeId} {t taken : NumberedTree} {rest : List NumberedTree} {r : Row}

/-- All nodes of a forest in rows. -/
def rows (f : Forest) : List Row := f.roots.flatMap NumberedTree.rows

/-- Every number that has been given out is in the forest once. -/
def Full (f : Forest) : Prop := (f.rows.map Row.number).Perm (List.range f.next)

theorem rows_eq (f : Forest) : f.rows = f.subtrees.map row := by
  rw [rows, subtrees_eq, List.map_flatMap]
  rfl

theorem numbers_rows (f : Forest) : f.rows.map Row.number = f.subtrees.map topId := by
  rw [rows_eq, List.map_map]
  rfl

namespace Full

variable (full : f.Full)
include full

theorem nodup : (f.roots.flatMap ids).Nodup := by
  rw [← numbers_flatMap_rows]
  exact full.nodup_iff.2 List.nodup_range

theorem mem_iff : n ∈ f.roots.flatMap ids ↔ n < f.next := by
  rw [← numbers_flatMap_rows, ← List.mem_range]
  exact List.Perm.mem_iff full

theorem lt_of_row (member : r ∈ f.rows) : r.number < f.next :=
  List.mem_range.1 ((List.Perm.mem_iff full).1 (List.mem_map_of_mem member))

theorem lt_of_find? (found : f.find? n = some t) : n < f.next := by
  obtain ⟨top, root, inside, below⟩ := find?_eq_some found
  exact full.mem_iff.1 (List.mem_flatMap.2 ⟨root, inside, List.mem_map.2 ⟨t, below, top⟩⟩)

theorem numbered : f.Numbered where
  nodup := full.nodup
  bounded := fun t member _ below => full.mem_iff.1 (List.mem_flatMap.2 ⟨t, member, List.mem_map_of_mem below⟩)

/-- A tree that is taken out leaves its number in no row. -/
theorem take (known : c < f.next) : ∃ taken rest, takeFrom c f.roots = some (taken, rest) ∧ topId taken = c ∧
    (f.rows.map (Row.without c)).Perm (taken.rows ++ rest.flatMap NumberedTree.rows) := by
  obtain ⟨⟨taken, rest⟩, took⟩ := Option.isSome_iff_exists.1 (takeFrom_isSome f.roots (full.mem_iff.2 known))
  obtain ⟨top, _, perm⟩ := takeFrom_rows f.roots full.nodup took
  exact ⟨taken, rest, took, top, perm⟩

theorem detach_rows (known : c < f.next) : (f.detach c).rows.Perm (f.rows.map (Row.without c)) := by
  obtain ⟨taken, rest, took, _, perm⟩ := full.take known
  rw [detach, took]
  exact perm.symm

/-- What is not in the tree that was taken out is in the rest. -/
theorem rest_numbers
    (perm : (f.rows.map (Row.without c)).Perm (taken.rows ++ rest.flatMap NumberedTree.rows)) :
    (rest.flatMap ids).Nodup ∧ ∀ {p}, p < f.next → p ∉ ids taken → p ∈ rest.flatMap ids := by
  have numbers : (ids taken ++ rest.flatMap ids).Perm (List.range f.next) := by
    rw [← NumberedTree.numbers_rows, ← numbers_flatMap_rows, ← List.map_append]
    refine (perm.map _).symm.trans ?_
    rw [List.map_map]
    exact full
  constructor
  · exact (List.nodup_append'.1 (numbers.nodup_iff.2 List.nodup_range)).2.1
  · intro p known outside
    have has := numbers.mem_iff.2 (List.mem_range.2 known)
    exact (List.mem_append.1 has).resolve_left outside

theorem find?_row (known : n < f.next) : ∃ t, f.find? n = some t ∧ t.topId = n ∧ t.row ∈ f.rows := by
  obtain ⟨root, inside, has⟩ := List.mem_flatMap.1 (full.mem_iff.2 known)
  obtain ⟨t, found⟩ := find?_isSome inside has
  obtain ⟨top, root, inside, below⟩ := find?_eq_some found
  refine ⟨t, found, top, ?_⟩
  rw [rows_eq, subtrees_eq]
  exact List.mem_map_of_mem (List.mem_flatMap.2 ⟨root, inside, below⟩)

/-- To change one tree of a forest changes the rows of that tree. -/
theorem substitute_rows {w : NumberedTree → NumberedTree} (same : ∀ u, topId (w u) = topId u)
    (found : f.find? n = some t) :
    ∃ others, f.rows.Perm (t.rows ++ others) ∧
      ((substitute n (fun u => [w u]) f.roots).flatMap NumberedTree.rows).Perm ((w t).rows ++ others) := by
  obtain ⟨top, root, inside, below⟩ := find?_eq_some found
  have has : n ∈ f.roots.flatMap ids :=
    List.mem_flatMap.2 ⟨root, inside, List.mem_map.2 ⟨t, below, top⟩⟩
  obtain ⟨u, member, others, number, before, after, _⟩ :=
    NumberedTree.substitute_rows f.roots same full.nodup has
  have found' := find?_eq full.numbered.distinct (by rwa [subtrees_eq])
  rw [number, found, Option.some.injEq] at found'
  subst found'
  exact ⟨others, before, after⟩

end Full

/-- To put a tree that was taken out into the rest changes the row of the node that it is put into. -/
theorem attach_rows (w : NumberedTree → NumberedTree) (place : List NodeId → List NodeId)
    (same : ∀ u, topId (w u) = topId u)
    (shape : ∀ u, (w u).rows.Perm
      (⟨u.topId, u.value.2, place u.belowTop⟩ :: (u.children.flatMap NumberedTree.rows ++ taken.rows)))
    (perm : (f.rows.map (Row.without c)).Perm (taken.rows ++ rest.flatMap NumberedTree.rows))
    (distinct : (rest.flatMap ids).Nodup) (has : p ∈ rest.flatMap ids) :
    ∃ v ks others, (f.rows.map (Row.without c)).Perm (⟨p, v, ks⟩ :: others) ∧
      ((substitute p (fun u => [w u]) rest).flatMap NumberedTree.rows).Perm (⟨p, v, place ks⟩ :: others) := by
  obtain ⟨u, _, others, rfl, before, after, _⟩ := NumberedTree.substitute_rows rest same distinct has
  refine ⟨u.value.2, belowTop u, u.children.flatMap NumberedTree.rows ++ taken.rows ++ others, ?_, ?_⟩
  · rw [NumberedTree.rows_eq] at before
    refine perm.trans ((before.append_left _).trans ?_)
    rw [List.cons_append, List.append_assoc]
    exact List.perm_middle.trans ((List.perm_append_comm_assoc _ _ _).cons _)
  · exact after.trans ((shape u).append_right _)

variable {target : NodeId}

theorem append_rows (full : f.Full) (took : takeFrom c f.roots = some (taken, rest)) (top : topId taken = c)
    (perm : (f.rows.map (Row.without c)).Perm (taken.rows ++ rest.flatMap NumberedTree.rows))
    (has : p ∈ rest.flatMap ids) :
    ∃ v ks others, (f.rows.map (Row.without c)).Perm (⟨p, v, ks⟩ :: others) ∧
      (f.append p c).rows.Perm (⟨p, v, ks ++ [c]⟩ :: others) ∧ (f.append p c).next = f.next := by
  obtain ⟨root, inside, below⟩ := List.mem_flatMap.1 has
  obtain ⟨u, found⟩ := find?_isSome (f := { f with roots := rest }) inside below
  obtain ⟨v, ks, others, before, after⟩ := attach_rows (addLast taken) (fun ks => ks ++ [c])
    (fun _ => rfl) (fun u => by rw [← top]; exact rows_addLast taken u) perm (full.rest_numbers perm).1 has
  refine ⟨v, ks, others, before, ?_⟩
  rw [append, took]
  dsimp only
  rw [found, Option.isSome_some, if_pos rfl]
  exact ⟨after, rfl⟩

theorem insertBefore_rows (full : f.Full) (took : takeFrom c f.roots = some (taken, rest))
    (top : topId taken = c)
    (perm : (f.rows.map (Row.without c)).Perm (taken.rows ++ rest.flatMap NumberedTree.rows))
    (child : target ∈ ({ f with roots := rest } : Forest).childIds p) :
    ∃ v ks others, (f.rows.map (Row.without c)).Perm (⟨p, v, ks⟩ :: others) ∧
      (f.insertBefore p target c).2 = none ∧
      (f.insertBefore p target c).1.rows.Perm
        (⟨p, v, ks.takeWhile (· != target) ++ c :: ks.dropWhile (· != target)⟩ :: others) ∧
      (f.insertBefore p target c).1.next = f.next := by
  have has : p ∈ rest.flatMap ids := by
    unfold childIds at child
    split at child
    · next u found =>
      obtain ⟨same, root, inside, below⟩ := find?_eq_some found
      exact List.mem_flatMap.2 ⟨root, inside, List.mem_map.2 ⟨u, below, same⟩⟩
    · cases child
  obtain ⟨v, ks, others, before, after⟩ :=
    attach_rows (addBefore target taken)
      (fun ks => ks.takeWhile (· != target) ++ c :: ks.dropWhile (· != target)) (fun _ => rfl) (fun u => by rw [← top]; exact rows_addBefore target taken u) perm
      (full.rest_numbers perm).1 has
  refine ⟨v, ks, others, before, ?_⟩
  rw [insertBefore, took]
  dsimp only
  rw [if_pos (List.contains_iff_mem.2 child)]
  exact ⟨rfl, after, rfl⟩

theorem insertBefore_refused (took : takeFrom c f.roots = some (taken, rest))
    (absent : target ∉ ({ f with roots := rest } : Forest).childIds p) :
    f.insertBefore p target c =
      (f.detach c, some (.notAChild ((f.detach c).description target) ((f.detach c).description p))) := by
  rw [insertBefore, detach, took]
  dsimp only
  rw [if_neg (by rwa [List.contains_iff_mem])]

/-- To change what a node holds changes its row alone. -/
theorem withContent_rows (full : f.Full) (found : f.find? n = some t) (content : Content) :
    ∃ others, f.rows.Perm (t.row :: others) ∧
      ((substitute n (fun u => [withContent content u]) f.roots).flatMap NumberedTree.rows).Perm
        (⟨t.topId, { t.value.2 with content := content }, t.belowTop⟩ :: others) := by
  obtain ⟨others, before, after⟩ := full.substitute_rows (w := withContent content) (fun _ => rfl) found
  rw [NumberedTree.rows_eq] at before
  rw [withContent, rows_node] at after
  exact ⟨t.children.flatMap NumberedTree.rows ++ others, before, after⟩

/-- To give a node a text as its only child changes its row and adds one; the children stay in the forest. -/
theorem leaf_rows (full : f.Full) (found : f.find? n = some t) (leaf : Node) :
    ∃ others, f.rows.Perm (t.row :: others) ∧
      ((substitute n (fun u => [.node u.value [.node (f.next, leaf) []]]) f.roots ++
        t.children).flatMap NumberedTree.rows).Perm
        (⟨t.topId, t.value.2, [f.next]⟩ :: ⟨f.next, leaf, []⟩ :: others) := by
  obtain ⟨others, before, after⟩ := full.substitute_rows
    (w := fun u => .node u.value [.node (f.next, leaf) []]) (fun _ => rfl) found
  rw [NumberedTree.rows_eq] at before
  simp only [rows_node, List.map_cons, List.map_nil, List.flatMap_cons, List.flatMap_nil,
    List.append_nil] at after
  refine ⟨t.children.flatMap NumberedTree.rows ++ others, before, ?_⟩
  rw [List.flatMap_append]
  refine (after.append_right _).trans ?_
  exact (List.perm_append_comm.cons _).cons _

theorem plant_rows (f : Forest) (t : HtmlTree) :
    (f.plant t).rows = f.rows ++ NumberedTree.rows (t.number f.next) := by
  simp [rows, plant]

theorem full_empty : Full {} := .nil

theorem Full.plant (full : f.Full) (t : HtmlTree) : (f.plant t).Full := by
  rw [Full, plant_rows, List.map_append, NumberedTree.numbers_rows, ids_number, Forest.plant,
    List.range_eq_range', ← List.range'_append_1, Nat.zero_add, ← List.range_eq_range']
  exact full.append_right _

theorem full_plantAll (trees : List HtmlTree) : (trees.foldl plant {}).Full := by
  suffices ∀ f : Forest, f.Full → (trees.foldl Forest.plant f).Full from this {} full_empty
  induction trees with
  | nil => exact fun _ full => full
  | cons t trees ih => exact fun f full => ih (f.plant t) (full.plant t)

end Forest

end LocatedHtml
