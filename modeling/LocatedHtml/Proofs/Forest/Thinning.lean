import LocatedHtml.Proofs.Forest.Edits

/-!
Trees some of whose nodes have left their children in their places. Nodes can leave one after the other as
well as together, and the nodes that stay keep their order.
-/

namespace LocatedHtml

/-- The row after a node with the given children has left them to its parent. -/
def Row.lift (n : NodeId) (cs : List NodeId) (r : Row) : Row :=
  { r with children := if r.number = n then [] else r.children.flatMap fun k => if k = n then cs else [k] }

/-- Nothing is put where the number is not. -/
theorem flatMap_ite {n : NodeId} {cs ks : List NodeId} (absent : n ∉ ks) :
    ks.flatMap (fun k => if k = n then cs else [k]) = ks := by
  have same : ∀ k ∈ ks, (if k = n then cs else [k]) = [k] := by
    intro k member
    refine if_neg ?_
    rintro rfl
    exact absent member
  rw [List.flatMap_congr same, List.flatMap_singleton']

theorem Row.lift_of_not_mem {n : NodeId} {cs : List NodeId} {r : Row} (other : r.number ≠ n)
    (absent : n ∉ r.children) : r.lift n cs = r := by
  rw [lift, if_neg other, flatMap_ite absent]

theorem Row.mem_lift {n c : NodeId} {cs : List NodeId} {r : Row} : c ∈ (r.lift n cs).children ↔
    r.number ≠ n ∧ (c ≠ n ∧ c ∈ r.children ∨ n ∈ r.children ∧ c ∈ cs) := by
  unfold lift
  by_cases here : r.number = n
  · simp [here]
  · dsimp only
    rw [if_neg here, List.mem_flatMap]
    constructor
    · rintro ⟨k, member, inside⟩
      split at inside
      · next same => exact ⟨here, .inr ⟨same ▸ member, inside⟩⟩
      · next other =>
        cases List.mem_singleton.1 inside
        exact ⟨here, .inl ⟨other, member⟩⟩
    · rintro ⟨_, ⟨other, member⟩ | ⟨member, inside⟩⟩
      · exact ⟨c, member, by rw [if_neg other]; exact List.mem_singleton_self c⟩
      · exact ⟨n, member, by rwa [if_pos rfl]⟩

namespace NumberedTree

mutual

/-- What takes the place of a tree when the nodes that go leave their children in their places. -/
def thin (goes : NodeId × Node → Bool) : NumberedTree → List NumberedTree
  | .node v cs => if goes v then thinAll goes cs else [.node v (thinAll goes cs)]

/-- What takes the place of some trees. -/
def thinAll (goes : NodeId × Node → Bool) : List NumberedTree → List NumberedTree
  | [] => []
  | t :: ts => thin goes t ++ thinAll goes ts

end

/-- The nodes of a tree with their numbers, in document order. -/
def values (t : NumberedTree) : List (NodeId × Node) := t.subtrees.map Tree.value

variable {g h : NodeId × Node → Bool} {t : NumberedTree} {n : NodeId}

theorem thinAll_eq (g : NodeId × Node → Bool) (ts : List NumberedTree) : thinAll g ts = ts.flatMap (thin g) := by
  induction ts with
  | nil => rfl
  | cons t ts ih => rw [thinAll, ih, List.flatMap_cons]

theorem thin_node (g : NodeId × Node → Bool) (v : NodeId × Node) (cs : List NumberedTree) :
    thin g (.node v cs) = if g v then cs.flatMap (thin g) else [.node v (cs.flatMap (thin g))] := by
  rw [thin, thinAll_eq]

theorem values_node (v : NodeId × Node) (cs : List NumberedTree) :
    values (.node v cs) = v :: cs.flatMap values := by
  rw [values, Tree.subtrees_node, List.map_cons, List.map_flatMap]
  rfl

theorem ids_eq (t : NumberedTree) : t.ids = t.values.map Prod.fst := by
  rw [values, List.map_map]
  rfl

/-- Which nodes go is a matter of the nodes of the tree alone. -/
theorem thin_congr (same : ∀ v ∈ t.values, g v = h v) : thin g t = thin h t := by
  induction t using Tree.induction with
  | node v cs ih =>
    rw [values_node, List.forall_mem_cons] at same
    have inside : cs.flatMap (thin g) = cs.flatMap (thin h) := List.flatMap_congr fun c child =>
      ih c child fun w member => same.2 w (List.mem_flatMap.2 ⟨c, child, member⟩)
    rw [thin_node, thin_node, same.1, inside]

/-- Where no node goes the tree stays as it is. -/
theorem thin_of_none (stay : ∀ v ∈ t.values, g v = false) : thin g t = [t] := by
  induction t using Tree.induction with
  | node v cs ih =>
    rw [values_node, List.forall_mem_cons] at stay
    have inside : cs.flatMap (thin g) = cs.flatMap fun c => [c] := List.flatMap_congr fun c child =>
      ih c child fun w member => stay.2 w (List.mem_flatMap.2 ⟨c, child, member⟩)
    rw [thin_node, stay.1, if_neg Bool.false_ne_true, inside, List.flatMap_singleton']

theorem thinAll_of_none {ts : List NumberedTree} (stay : ∀ t ∈ ts, ∀ v ∈ t.values, g v = false) :
    thinAll g ts = ts := by
  rw [thinAll_eq, List.flatMap_congr fun t member => thin_of_none (stay t member), List.flatMap_singleton']

/-- Some nodes may go before others. -/
theorem thin_thin (t : NumberedTree) : (thin g t).flatMap (thin h) = thin (fun v => g v || h v) t := by
  induction t using Tree.induction with
  | node v cs ih =>
    have inside : (cs.flatMap (thin g)).flatMap (thin h) = cs.flatMap (thin fun v => g v || h v) := by
      rw [List.flatMap_assoc]
      exact List.flatMap_congr ih
    rw [thin_node, thin_node]
    cases g v with
    | true => rw [if_pos rfl, Bool.true_or, if_pos rfl, inside]
    | false => rw [if_neg Bool.false_ne_true, List.flatMap_singleton, thin_node, inside, Bool.false_or]

theorem thinAll_thinAll (ts : List NumberedTree) : thinAll h (thinAll g ts) = thinAll (fun v => g v || h v) ts := by
  rw [thinAll_eq, thinAll_eq, thinAll_eq, List.flatMap_assoc]
  exact List.flatMap_congr fun t _ => thin_thin t

theorem thinAll_append (ts us : List NumberedTree) : thinAll g (ts ++ us) = thinAll g ts ++ thinAll g us := by
  rw [thinAll_eq, thinAll_eq, thinAll_eq, List.flatMap_append]

/-- The nodes that stay keep their order. -/
theorem values_thin (t : NumberedTree) : (thin g t).flatMap values = t.values.filter fun v => !g v := by
  induction t using Tree.induction with
  | node v cs ih =>
    have inside : (cs.flatMap (thin g)).flatMap values = (cs.flatMap values).filter fun v => !g v := by
      rw [List.flatMap_assoc, List.filter_flatMap]
      exact List.flatMap_congr ih
    rw [thin_node, values_node, List.filter_cons]
    cases g v with
    | true => exact inside
    | false =>
      rw [if_neg Bool.false_ne_true, List.flatMap_singleton, values_node, inside]
      rfl

theorem flatMap_values_thin (ts : List NumberedTree) :
    (ts.flatMap (thin g)).flatMap values = (ts.flatMap values).filter fun v => !g v := by
  rw [List.flatMap_assoc, List.filter_flatMap]
  exact List.flatMap_congr fun t _ => values_thin t

theorem perm_flatMap_thin {cs : List NodeId} {us : List NumberedTree}
    (each : ∀ u ∈ us, ((thin (·.1 == n) u).flatMap rows ++ (u.rows.filter (·.number == n)).map (Row.lift n cs)).Perm
      (u.rows.map (Row.lift n cs))) :
    ((us.flatMap (thin (·.1 == n))).flatMap rows ++
      ((us.flatMap rows).filter (·.number == n)).map (Row.lift n cs)).Perm
        ((us.flatMap rows).map (Row.lift n cs)) := by
  rw [List.flatMap_assoc, List.filter_flatMap, List.map_flatMap, List.map_flatMap]
  exact (List.flatMap_append_perm _ _ _).trans (List.Perm.flatMap_left _ each)

/-- The nodes that stay keep their numbers, and the parent of a node that goes gets its children. -/
theorem thin_rows {cs : List NodeId} (t : NumberedTree) (distinct : t.ids.Nodup)
    (known : ∀ r ∈ t.rows, r.number = n → r.children = cs) :
    (thin (·.1 == n) t).map topId = (if topId t = n then cs else [topId t]) ∧
      ((thin (·.1 == n) t).flatMap rows ++ (t.rows.filter (·.number == n)).map (Row.lift n cs)).Perm
        (t.rows.map (Row.lift n cs)) := by
  induction t using Tree.induction with
  | node v us ih =>
    rw [rows_node, List.forall_mem_cons] at known
    rw [ids_node, List.nodup_cons] at distinct
    have each : ∀ u ∈ us, _ ∧ _ := fun u child => ih u child ((List.nodup_flatMap.1 distinct.2).1 u child)
      fun r member => known.2 r (List.mem_flatMap.2 ⟨u, child, member⟩)
    have tops : (us.flatMap (thin (·.1 == n))).map topId =
        (us.map topId).flatMap fun k => if k = n then cs else [k] := by
      rw [List.map_flatMap, List.flatMap_map]
      exact List.flatMap_congr fun u child => (each u child).1
    have below := perm_flatMap_thin fun u child => (each u child).2
    rw [thin_node, rows_node, List.filter_cons, List.map_cons]
    by_cases goes : v.1 = n
    · have apart : us.map topId = cs := known.1 goes
      have same : (us.map topId).flatMap (fun k => if k = n then cs else [k]) = us.map topId :=
        flatMap_ite fun member => by
          obtain ⟨u, child, again⟩ := List.mem_map.1 member
          refine distinct.1 ?_
          rw [goes, ← again]
          exact List.mem_flatMap.2 ⟨u, child, topId_mem_ids u⟩
      rw [if_pos (beq_iff_eq.2 goes), tops, same, if_pos (beq_iff_eq.2 goes), List.map_cons, apart]
      exact ⟨(if_pos goes).symm, List.perm_middle.trans (below.cons _)⟩
    · have stays : ¬ (v.1 == n) = true := mt beq_iff_eq.1 goes
      rw [if_neg stays, if_neg stays, List.map_singleton, List.flatMap_singleton, rows_node, tops]
      refine ⟨(if_neg goes).symm, ?_⟩
      rw [Row.lift, if_neg goes]
      exact below.cons _

theorem thinAll_rows (n : NodeId) (cs : List NodeId) {ts : List NumberedTree} (distinct : (ts.flatMap ids).Nodup)
    (known : ∀ r ∈ ts.flatMap rows, r.number = n → r.children = cs) :
    ((thinAll (·.1 == n) ts).flatMap rows ++ ((ts.flatMap rows).filter (·.number == n)).map (Row.lift n cs)).Perm
      ((ts.flatMap rows).map (Row.lift n cs)) := by
  rw [thinAll_eq]
  exact perm_flatMap_thin fun t member => (thin_rows t ((List.nodup_flatMap.1 distinct).1 t member)
    fun r inside => known r (List.mem_flatMap.2 ⟨t, member, inside⟩)).2

/-- A node that is injected where it has a parent. -/
abbrev goesBelow (v : NodeId × Node) : Bool := v.2.isInjected true

/-- The nodes of the children of a node that go, in document order. -/
abbrev leaving (cs : List NumberedTree) : List (NodeId × Node) := (cs.flatMap values).filter goesBelow

/-- When the nodes that go have gone, none is left to go. -/
theorem leaving_thin (cs : List NumberedTree) : leaving (cs.flatMap (thin goesBelow)) = [] := by
  rw [leaving, flatMap_values_thin, List.filter_filter, List.filter_eq_nil_iff]
  intro v _
  rw [Bool.and_not_self]
  exact Bool.false_ne_true

theorem splice_below (t : NumberedTree) : splice true t = thin goesBelow t := by
  induction t using Tree.induction with
  | node v cs ih => rw [splice, spliceAll_eq, thin_node, List.flatMap_congr ih]

/-- The top of a tree without a parent stays. -/
theorem splice_top (v : NodeId × Node) (cs : List NumberedTree) :
    splice false (.node v cs) = [.node v (cs.flatMap (thin goesBelow))] := by
  have stays : v.2.isInjected false = false := rfl
  rw [splice, stays, if_neg Bool.false_ne_true, spliceAll_eq, List.flatMap_congr fun c _ => splice_below c]

theorem injected_top (v : NodeId × Node) (cs : List NumberedTree) :
    injected false (.node v cs) = (leaving cs).map fun w => .node w [] := by
  let pick (place : Nat × NumberedTree) : Option NumberedTree :=
    if place.2.value.2.isInjected (false || decide (0 < place.1)) then some (.node place.2.value []) else none
  have below (depth : Nat) (t : NumberedTree) :
      (Tree.walk [(depth + 1, t)]).filterMap pick = (t.values.filter goesBelow).map fun w => .node w [] := by
    induction t using Tree.induction generalizing depth with
    | node w us ih =>
      have inside : (us.flatMap fun u => Tree.walk [(depth + 1 + 1, u)]).filterMap pick =
          ((us.flatMap values).filter goesBelow).map fun w => .node w [] := by
        rw [List.filterMap_flatMap, List.filter_flatMap, List.map_flatMap]
        exact List.flatMap_congr fun u child => ih u child (depth + 1)
      have here : pick (depth + 1, .node w us) = if goesBelow w then some (.node w []) else none := rfl
      rw [Tree.walk_node, values_node, List.filterMap_cons, here, List.filter_cons, inside]
      cases goesBelow w <;> rfl
  have top : pick (0, .node v cs) = none := rfl
  change (Tree.walk [(0, .node v cs)]).filterMap pick = _
  rw [Tree.walk_node, List.filterMap_cons, top, leaving, List.filterMap_flatMap, List.filter_flatMap, List.map_flatMap]
  exact List.flatMap_congr fun c _ => below 0 c

end NumberedTree

end LocatedHtml
