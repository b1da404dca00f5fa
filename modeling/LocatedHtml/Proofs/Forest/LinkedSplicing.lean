import LocatedHtml.Forest.LinkedSplice
import LocatedHtml.Proofs.Forest.LinkedForest
import LocatedHtml.Proofs.Forest.Thinning

/-!
Nodes taken out of a tree along its links, one after the other. While a node is taken out its children move
one by one to its parent; the forest that the links mirror is thinned by one node.
-/

namespace LocatedHtml

open NumberedTree

namespace Links

variable {s : Links} {n p c q : NodeId} {v w : Node} {rows others : List Row} {cs front back : List NodeId}

@[simp] theorem node?_insertBefore (s : Links) (p target c m : NodeId) :
    (s.insertBefore p target c).1.node? m = s.node? m := by
  have removed := node?_remove s c m
  unfold insertBefore
  split
  · next after e result => rwa [result] at removed
  · next after result =>
    rw [result] at removed
    split
    · exact removed
    · rwa [node?_setParent, node?_setChildren]

theorem insertAll_cons (fine : (s.insertBefore p n c).2 = none) :
    s.insertAll p n (c :: cs) = (s.insertBefore p n c).1.insertAll p n cs := by
  rw [insertAll]
  split
  · next after e result =>
    rw [result] at fine
    cases fine
  · next after result => rw [result]

/-- A node whose children can be moved leaves them to its parent and its parent without them. -/
theorem spliceOut_of_child (child : s.parent? n = some p) (fine : (s.insertAll p n (s.children n)).2 = none)
    (gone : ((s.insertAll p n (s.children n)).1.remove n).2 = none) :
    s.spliceOut n = (((s.insertAll p n (s.children n)).1.remove n).1, none) := by
  rw [spliceOut, child]
  dsimp only
  split
  · next after e result =>
    rw [result] at fine
    cases fine
  · next after result =>
    rw [result] at gone ⊢
    rw [gone]
    rfl

theorem spliceAll_cons {ns : List NodeId} (fine : (s.spliceOut n).2 = none) :
    s.spliceAll (n :: ns) = (s.spliceOut n).1.spliceAll ns := by
  rw [spliceAll]
  split
  · next after e result =>
    rw [result] at fine
    cases fine
  · next after result => rw [result]

theorem removeInjected_eq (fine : (s.spliceAll ((s.walk n).filter s.isInjected)).2 = none) :
    s.removeInjected n = ((s.spliceAll ((s.walk n).filter s.isInjected)).1,
      .ok ((s.walk n).filter s.isInjected).length) := by
  rw [removeInjected]
  split
  · next after e result =>
    rw [result] at fine
    cases fine
  · next after result => rw [result]

namespace Shows

/-- The children of a node move to the front of it, below its parent, in their order. -/
theorem insertAll (shown : s.Shows (⟨p, v, front ++ n :: back⟩ :: ⟨n, w, cs⟩ :: others)) :
    (s.insertAll p n cs).2 = none ∧
      (s.insertAll p n cs).1.Shows (⟨p, v, front ++ cs ++ n :: back⟩ :: ⟨n, w, []⟩ :: others) := by
  induction cs generalizing s front with
  | nil =>
    rw [List.append_nil]
    exact ⟨rfl, shown⟩
  | cons c cs ih =>
    have apart := shown.apart
    rw [List.flatMap_cons, List.flatMap_cons, List.nodup_append', List.cons_append, List.nodup_cons,
      List.mem_append, not_or] at apart
    obtain ⟨siblings, ⟨⟨last, elsewhere⟩, _⟩, separate⟩ := apart
    have absent : c ∉ front ++ n :: back := fun member => separate member List.mem_cons_self
    have first : n ∉ front := fun member =>
      (List.nodup_append'.1 siblings).2.2 member List.mem_cons_self
    -- the child is taken from the row of the node and from no other one
    have left : (⟨p, v, front ++ n :: back⟩ :: ⟨n, w, c :: cs⟩ :: others).map (Row.without c) =
        ⟨p, v, front ++ n :: back⟩ :: ⟨n, w, cs⟩ :: others := by
      rw [List.map_cons, List.map_cons, Row.without_of_not_mem absent,
        map_without fun r member below => elsewhere (List.mem_flatMap.2 ⟨r, member, below⟩), Row.without,
        List.erase_cons_head]
    have known : c < s.nodes.length := lt_of_parent? ((shown.parent? c n).2
      ⟨⟨n, w, c :: cs⟩, List.mem_cons_of_mem _ List.mem_cons_self, rfl, List.mem_cons_self⟩)
    obtain ⟨fine, moved⟩ := shown.insertBefore (.of_eq left) known
      (List.mem_append_right front (List.mem_cons_self (a := n) (l := back)))
    have place : (front ++ n :: back).takeWhile (· != n) ++ c :: (front ++ n :: back).dropWhile (· != n) =
        front ++ [c] ++ n :: back := by
      have before : ∀ k ∈ front, (k != n) = true := fun k member => bne_iff_ne.2 fun same => first (same ▸ member)
      rw [List.takeWhile_append_of_pos before, List.dropWhile_append_of_pos before]
      simp
    rw [place] at moved
    obtain ⟨fine', done⟩ := ih moved
    rw [insertAll_cons fine]
    exact ⟨fine', by simpa using done⟩

/-- The rows of a node and its parent. -/
theorem exists_rows (shown : s.Shows rows) (child : s.parent? n = some p) (other : p ≠ n) :
    ∃ v front back w others,
      rows.Perm (⟨p, v, front ++ n :: back⟩ :: ⟨n, w, s.children n⟩ :: others) := by
  classical
  have below := shown.parent?_iff.1 child
  obtain ⟨v, ks, rest, perm⟩ := shown.exists_row (lt_of_mem_children below)
  have shown' := shown.perm perm
  have parent : s.children p = ks := shown'.children _ List.mem_cons_self
  obtain ⟨r, member, number⟩ := shown'.lt_iff.1 (lt_of_parent? child)
  rcases List.mem_cons.1 member with rfl | member
  · exact absurd number other
  have own := shown'.children r (List.mem_cons_of_mem _ member)
  obtain ⟨m, w, cs⟩ := r
  obtain rfl : n = m := number.symm
  obtain ⟨front, back, split⟩ := List.append_of_mem below
  refine ⟨v, front, back, w, rest.erase ⟨n, w, cs⟩, ?_⟩
  rw [← split, parent, own]
  exact perm.trans ((List.perm_cons_erase member).cons _)

/-- A node leaves its children to its parent. -/
theorem spliceOut (shown : s.Shows rows) (child : s.parent? n = some p) (other : p ≠ n) :
    (s.spliceOut n).2 = none ∧ (s.spliceOut n).1.Shows (rows.map (Row.lift n (s.children n))) := by
  obtain ⟨v, front, back, w, others, perm⟩ := shown.exists_rows child other
  have shown' := shown.perm perm
  obtain ⟨fine, raised⟩ := shown'.insertAll
  obtain ⟨gone, left⟩ := raised.remove n
  rw [spliceOut_of_child child fine gone]
  refine ⟨rfl, left.perm (.trans (.of_eq ?_) (perm.map _).symm)⟩
  have apart := shown'.apart
  rw [List.flatMap_cons, List.flatMap_cons, List.nodup_append'] at apart
  obtain ⟨siblings, _, separate⟩ := apart
  obtain ⟨_, fresh, before⟩ := List.nodup_append'.1 siblings
  have outside : n ∉ s.children n ++ others.flatMap Row.children := fun member =>
    separate (List.mem_append_right front List.mem_cons_self) member
  have first : n ∉ front := fun member => before member List.mem_cons_self
  rw [List.mem_append, not_or] at outside
  have elsewhere : ∀ r ∈ others, r.number ≠ n ∧ n ∉ r.children := fun r member =>
    ⟨(shown'.perm (.swap _ _ _)).number_ne (List.mem_cons_of_mem _ member),
      fun below => outside.2 (List.mem_flatMap.2 ⟨r, member, below⟩)⟩
  have parent : (front ++ s.children n ++ n :: back).erase n = front ++ s.children n ++ back := by
    rw [List.erase_append_right _ (by simp [first, outside.1]), List.erase_cons_head]
  have place : (front ++ n :: back).flatMap (fun k => if k = n then s.children n else [k]) =
      front ++ s.children n ++ back := by
    rw [List.flatMap_append, List.flatMap_cons, if_pos rfl, flatMap_ite first,
      flatMap_ite (List.nodup_cons.1 fresh).1, List.append_assoc]
  rw [List.map_cons, List.map_cons, List.map_cons, List.map_cons,
    map_without fun r member => (elsewhere r member).2,
    List.map_congr_left fun r member => Row.lift_of_not_mem (elsewhere r member).1 (elsewhere r member).2,
    List.map_id', Row.without, Row.without, Row.lift, Row.lift, if_neg other, if_pos rfl, parent, place]
  rfl

/-- Only the children of the node get another parent: the parent of the node. -/
theorem parent?_spliceOut (shown : s.Shows rows) (child : s.parent? n = some p) (other : p ≠ n) :
    (s.spliceOut n).1.parent? c = some q ↔
      q ≠ n ∧ (c ≠ n ∧ s.parent? c = some q ∨ s.parent? n = some q ∧ s.parent? c = some n) := by
  rw [(shown.spliceOut child other).2.parent?]
  simp only [shown.parent?, List.mem_map]
  constructor
  · rintro ⟨_, ⟨r, member, rfl⟩, rfl, below⟩
    obtain ⟨stays, ⟨apart, own⟩ | ⟨above, lifted⟩⟩ := Row.mem_lift.1 below
    · exact ⟨stays, .inl ⟨apart, r, member, rfl, own⟩⟩
    · exact ⟨stays, .inr ⟨⟨r, member, rfl, above⟩, shown.mem_children.1 lifted⟩⟩
  · rintro ⟨stays, ⟨apart, r, member, rfl, own⟩ | ⟨⟨r, member, rfl, above⟩, lifted⟩⟩
    · exact ⟨_, ⟨r, member, rfl⟩, rfl, Row.mem_lift.2 ⟨stays, .inl ⟨apart, own⟩⟩⟩
    · exact ⟨_, ⟨r, member, rfl⟩, rfl, Row.mem_lift.2 ⟨stays, .inr ⟨above, shown.mem_children.2 lifted⟩⟩⟩

/-- A node that has a parent keeps one when another node is taken out. -/
theorem exists_parent_spliceOut (shown : s.Shows rows) (child : s.parent? n = some p) (other : p ≠ n)
    (apart : c ≠ n) (linked : s.parent? c = some q) : ∃ m, (s.spliceOut n).1.parent? c = some m := by
  by_cases here : q = n
  · exact ⟨p, (shown.parent?_spliceOut child other).2 ⟨other, .inr ⟨child, here ▸ linked⟩⟩⟩
  · exact ⟨q, (shown.parent?_spliceOut child other).2 ⟨here, .inl ⟨apart, linked⟩⟩⟩

end Shows

theorem node?_insertAll (s : Links) (p target m : NodeId) (cs : List NodeId) :
    (s.insertAll p target cs).1.node? m = s.node? m := by
  induction cs generalizing s with
  | nil => rfl
  | cons c cs ih =>
    have moved := node?_insertBefore s p target c m
    rw [insertAll]
    split
    · next after e result => rwa [result] at moved
    · next after result =>
      rw [result] at moved
      exact (ih after).trans moved

theorem node?_spliceOut (s : Links) (n m : NodeId) : (s.spliceOut n).1.node? m = s.node? m := by
  unfold spliceOut
  split
  · rfl
  · next child _ _ _ =>
    have removed := node?_remove s child m
    split
    · next after e result => rwa [result] at removed
    · next after result => rwa [result] at removed
  · next parent _ =>
    have moved := node?_insertAll s parent n m (s.children n)
    split
    · next after e result => rwa [result] at moved
    · next after result =>
      rw [result] at moved
      exact (node?_remove after n m).trans moved

theorem node?_spliceAll (s : Links) (ns : List NodeId) (m : NodeId) : (s.spliceAll ns).1.node? m = s.node? m := by
  induction ns generalizing s with
  | nil => rfl
  | cons n ns ih =>
    have spliced := node?_spliceOut s n m
    rw [spliceAll]
    split
    · next after e result => rwa [result] at spliced
    · next after result =>
      rw [result] at spliced
      exact (ih after).trans spliced

/-- The node is the nearest one above another of those that do not go. -/
inductive NearestKept (s : Links) (gone : NodeId → Prop) : NodeId → NodeId → Prop
  | parent {c p : NodeId} (linked : s.parent? c = some p) (stays : ¬ gone p) : NearestKept s gone c p
  | above {c q p : NodeId} (linked : s.parent? c = some q) (goes : gone q) (further : NearestKept s gone q p) :
    NearestKept s gone c p

/-- What is nearest above a node stays so when one of the nodes that go has gone. -/
theorem Shows.nearestKept_spliceOut {gone : NodeId → Prop} {m : NodeId} (shown : s.Shows rows)
    (child : s.parent? n = some m) (other : m ≠ n) :
    (s.spliceOut n).1.NearestKept gone c p ↔ c ≠ n ∧ s.NearestKept (fun q => q = n ∨ gone q) c p := by
  have parents {c q : NodeId} := shown.parent?_spliceOut (c := c) (q := q) child other
  have apart {c : NodeId} (below : s.parent? c = some n) : c ≠ n := by
    rintro rfl
    exact other (Option.some.inj (child.symm.trans below))
  constructor
  · intro nearest
    induction nearest with
    | parent linked stays =>
      obtain ⟨kept, ⟨own, linked⟩ | ⟨upper, below⟩⟩ := parents.1 linked
      · exact ⟨own, .parent linked fun goes => goes.elim kept stays⟩
      · exact ⟨apart below, .above below (.inl rfl) (.parent upper fun goes => goes.elim kept stays)⟩
    | above linked goes _ ih =>
      obtain ⟨_, ⟨own, linked⟩ | ⟨upper, below⟩⟩ := parents.1 linked
      · exact ⟨own, .above linked (.inr goes) ih.2⟩
      · exact ⟨apart below, .above below (.inl rfl) (.above upper (.inr goes) ih.2)⟩
  · rintro ⟨own, nearest⟩
    -- what is nearest above the node itself becomes nearest above its children
    suffices ∀ b, b = c ∧ c ≠ n ∨ c = n ∧ s.parent? b = some n → (s.spliceOut n).1.NearestKept gone b p from
      this c (.inl ⟨rfl, own⟩)
    clear own
    induction nearest with
    | parent linked stays =>
      rw [not_or] at stays
      rintro b (⟨rfl, own⟩ | ⟨rfl, below⟩)
      · exact .parent (parents.2 ⟨stays.1, .inl ⟨own, linked⟩⟩) stays.2
      · exact .parent (parents.2 ⟨stays.1, .inr ⟨linked, below⟩⟩) stays.2
    | @above c q p linked goes _ ih =>
      intro b place
      by_cases here : q = n
      · rw [here] at linked
        rcases place with ⟨rfl, _⟩ | ⟨rfl, _⟩
        · exact ih b (.inr ⟨here, linked⟩)
        · exact absurd rfl (apart linked)
      · have further := ih q (.inl ⟨rfl, here⟩)
        have later := goes.resolve_left here
        rcases place with ⟨rfl, own⟩ | ⟨rfl, below⟩
        · exact .above (parents.2 ⟨here, .inl ⟨own, linked⟩⟩) later further
        · exact .above (parents.2 ⟨here, .inr ⟨linked, below⟩⟩) later further

end Links

namespace Forest.Mirrors

variable {f : Forest} {s : Links} {n p : NodeId}

/-- No node is its own parent. -/
theorem parent_ne (mirrors : f.Mirrors s) (child : s.parent? n = some p) : p ≠ n := by
  rintro rfl
  obtain ⟨r, member, number, below⟩ := (mirrors.shown.parent? p p).1 child
  rw [rows_eq] at member
  obtain ⟨t, inside, rfl⟩ := List.mem_map.1 member
  obtain ⟨c, under, same⟩ := List.mem_map.1 below
  have among : c ∈ f.subtrees := by
    rw [subtrees_eq] at inside ⊢
    obtain ⟨root, top, inside⟩ := List.mem_flatMap.1 inside
    exact List.mem_flatMap.2 ⟨root, top, Tree.mem_subtrees_trans
      (Tree.mem_subtrees_iff.2 (.inr ⟨c, under, Tree.mem_subtrees_self c⟩)) inside⟩
  have distinct := mirrors.full.numbered.distinct
  have first := find?_eq distinct inside
  have second := find?_eq distinct among
  rw [same, ← number] at second
  change f.find? t.topId = some c at second
  rw [first, Option.some.injEq] at second
  exact Nat.lt_irrefl _ (second ▸ Tree.size_lt_of_mem_children under)

/-- To take one node out of its tree thins the forest by the node. -/
theorem spliceOut (mirrors : f.Mirrors s) {v : NodeId × Node} (node : s.node? v.1 = some v.2)
    (child : s.parent? v.1 = some p) : (s.spliceOut v.1).2 = none ∧
      Mirrors ⟨thinAll (·.1 == v.1) f.roots ++ [.node v []], f.next⟩ (s.spliceOut v.1).1 := by
  obtain ⟨fine, shown⟩ := mirrors.shown.spliceOut child (mirrors.parent_ne child)
  refine ⟨fine, ?_, shown.perm ?_⟩
  · rw [← shown.length_eq, List.length_map, mirrors.shown.length_eq, mirrors.length]
  · have thinned := thinAll_rows v.1 (s.children v.1) mirrors.full.nodup fun r member number => by
      rw [← number]
      exact (mirrors.shown.children r member).symm
    obtain ⟨w, ks, others, perm⟩ := mirrors.shown.exists_row (Links.lt_of_parent? child)
    have mine := mirrors.shown.perm perm
    have same : w = v.2 := Option.some.inj ((mine.node? _ List.mem_cons_self).symm.trans node)
    have row : (f.rows.filter (·.number == v.1)).map (Row.lift v.1 (s.children v.1)) = [⟨v.1, v.2, []⟩] := by
      have alone : others.filter (·.number == v.1) = [] :=
        List.filter_eq_nil_iff.2 fun r member => mt beq_iff_eq.1 (mine.number_ne member)
      have single := (perm.filter (·.number == v.1)).map (Row.lift v.1 (s.children v.1))
      rw [List.filter_cons_of_pos (p := fun r : Row => r.number == v.1) (beq_self_eq_true v.1), alone,
        List.map_singleton, Row.lift, if_pos rfl, same] at single
      exact List.perm_singleton.1 single
    refine thinned.symm.trans (.of_eq ?_)
    change _ ++ (f.rows.filter (·.number == v.1)).map (Row.lift v.1 (s.children v.1)) = List.flatMap _ _
    rw [row, List.flatMap_append, List.flatMap_singleton, rows_node]
    rfl

/-- To take some nodes out of their trees one after the other thins the forest by all of them. -/
theorem spliceAll {vs : List (NodeId × Node)} (mirrors : f.Mirrors s) (distinct : (vs.map Prod.fst).Nodup)
    (each : ∀ v ∈ vs, s.node? v.1 = some v.2 ∧ ∃ p, s.parent? v.1 = some p) :
    (s.spliceAll (vs.map Prod.fst)).2 = none ∧
      Mirrors ⟨thinAll (fun w => (vs.map Prod.fst).contains w.1) f.roots ++ vs.map fun v => .node v [], f.next⟩
        (s.spliceAll (vs.map Prod.fst)).1 ∧
      ∀ c p, (s.spliceAll (vs.map Prod.fst)).1.parent? c = some p ↔
        c ∉ vs.map Prod.fst ∧ s.NearestKept (· ∈ vs.map Prod.fst) c p := by
  induction vs generalizing f s with
  | nil =>
    have roots : thinAll (fun _ => false) f.roots ++ [] = f.roots := by
      rw [List.append_nil, thinAll_of_none fun _ _ _ _ => rfl]
    refine ⟨rfl, ?_, fun c p => ⟨fun linked => ⟨List.not_mem_nil, .parent linked List.not_mem_nil⟩, ?_⟩⟩
    · change Mirrors ⟨thinAll (fun _ => false) f.roots ++ [], f.next⟩ s
      rwa [roots]
    · rintro ⟨_, linked | ⟨_, ⟨⟩, _⟩⟩
      assumption
  | cons v vs ih =>
    rw [List.map_cons, List.nodup_cons] at distinct
    obtain ⟨⟨node, m, child⟩, others⟩ := List.forall_mem_cons.1 each
    have other := mirrors.parent_ne child
    obtain ⟨fine, step⟩ := mirrors.spliceOut node child
    have still : ∀ w ∈ vs, (s.spliceOut v.1).1.node? w.1 = some w.2 ∧
        ∃ p, (s.spliceOut v.1).1.parent? w.1 = some p := by
      intro w member
      obtain ⟨node', q, linked⟩ := others w member
      have apart : w.1 ≠ v.1 := fun same => distinct.1 (same ▸ List.mem_map_of_mem member)
      exact ⟨(Links.node?_spliceOut s v.1 w.1).trans node',
        mirrors.shown.exists_parent_spliceOut child other apart linked⟩
    obtain ⟨done, result, parents⟩ := ih step distinct.2 still
    rw [List.map_cons, Links.spliceAll_cons fine]
    refine ⟨done, ?_, fun c p => ?_⟩
    · have leaf : thinAll (fun w => (vs.map Prod.fst).contains w.1) [.node v []] = [.node v []] :=
        thinAll_of_none fun t member w inside => by
          rw [List.mem_singleton.1 member, values_node, List.flatMap_nil, List.mem_singleton] at inside
          rw [inside, ← Bool.not_eq_true, List.contains_iff_mem]
          exact distinct.1
      dsimp only at result
      rw [thinAll_append, thinAll_thinAll, leaf, List.append_assoc] at result
      exact result
    · rw [parents, mirrors.shown.nearestKept_spliceOut child other]
      simp only [List.mem_cons, not_or]
      exact and_left_comm.trans and_assoc.symm

end Forest.Mirrors

end LocatedHtml
