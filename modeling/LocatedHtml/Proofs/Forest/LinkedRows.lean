import LocatedHtml.Forest.Links
import LocatedHtml.Proofs.Forest.Rows

/-!
Links that show rows: each node knows the children that its row has, and the node in whose row it is. Every
change to links changes the rows that they show.
-/

namespace LocatedHtml

namespace Links

variable {s : Links} {n m p c target : NodeId} {ks : List NodeId} {rows others : List Row} {v : Node}

section Setters

variable (s) (n) (parent : Option NodeId) (content : Content)

@[simp] theorem length_setContent : (s.setContent n content).nodes.length = s.nodes.length := by
  simp [setContent]

@[simp] theorem length_setParent : (s.setParent n parent).nodes.length = s.nodes.length := by
  simp [setParent]

@[simp] theorem length_setChildren : (s.setChildren n ks).nodes.length = s.nodes.length := by
  simp [setChildren]

@[simp] theorem node?_setParent : (s.setParent n parent).node? m = s.node? m := by
  simp only [node?, setParent, List.getElem?_modify]
  cases s.nodes[m]? <;> simp [apply_ite]

@[simp] theorem node?_setChildren : (s.setChildren n ks).node? m = s.node? m := by
  simp only [node?, setChildren, List.getElem?_modify]
  cases s.nodes[m]? <;> simp [apply_ite]

@[simp] theorem children_setParent : (s.setParent n parent).children m = s.children m := by
  simp only [children, setParent, List.getElem?_modify]
  cases s.nodes[m]? <;> simp [apply_ite]

@[simp] theorem parent?_setChildren : (s.setChildren n ks).parent? m = s.parent? m := by
  simp only [parent?, setChildren, List.getElem?_modify]
  split <;> cases s.nodes[m]? <;> rfl

@[simp] theorem parent?_setContent : (s.setContent n content).parent? m = s.parent? m := by
  simp only [parent?, setContent, List.getElem?_modify]
  split <;> cases s.nodes[m]? <;> rfl

@[simp] theorem children_setContent : (s.setContent n content).children m = s.children m := by
  simp only [children, setContent, List.getElem?_modify]
  cases s.nodes[m]? <;> simp [apply_ite]

variable {s} {n}

theorem node?_setContent : (s.setContent n content).node? m =
    if n = m then (s.node? m).map fun v => { v with content := content } else s.node? m := by
  simp only [node?, setContent, List.getElem?_modify]
  split <;> cases s.nodes[m]? <;> simp

theorem children_setChildren (known : n < s.nodes.length) :
    (s.setChildren n ks).children m = if n = m then ks else s.children m := by
  simp only [children, setChildren, List.getElem?_modify]
  split
  · next same =>
    subst same
    simp [known]
  · simp

theorem parent?_setParent (known : n < s.nodes.length) :
    (s.setParent n parent).parent? m = if n = m then parent else s.parent? m := by
  simp only [Links.parent?, setParent, List.getElem?_modify]
  split
  · next same =>
    subst same
    simp [known]
  · simp

end Setters

theorem lt_of_parent? (linked : s.parent? c = some p) : c < s.nodes.length := by
  by_contra beyond
  simp [Links.parent?, List.getElem?_eq_none (Nat.le_of_not_lt beyond)] at linked

theorem lt_of_mem_children (child : c ∈ s.children p) : p < s.nodes.length := by
  by_contra beyond
  simp [Links.children, List.getElem?_eq_none (Nat.le_of_not_lt beyond)] at child

theorem children_eq_nil (beyond : s.nodes.length ≤ n) : s.children n = [] := by
  simp [Links.children, List.getElem?_eq_none beyond]

theorem parent?_setParent_none : (s.setParent n none).parent? m = if n = m then none else s.parent? m := by
  by_cases known : n < s.nodes.length
  · exact parent?_setParent none known
  · rw [setParent, List.modify_eq_self (Nat.le_of_not_lt known)]
    split
    · next same =>
      subst same
      exact Option.eq_none_iff_forall_ne_some.2 fun p linked => known (lt_of_parent? linked)
    · rfl

@[simp] theorem parent?_create (v : Node) : (s.create v).parent? c = s.parent? c := by
  unfold Links.parent? create
  dsimp only
  by_cases known : c < s.nodes.length
  · rw [List.getElem?_append_left known]
  · rw [List.getElem?_append_right (Nat.le_of_not_lt known), List.getElem?_eq_none (Nat.le_of_not_lt known)]
    cases c - s.nodes.length <;> rfl

theorem getElem?_create (v : Node) (known : n < s.nodes.length) : (s.create v).nodes[n]? = s.nodes[n]? :=
  List.getElem?_append_left known

theorem getElem?_create_last (v : Node) : (s.create v).nodes[s.nodes.length]? = some { node := v } := by
  simp [create]

/-- The links after some nodes have lost their parents. -/
theorem foldl_setParent (cs : List NodeId) (s : Links) :
    ∃ s', cs.foldl (fun s child => s.setParent child none) s = s' ∧ s'.nodes.length = s.nodes.length ∧
      (∀ m, s'.node? m = s.node? m) ∧ (∀ m, s'.children m = s.children m) ∧
      ∀ m, s'.parent? m = if m ∈ cs then none else s.parent? m := by
  induction cs generalizing s with
  | nil => exact ⟨s, rfl, rfl, by simp⟩
  | cons c cs ih =>
    obtain ⟨s', same, length, nodes, children, parents⟩ := ih (s.setParent c none)
    refine ⟨s', same, by simp [length], by simp [nodes], by simp [children], fun m => ?_⟩
    rw [parents, parent?_setParent_none]
    grind

theorem indexOf_eq (child : c ∈ s.children p) : s.indexOf p c = .ok ((s.children p).idxOf c) := by
  obtain ⟨i, first⟩ := Option.isSome_iff_exists.1 (List.isSome_idxOf?.2 child)
  rw [indexOf, List.idxOf_eq_getD_idxOf?, first, Option.getD_some]

theorem indexOf_eq_error (absent : c ∉ s.children p) :
    s.indexOf p c = .error (.notAChild (s.description c) (s.description p)) := by
  rw [indexOf, List.idxOf?_eq_none_iff.2 absent]

@[simp] theorem length_remove (s : Links) (n : NodeId) : (s.remove n).1.nodes.length = s.nodes.length := by
  unfold remove
  split
  · rfl
  · split <;> simp

theorem parent?_remove (fine : (s.remove n).2 = none) : (s.remove n).1.parent? n = none := by
  unfold remove at fine ⊢
  split
  · assumption
  · split
    · simp_all
    · rw [parent?_setParent_none, if_pos rfl]

theorem append_eq (fine : (s.remove c).2 = none) : s.append p c =
    (((s.remove c).1.setChildren p ((s.remove c).1.children p ++ [c])).setParent c (some p), none) := by
  unfold append
  split <;> simp_all

theorem insertBefore_eq (fine : (s.remove c).2 = none) (child : target ∈ (s.remove c).1.children p) :
    s.insertBefore p target c = (((s.remove c).1.setChildren p (((s.remove c).1.children p).insertIdx
      (((s.remove c).1.children p).idxOf target) c)).setParent c (some p), none) := by
  unfold insertBefore
  split
  · simp_all
  · next left same =>
    rw [same] at child ⊢
    rw [indexOf_eq child]

theorem insertBefore_refused (fine : (s.remove c).2 = none) (absent : target ∉ (s.remove c).1.children p) :
    s.insertBefore p target c = ((s.remove c).1,
      some (.notAChild ((s.remove c).1.description target) ((s.remove c).1.description p))) := by
  unfold insertBefore
  split
  · simp_all
  · next left same =>
    rw [same] at absent ⊢
    rw [indexOf_eq_error absent]

@[simp] theorem length_append (s : Links) (p c : NodeId) :
    (s.append p c).1.nodes.length = s.nodes.length := by
  have length := length_remove s c
  unfold append
  split <;> simp_all

@[simp] theorem length_insertBefore (s : Links) (p target c : NodeId) :
    (s.insertBefore p target c).1.nodes.length = s.nodes.length := by
  have length := length_remove s c
  unfold insertBefore
  split
  · simp_all
  · split <;> simp_all

/-- To put something at the place of an element is to put it before the element. -/
theorem insertIdx_idxOf (child : target ∈ ks) : ks.insertIdx (ks.idxOf target) c =
    ks.takeWhile (· != target) ++ c :: ks.dropWhile (· != target) := by
  induction ks with
  | nil => cases child
  | cons k ks ih =>
    by_cases same : k = target
    · simp [same]
    · have inside : target ∈ ks := by simpa [Ne.symm same] using child
      simp [List.idxOf_cons_ne _ same, List.insertIdx_succ_cons, ih inside, same]

theorem exists_dropWhile (child : target ∈ ks) : ∃ after, ks.dropWhile (· != target) = target :: after := by
  induction ks with
  | nil => cases child
  | cons k ks ih =>
    by_cases same : k = target
    · exact ⟨ks, by simp [same]⟩
    · have inside : target ∈ ks := by simpa [Ne.symm same] using child
      simpa [same] using ih inside

/-- Parents and children agree, and no node is a child twice. -/
structure Linked (s : Links) : Prop where
  parent?_iff : ∀ c p, s.parent? c = some p ↔ c ∈ s.children p
  nodup : ∀ p, (s.children p).Nodup

theorem node?_remove (s : Links) (n m : NodeId) : (s.remove n).1.node? m = s.node? m := by
  unfold remove
  split
  · rfl
  · split
    · rfl
    · rw [node?_setParent, node?_setChildren]

theorem remove_of_top (top : s.parent? n = none) : s.remove n = (s, none) := by
  rw [remove, top]

namespace Linked

theorem remove_of_child (linked : s.Linked) (child : s.parent? n = some p) :
    s.remove n = ((s.setChildren p ((s.children p).erase n)).setParent n none, none) := by
  have below := (linked.parent?_iff n p).1 child
  rw [remove, child]
  dsimp only
  rw [indexOf_eq below]
  dsimp only
  rw [List.eraseIdx_idxOf_eq_erase]

theorem remove_fine (linked : s.Linked) (n : NodeId) : (s.remove n).2 = none := by
  cases parent : s.parent? n with
  | none => rw [remove_of_top parent]
  | some p => rw [linked.remove_of_child parent]

/-- To take a node out leaves all children but the node in their order. -/
theorem children_remove (linked : s.Linked) (n m : NodeId) :
    (s.remove n).1.children m = (s.children m).erase n := by
  cases parent : s.parent? n with
  | none =>
    have absent : n ∉ s.children m := fun child => by
      rw [(linked.parent?_iff n m).2 child] at parent
      cases parent
    rw [remove_of_top parent, List.erase_of_not_mem absent]
  | some p =>
    have below := (linked.parent?_iff n p).1 parent
    rw [linked.remove_of_child parent, children_setParent, children_setChildren (lt_of_mem_children below)]
    split
    · next same => rw [same]
    · next other =>
      have absent : n ∉ s.children m := fun child => by
        rw [(linked.parent?_iff n m).2 child, Option.some.injEq] at parent
        exact other parent.symm
      rw [List.erase_of_not_mem absent]

/-- To take a node out leaves all parents but the node's. -/
theorem parent?_remove (linked : s.Linked) (n m : NodeId) :
    (s.remove n).1.parent? m = if n = m then none else s.parent? m := by
  cases parent : s.parent? n with
  | none =>
    rw [remove_of_top parent]
    split
    · next same => rw [← same, parent]
    · rfl
  | some p => rw [linked.remove_of_child parent, parent?_setParent_none, parent?_setChildren]

theorem remove (linked : s.Linked) (n : NodeId) : (s.remove n).1.Linked where
  parent?_iff c p := by
    rw [linked.parent?_remove, linked.children_remove, (linked.nodup p).mem_erase_iff, ← linked.parent?_iff]
    split
    · next same => simp [same]
    · next other => simp [Ne.symm other]
  nodup p := by
    rw [linked.children_remove]
    exact (linked.nodup p).erase n

end Linked

/-- The links of nodes laid out in rows. -/
structure Shows (s : Links) (rows : List Row) : Prop where
  numbers : (rows.map Row.number).Perm (List.range s.nodes.length)
  apart : (rows.flatMap Row.children).Nodup
  node? : ∀ r ∈ rows, s.node? r.number = some r.node
  children : ∀ r ∈ rows, s.children r.number = r.children
  parent? : ∀ c p, s.parent? c = some p ↔ ∃ r ∈ rows, r.number = p ∧ c ∈ r.children

namespace Shows

variable {rows' : List Row} {r : Row}

theorem perm (shown : s.Shows rows) (same : rows.Perm rows') : s.Shows rows' where
  numbers := (same.symm.map _).trans shown.numbers
  apart := (same.flatMap_right _).nodup_iff.1 shown.apart
  node? r member := shown.node? r (same.mem_iff.2 member)
  children r member := shown.children r (same.mem_iff.2 member)
  parent? c p := by simp only [shown.parent?, same.mem_iff]

theorem lt_iff (shown : s.Shows rows) : n < s.nodes.length ↔ ∃ r ∈ rows, r.number = n := by
  rw [← List.mem_range, ← shown.numbers.mem_iff, List.mem_map]

theorem length_eq (shown : s.Shows rows) : rows.length = s.nodes.length := by
  simpa using shown.numbers.length_eq

/-- A node without a parent is in no row. -/
theorem absent (shown : s.Shows rows) (free : s.parent? c = none) : ∀ r ∈ rows, c ∉ r.children :=
  fun r member below => by
    have linked := (shown.parent? c r.number).2 ⟨r, member, rfl, below⟩
    simp [free] at linked

theorem exists_row (shown : s.Shows rows) (known : n < s.nodes.length) :
    ∃ v ks others, rows.Perm (⟨n, v, ks⟩ :: others) := by
  classical
  obtain ⟨r, member, rfl⟩ := shown.lt_iff.1 known
  exact ⟨r.node, r.children, rows.erase r, List.perm_cons_erase member⟩

theorem mem_children (shown : s.Shows rows) :
    c ∈ s.children p ↔ ∃ r ∈ rows, r.number = p ∧ c ∈ r.children := by
  constructor
  · intro child
    by_cases known : p < s.nodes.length
    · obtain ⟨r, member, rfl⟩ := shown.lt_iff.1 known
      exact ⟨r, member, rfl, by rwa [← shown.children r member]⟩
    · rw [children_eq_nil (Nat.le_of_not_lt known)] at child
      cases child
  · rintro ⟨r, member, number, child⟩
    rwa [← number, shown.children r member]

/-- A child knows the parent that knows it. -/
theorem parent?_iff (shown : s.Shows rows) : s.parent? c = some p ↔ c ∈ s.children p := by
  rw [shown.parent?, shown.mem_children]

theorem nodup_children (shown : s.Shows rows) (p : NodeId) : (s.children p).Nodup := by
  by_cases known : p < s.nodes.length
  · obtain ⟨r, member, rfl⟩ := shown.lt_iff.1 known
    rw [shown.children r member]
    exact (List.nodup_flatMap.1 shown.apart).1 r member
  · rw [children_eq_nil (Nat.le_of_not_lt known)]
    exact List.nodup_nil

theorem linked (shown : s.Shows rows) : s.Linked where
  parent?_iff _ _ := shown.parent?_iff
  nodup := shown.nodup_children

theorem number_ne (shown : s.Shows (⟨p, v, ks⟩ :: others)) (member : r ∈ others) : r.number ≠ p := by
  have distinct := shown.numbers.nodup_iff.2 List.nodup_range
  rw [List.map_cons, List.nodup_cons] at distinct
  exact fun same => distinct.1 (List.mem_map.2 ⟨r, member, same⟩)

/-- Where the children of one node change and the parents follow, its row changes and no other one. -/
theorem relink {s' : Links} {ks' : List NodeId} (shown : s.Shows (⟨p, v, ks⟩ :: others))
    (length : s'.nodes.length = s.nodes.length) (nodes : ∀ m, s'.node? m = s.node? m)
    (children : ∀ m, s'.children m = if p = m then ks' else s.children m)
    (apart : (ks' ++ others.flatMap Row.children).Nodup)
    (parents : ∀ c q, s'.parent? c = some q ↔
      p = q ∧ c ∈ ks' ∨ ∃ r ∈ others, r.number = q ∧ c ∈ r.children) :
    s'.Shows (⟨p, v, ks'⟩ :: others) where
  numbers := by
    rw [length]
    exact shown.numbers
  apart := apart
  node? := by
    have nodes' := shown.node?
    simp only [List.forall_mem_cons, nodes] at nodes' ⊢
    exact nodes'
  children := by
    rw [List.forall_mem_cons]
    refine ⟨by simp [children], fun r member => ?_⟩
    rw [children, if_neg (Ne.symm (shown.number_ne member)),
      shown.children r (List.mem_cons_of_mem _ member)]
  parent? c q := by
    rw [parents]
    simp

theorem remove (shown : s.Shows rows) (n : NodeId) :
    (s.remove n).2 = none ∧ (s.remove n).1.Shows (rows.map (Row.without n)) := by
  cases linked : s.parent? n with
  | none =>
    rw [map_without (shown.absent linked)]
    simpa [Links.remove, linked] using shown
  | some p =>
    have child := shown.parent?_iff.1 linked
    obtain ⟨v, ks, others, perm⟩ := shown.exists_row (lt_of_mem_children child)
    have shown := shown.perm perm
    have known : s.children p = ks := shown.children _ List.mem_cons_self
    have apart := shown.apart
    rw [List.flatMap_cons] at apart
    -- the node is a child once, so the rows of other nodes stay as they are
    have once : ∀ r ∈ others, n ∉ r.children := fun r member below =>
      (List.nodup_append'.1 apart).2.2 (known ▸ child) (List.mem_flatMap.2 ⟨r, member, below⟩)
    rw [shown.linked.remove_of_child linked, known]
    refine ⟨rfl, Shows.perm ?_ (perm.map (Row.without n)).symm⟩
    rw [List.map_cons, map_without once, Row.without]
    refine shown.relink (by simp) (by simp) (fun m => ?_) (apart.sublist ?_) fun c q => ?_
    · rw [children_setParent, children_setChildren (lt_of_mem_children child)]
    · exact (List.erase_sublist).append_right _
    · rw [parent?_setParent_none, parent?_setChildren, (List.nodup_append'.1 apart).1.mem_erase_iff]
      split
      · next same => grind
      · next other => simp [shown.parent?, Ne.symm other]

theorem attach {ks' : List NodeId} (shown : s.Shows (⟨p, v, ks⟩ :: others)) (known : c < s.nodes.length)
    (free : s.parent? c = none) (more : ks'.Perm (c :: ks)) :
    ((s.setChildren p ks').setParent c (some p)).Shows (⟨p, v, ks'⟩ :: others) := by
  have absent := shown.absent free
  have top : p < s.nodes.length := shown.lt_iff.2 ⟨_, List.mem_cons_self, rfl⟩
  refine shown.relink (by simp) (by simp) (fun m => ?_) ?_ fun m q => ?_
  · rw [children_setParent, children_setChildren top]
  · rw [(more.append_right _).nodup_iff, List.cons_append, List.nodup_cons]
    refine ⟨fun below => ?_, shown.apart⟩
    obtain ⟨r, member, below⟩ :=
      List.mem_flatMap.1 (show c ∈ (⟨p, v, ks⟩ :: others).flatMap Row.children from below)
    exact absent r member below
  · rw [parent?_setParent _ (by simpa using known), parent?_setChildren, more.mem_iff]
    split
    · next same => grind
    · next other => simp [shown.parent?, Ne.symm other]

theorem letGo (shown : s.Shows (⟨n, v, ks⟩ :: others)) :
    (((s.children n).foldl (fun s child => s.setParent child none) s).setChildren n []).Shows
      (⟨n, v, []⟩ :: others) := by
  have top : n < s.nodes.length := shown.lt_iff.2 ⟨_, List.mem_cons_self, rfl⟩
  obtain ⟨s', same, length, nodes, children, parents⟩ := foldl_setParent (s.children n) s
  have known : s.children n = ks := shown.children _ List.mem_cons_self
  have apart := shown.apart
  rw [List.flatMap_cons] at apart
  rw [same]
  refine shown.relink (by simp [length]) (by simp [nodes]) (fun m => ?_) ?_ fun c q => ?_
  · rw [children_setChildren (by rwa [length]), children]
  · exact (List.nodup_append'.1 apart).2.1
  · have once := (List.nodup_append'.1 apart).2.2
    rw [parent?_setChildren, parents, known]
    simp only [List.not_mem_nil, and_false, false_or]
    split
    · next inside =>
      simp only [reduceCtorEq, false_iff]
      rintro ⟨r, member, _, below⟩
      exact once inside (List.mem_flatMap.2 ⟨r, member, below⟩)
    · next outside => simp [shown.parent?, outside]

theorem create (shown : s.Shows rows) (v : Node) : (s.create v).Shows (⟨s.nodes.length, v, []⟩ :: rows) where
  numbers := by
    rw [List.map_cons, show (s.create v).nodes.length = s.nodes.length + 1 by simp [Links.create],
      List.range_succ]
    exact (shown.numbers.cons _).trans (List.perm_append_singleton _ _).symm
  apart := shown.apart
  node? := by
    rw [List.forall_mem_cons]
    refine ⟨by simp [Links.node?, getElem?_create_last], fun r member => ?_⟩
    rw [Links.node?, getElem?_create v (shown.lt_iff.2 ⟨r, member, rfl⟩)]
    exact shown.node? r member
  children := by
    rw [List.forall_mem_cons]
    refine ⟨by simp [Links.children, getElem?_create_last], fun r member => ?_⟩
    rw [Links.children, getElem?_create v (shown.lt_iff.2 ⟨r, member, rfl⟩)]
    exact shown.children r member
  parent? c p := by
    rw [parent?_create, shown.parent?]
    simp

theorem setContent (shown : s.Shows (⟨n, v, ks⟩ :: others)) (content : Content) :
    (s.setContent n content).Shows (⟨n, { v with content := content }, ks⟩ :: others) where
  numbers := by
    rw [length_setContent]
    exact shown.numbers
  apart := shown.apart
  node? := by
    have nodes := shown.node?
    rw [List.forall_mem_cons] at nodes ⊢
    refine ⟨by simp [node?_setContent, nodes.1], fun r member => ?_⟩
    rw [node?_setContent, if_neg (Ne.symm (shown.number_ne member))]
    exact nodes.2 r member
  children := by
    have children := shown.children
    simp only [List.forall_mem_cons, children_setContent] at children ⊢
    exact children
  parent? c p := by
    rw [parent?_setContent, shown.parent?]
    simp

/-- Rows leave nothing open about the links that show them. -/
theorem eq {s' : Links} (shown : s.Shows rows) (shown' : s'.Shows rows) : s = s' := by
  have length : s.nodes.length = s'.nodes.length := by
    simpa using shown.numbers.length_eq.symm.trans shown'.numbers.length_eq
  obtain ⟨nodes⟩ := s
  obtain ⟨nodes'⟩ := s'
  congr 1
  apply List.ext_getElem length
  intro n known known'
  obtain ⟨r, member, rfl⟩ := shown.lt_iff.1 known
  have node := (shown.node? r member).trans (shown'.node? r member).symm
  have children := (shown.children r member).trans (shown'.children r member).symm
  have parent : Links.parent? ⟨nodes⟩ r.number = Links.parent? ⟨nodes'⟩ r.number :=
    Option.ext fun p => by rw [shown.parent?, shown'.parent?]
  dsimp only at known known'
  simp only [Links.node?, Links.children, Links.parent?, List.getElem?_eq_getElem known,
    List.getElem?_eq_getElem known', Option.map_some, Option.getD_some, Option.bind_some,
    Option.some.injEq] at node children parent
  cases here : nodes[r.number]
  cases there : nodes'[r.number]
  simp_all

theorem append (shown : s.Shows rows) (perm : (rows.map (Row.without c)).Perm (⟨p, v, ks⟩ :: others))
    (known : c < s.nodes.length) :
    (s.append p c).2 = none ∧ (s.append p c).1.Shows (⟨p, v, ks ++ [c]⟩ :: others) := by
  obtain ⟨fine, left⟩ := shown.remove c
  have left := left.perm perm
  have children : (s.remove c).1.children p = ks := left.children _ List.mem_cons_self
  rw [append_eq fine, children]
  exact ⟨rfl, left.attach (by rwa [length_remove]) (parent?_remove fine) (List.perm_append_singleton c ks)⟩

theorem insertBefore (shown : s.Shows rows) (perm : (rows.map (Row.without c)).Perm (⟨p, v, ks⟩ :: others))
    (known : c < s.nodes.length) (child : target ∈ ks) :
    (s.insertBefore p target c).2 = none ∧ (s.insertBefore p target c).1.Shows
      (⟨p, v, ks.takeWhile (· != target) ++ c :: ks.dropWhile (· != target)⟩ :: others) := by
  obtain ⟨fine, left⟩ := shown.remove c
  have left := left.perm perm
  have children : (s.remove c).1.children p = ks := left.children _ List.mem_cons_self
  rw [insertBefore_eq fine (by rwa [children]), children, insertIdx_idxOf child]
  refine ⟨rfl, left.attach (by rwa [length_remove]) (parent?_remove fine) ?_⟩
  conv => rhs; rw [← List.takeWhile_append_dropWhile (p := (· != target)) (l := ks)]
  exact List.perm_middle

/-- A node that lets go of its children for a text has the text alone in its row. -/
theorem replaceChildren (shown : s.Shows (⟨n, v, ks⟩ :: others)) (leaf : Node) :
    let alone := (s.children n).foldl (fun s child => s.setParent child none) s
    let done := ((alone.setChildren n []).create leaf).append n s.nodes.length
    done.2 = none ∧
      done.1.Shows (⟨n, v, [s.nodes.length]⟩ :: ⟨s.nodes.length, leaf, []⟩ :: others) := by
  intro alone done
  have free := shown.letGo
  have length : s.nodes.length = (alone.setChildren n []).nodes.length := by
    rw [← shown.length_eq, ← free.length_eq]
    rfl
  have created := free.create leaf
  rw [← length] at created
  have orphan : ((alone.setChildren n []).create leaf).parent? s.nodes.length = none := by
    rw [parent?_create]
    exact Option.eq_none_iff_forall_ne_some.2 fun p linked =>
      Nat.lt_irrefl _ (length ▸ lt_of_parent? linked)
  have perm : ((⟨s.nodes.length, leaf, []⟩ :: ⟨n, v, []⟩ :: others).map (Row.without s.nodes.length)).Perm
      (⟨n, v, []⟩ :: ⟨s.nodes.length, leaf, []⟩ :: others) := by
    rw [map_without (created.absent orphan)]
    exact .swap _ _ _
  have more : s.nodes.length < ((alone.setChildren n []).create leaf).nodes.length := by
    rw [← created.length_eq, ← shown.length_eq]
    simp
  exact created.append perm more

/-- To append a node puts it last; otherwise children stay in their order. -/
theorem children_append (shown : s.Shows rows) (known : p < s.nodes.length) (q : NodeId) :
    (s.append p c).1.children q =
      if p = q then (s.children p).erase c ++ [c] else (s.children q).erase c := by
  rw [append_eq (shown.remove c).1, children_setParent, children_setChildren (by rwa [length_remove]),
    shown.linked.children_remove, shown.linked.children_remove]

/-- To insert a node puts it right before the target; otherwise children stay in their order. -/
theorem children_insertBefore (shown : s.Shows rows) (known : p < s.nodes.length)
    (fine : (s.insertBefore p target c).2 = none) :
    ∃ before after, (s.children p).erase c = before ++ target :: after ∧
      ∀ q, (s.insertBefore p target c).1.children q =
        if p = q then before ++ c :: target :: after else (s.children q).erase c := by
  have removed := (shown.remove c).1
  by_cases child : target ∈ (s.remove c).1.children p
  · have place := insertBefore_eq removed child
    rw [shown.linked.children_remove] at child place
    rw [insertIdx_idxOf child] at place
    obtain ⟨after, rest⟩ := exists_dropWhile child
    refine ⟨((s.children p).erase c).takeWhile (· != target), after, ?_, fun q => ?_⟩
    · rw [← rest, List.takeWhile_append_dropWhile]
    · rw [place, children_setParent, children_setChildren (by rwa [length_remove]), shown.linked.children_remove, rest]
  · rw [insertBefore_refused removed child] at fine
    cases fine

end Shows

end Links

end LocatedHtml
