import LocatedHtml.Proofs.Tree

/-!
Paths in a tree, from the top down. The order of paths is document order, and a walk goes along every path of
the tree once, in this order.
-/

namespace LocatedHtml.Tree

/-- Which child to go to, one after the other. A path comes before those that go on from it, and these come
before the paths to later children. -/
abbrev Path := List Nat

variable {α β : Type}

/-- The tree to which a path leads, with the values above it, nearest first. -/
def place? : List α → Tree α → Path → Option (List α × Tree α)
  | above, t, [] => some (above, t)
  | above, .node v cs, i :: path => (cs[i]?).bind fun c => place? (v :: above) c path

theorem place?_above (above : List α) (t : Tree α) (path : Path) :
    place? above t path = (place? [] t path).map fun place => (place.1 ++ above, place.2) := by
  induction path generalizing above t with
  | nil => cases t; rfl
  | cons i path ih =>
    obtain ⟨v, cs⟩ := t
    rw [place?, place?, Option.map_bind]
    congr 1
    funext c
    rw [Function.comp_apply, ih (v :: above) c, ih [v] c, Option.map_map]
    congr 1
    funext place
    rw [Function.comp_apply, List.append_assoc, List.singleton_append]

theorem place?_cons_eq_some {v : α} {cs : List (Tree α)} {i : Nat} {path : Path} {above : List α} {u : Tree α} :
    place? [] (.node v cs) (i :: path) = some (above, u) ↔
      ∃ c near, cs[i]? = some c ∧ place? [] c path = some (near, u) ∧ above = near ++ [v] := by
  rw [place?, Option.bind_eq_some_iff]
  refine exists_congr fun c => ?_
  rw [place?_above [v], Option.map_eq_some_iff]
  constructor
  · intro found
    obtain ⟨child, ⟨near, w⟩, leads, same⟩ := found
    obtain ⟨rfl, rfl⟩ := Prod.mk.inj same
    exact ⟨near, child, leads, rfl⟩
  · intro found
    obtain ⟨near, child, leads, rfl⟩ := found
    exact ⟨child, _, leads, rfl⟩

mutual

/-- The paths of a tree. -/
def paths : Tree α → List Path
  | .node _ cs => [] :: pathsAll 0 cs

/-- The paths to and below some children side by side, the first of them child `i`. -/
def pathsAll (i : Nat) : List (Tree α) → List Path
  | [] => []
  | t :: rest => (paths t).map (i :: ·) ++ pathsAll (i + 1) rest

end

theorem pathsAll_eq (i : Nat) (ts : List (Tree α)) :
    pathsAll i ts = (ts.zipIdx i).flatMap fun c => c.1.paths.map (c.2 :: ·) := by
  induction ts generalizing i with
  | nil => rfl
  | cons t ts ih => rw [pathsAll, ih, List.zipIdx_cons, List.flatMap_cons]

theorem paths_node (v : α) (cs : List (Tree α)) :
    (Tree.node v cs).paths = [] :: cs.zipIdx.flatMap fun c => c.1.paths.map (c.2 :: ·) := by
  rw [paths, pathsAll_eq]

theorem mem_of_mem_zipIdx {c : Tree α × Nat} {cs : List (Tree α)} (member : c ∈ cs.zipIdx) : c.1 ∈ cs :=
  List.mem_of_getElem? (List.mem_zipIdx_iff_getElem?.1 member)

theorem flatMap_zipIdx (f : Tree α → List β) (cs : List (Tree α)) :
    (cs.zipIdx.flatMap fun c => f c.1) = cs.flatMap f := by
  rw [← List.flatMap_map Prod.fst f, List.zipIdx_map_fst]

/-- What each child contributes is in order all together if it is in order for each and between each two. -/
theorem pairwise_children {R : β → β → Prop} {f : Tree α × Nat → List β} {cs : List (Tree α)}
    (each : ∀ c ∈ cs.zipIdx, (f c).Pairwise R)
    (apart : ∀ c d, c.2 < d.2 → ∀ a ∈ f c, ∀ b ∈ f d, R a b) : (cs.zipIdx.flatMap f).Pairwise R := by
  have numbers : cs.zipIdx.Pairwise fun c d => c.2 < d.2 := by
    rw [← List.pairwise_map, List.zipIdx_map_snd]
    exact List.pairwise_lt_range'
  exact List.pairwise_flatMap.2 ⟨each, numbers.imp (apart _ _)⟩

theorem paths_increasing (t : Tree α) : t.paths.Pairwise (· < ·) := by
  induction t using Tree.induction with
  | node v cs ih =>
    rw [paths_node, List.pairwise_cons]
    constructor
    · intro path below
      obtain ⟨c, _, below⟩ := List.mem_flatMap.1 below
      obtain ⟨path, _, rfl⟩ := List.mem_map.1 below
      exact List.nil_lt_cons _ _
    · apply pairwise_children
      · intro c child
        rw [List.pairwise_map]
        exact (ih c.1 (mem_of_mem_zipIdx child)).imp fun before =>
          List.cons_lt_cons_iff.2 (.inr ⟨rfl, before⟩)
      · intro c d before a first b second
        obtain ⟨a, _, rfl⟩ := List.mem_map.1 first
        obtain ⟨b, _, rfl⟩ := List.mem_map.1 second
        exact List.cons_lt_cons_iff.2 (.inl before)

theorem mem_paths_iff {t : Tree α} {path : Path} :
    path ∈ t.paths ↔ ∃ place, t.place? [] path = some place := by
  induction path generalizing t with
  | nil =>
    cases t
    rw [paths]
    exact iff_of_true List.mem_cons_self ⟨_, rfl⟩
  | cons i path ih =>
    obtain ⟨v, cs⟩ := t
    rw [paths_node, List.mem_cons, or_iff_right (List.cons_ne_nil i path), List.mem_flatMap]
    constructor
    · intro found
      obtain ⟨c, child, member⟩ := found
      obtain ⟨_, below, same⟩ := List.mem_map.1 member
      obtain ⟨rfl, rfl⟩ := List.cons.inj same
      obtain ⟨⟨near, u⟩, leads⟩ := ih.1 below
      exact ⟨_, place?_cons_eq_some.2 ⟨c.1, near, List.mem_zipIdx_iff_getElem?.1 child, leads, rfl⟩⟩
    · intro found
      obtain ⟨place, leads⟩ := found
      obtain ⟨c, near, child, leads, _⟩ := place?_cons_eq_some.1 leads
      exact ⟨(c, i), List.mem_zipIdx_iff_getElem?.2 child, List.mem_map_of_mem (ih.2 ⟨_, leads⟩)⟩

theorem places_eq (above : List α) (t : Tree α) :
    (t.places above).map some = t.paths.map (place? above t) := by
  induction t using Tree.induction generalizing above with
  | node v cs ih =>
    rw [places_node, paths_node, List.map_cons, List.map_cons, ← flatMap_zipIdx, List.map_flatMap,
      List.map_flatMap]
    congr 1
    apply List.flatMap_congr
    intro c child
    -- The number of a child leads back to the child.
    rw [ih c.1 (mem_of_mem_zipIdx child), List.map_map]
    apply List.map_congr_left
    intro path _
    rw [Function.comp_apply, place?, List.mem_zipIdx_iff_getElem?.1 child, Option.bind_some]

theorem places_eq_filterMap (above : List α) (t : Tree α) :
    t.places above = t.paths.filterMap (place? above t) := by
  have along := congrArg (List.filterMap id) (places_eq above t)
  rwa [List.filterMap_map, List.filterMap_map, Function.id_comp, Function.id_comp, List.filterMap_some] at along

theorem walk_places (above : List α) (t : Tree α) :
    walk [(above.length, t)] = (t.places above).map fun place => (place.1.length, place.2) := by
  induction t using Tree.induction generalizing above with
  | node v cs ih =>
    rw [walk_node, places_node, List.map_cons, List.map_flatMap]
    congr 1
    exact List.flatMap_congr fun c child => ih c child (v :: above)

theorem visits_paths (t : Tree α) : t.visits.map some =
    t.paths.map fun path => (t.place? [] path).map fun place => (place.1.length, place.2) := by
  have visits : t.visits = (t.places []).map fun place => (place.1.length, place.2) := walk_places [] t
  have along := congrArg (List.map (Option.map fun place : List α × Tree α => (place.1.length, place.2)))
    (places_eq [] t)
  rw [List.map_map, List.map_map] at along
  rw [visits, List.map_map]
  exact along

end LocatedHtml.Tree
