import LocatedHtml.Forest.Copy
import LocatedHtml.Proofs.Forest.Values

/-!
Forests that grow: the trees that were there stand in front as they were, and all others have numbers
that were free. Planting grows a forest, and so do changes to nodes that came with the growth.
-/

namespace LocatedHtml

namespace Forest

open NumberedTree

variable {f g h : Forest} {n : NodeId}

/-- All numbers of the forest are below the next one. -/
def Bounded (f : Forest) : Prop := ∀ t ∈ f.roots, t.All (·.1 < f.next)

/-- The numbers that are new in a forest that has grown. -/
def New (f g : Forest) (v : NodeId × Node) : Prop := f.next ≤ v.1 ∧ v.1 < g.next

/-- Everything in the one forest is in the other one as it was, and nothing else has its numbers. -/
structure Grown (f g : Forest) : Prop where
  next : f.next ≤ g.next
  roots : ∃ more, g.roots = f.roots ++ more ∧ ∀ t ∈ more, t.All (f.New g)

namespace Grown

theorem refl (f : Forest) : Grown f f :=
  ⟨Nat.le_refl _, [], (List.append_nil _).symm, List.forall_mem_nil _⟩

theorem trans (first : Grown f g) (second : Grown g h) : Grown f h := by
  obtain ⟨more, roots, fresh⟩ := first.roots
  obtain ⟨later, roots', fresh'⟩ := second.roots
  refine ⟨Nat.le_trans first.next second.next, more ++ later, by rw [roots', roots, List.append_assoc], ?_⟩
  rw [List.forall_mem_append]
  refine ⟨fun t member => (fresh t member).imp fun v new => ?_,
    fun t member => (fresh' t member).imp fun v new => ?_⟩
  · exact ⟨new.1, Nat.lt_of_lt_of_le new.2 second.next⟩
  · exact ⟨Nat.le_trans first.next new.1, new.2⟩

theorem bounded (grown : Grown f g) (bounded : f.Bounded) : g.Bounded := by
  obtain ⟨more, roots, fresh⟩ := grown.roots
  rw [Bounded, roots, List.forall_mem_append]
  refine ⟨fun t member => (bounded t member).imp fun v below => ?_,
    fun t member => (fresh t member).imp fun v new => new.2⟩
  exact Nat.lt_of_lt_of_le below grown.next

/-- A number that was not free leads to what it led to. -/
theorem find?_eq (grown : Grown f g) (old : n < f.next) : g.find? n = f.find? n := by
  obtain ⟨more, roots, fresh⟩ := grown.roots
  have lacks : ∀ t ∈ more, Lacks n t := fun t member => (fresh t member).imp fun v new same =>
    absurd new.1 (by rw [same]; exact Nat.not_le_of_lt old)
  rw [find?, subtrees_eq, roots, List.flatMap_append, List.find?_append, find?_lacks lacks,
    Option.or_none, ← subtrees_eq, ← find?]

theorem parent?_eq (grown : Grown f g) (old : n < f.next) : g.parent? n = f.parent? n := by
  obtain ⟨more, roots, fresh⟩ := grown.roots
  have none : (more.flatMap Tree.subtrees).find? (fun t => t.children.any (·.value.1 == n)) = none := by
    rw [List.find?_eq_none]
    intro u member parent
    obtain ⟨t, inside, member⟩ := List.mem_flatMap.1 member
    obtain ⟨c, child, same⟩ := List.any_eq_true.1 parent
    have new := (((fresh t inside).subtree member).children c child).top
    rw [New, eq_of_beq same] at new
    exact absurd new.1 (Nat.not_le_of_lt old)
  rw [parent?, subtrees_eq, roots, List.flatMap_append, List.find?_append, none, Option.or_none,
    ← subtrees_eq, ← parent?]

theorem rootOf?_eq (grown : Grown f g) {t : NumberedTree} (found : f.rootOf? n = some t) :
    g.rootOf? n = some t := by
  obtain ⟨more, roots, _⟩ := grown.roots
  rw [rootOf?] at found
  rw [rootOf?, roots, List.find?_append, found, Option.some_or]

theorem rootOf?_old (grown : Grown f g) (old : n < f.next) : g.rootOf? n = f.rootOf? n := by
  obtain ⟨more, roots, fresh⟩ := grown.roots
  have none : more.find? (fun t => (ids t).contains n) = none := by
    rw [List.find?_eq_none]
    intro t member has
    obtain ⟨u, below, same⟩ := List.mem_map.1 (List.contains_iff_mem.1 has)
    have new := fresh t member u below
    rw [New, show u.value.1 = n from same] at new
    exact absurd new.1 (Nat.not_le_of_lt old)
  rw [rootOf?, roots, List.find?_append, none, Option.or_none, rootOf?]

theorem plant (f : Forest) (t : HtmlTree) : Grown f (f.plant t) := by
  refine ⟨Nat.le_add_right _ _, [t.number f.next], rfl, ?_⟩
  rw [List.forall_mem_singleton]
  exact all_number f.next t

theorem substitute (grown : Grown f g) (bounded : f.Bounded) (fresh : f.next ≤ n)
    {change : NumberedTree → List NumberedTree} {extra : List NumberedTree} {next : NodeId}
    (later : g.next ≤ next)
    (changed : ∀ t : NumberedTree, t.All (fun v => f.next ≤ v.1 ∧ v.1 < next) → topId t = n →
      ∀ u ∈ change t, u.All fun v => f.next ≤ v.1 ∧ v.1 < next)
    (put : ∀ u ∈ extra, u.All fun v => f.next ≤ v.1 ∧ v.1 < next) :
    Grown f ⟨NumberedTree.substitute n change g.roots ++ extra, next⟩ := by
  obtain ⟨more, roots, new⟩ := grown.roots
  have lacks : ∀ t ∈ f.roots, Lacks n t := fun t member => (bounded t member).imp fun v below same =>
    absurd fresh (by rw [← same]; exact Nat.not_le_of_lt below)
  refine ⟨Nat.le_trans grown.next later, NumberedTree.substitute n change more ++ extra, ?_, ?_⟩
  · dsimp only
    rw [roots, substitute_append, substitute_of_lacks lacks, List.append_assoc]
  · rw [List.forall_mem_append]
    refine ⟨all_substitute (fun t member => (new t member).imp fun v here => ?_) changed, put⟩
    exact ⟨here.1, Nat.lt_of_lt_of_le here.2 later⟩

theorem new_of_find? (grown : Grown f g) (bounded : f.Bounded) (fresh : f.next ≤ n) {t : NumberedTree}
    (found : g.find? n = some t) : t.All (f.New g) := by
  obtain ⟨top, root, member, below⟩ := find?_eq_some found
  obtain ⟨more, roots, new⟩ := grown.roots
  rw [roots, List.mem_append] at member
  rcases member with old | member
  · have small : t.value.1 < f.next := ((bounded root old).subtree below).top
    exact absurd fresh (by rw [← top]; exact Nat.not_le_of_lt small)
  · exact (new root member).subtree below

theorem setText (grown : Grown f g) (bounded : f.Bounded) (fresh : f.next ≤ n) (value : Text) :
    Grown f (g.setText n value) := by
  have relabelled (content : Content) (t : NumberedTree) {next : NodeId}
      (all : t.All fun v => f.next ≤ v.1 ∧ v.1 < next) :
      ∀ u ∈ [withContent content t], u.All fun v => f.next ≤ v.1 ∧ v.1 < next := by
    rw [List.forall_mem_singleton, withContent, Tree.all_node]
    exact ⟨all.top, all.children⟩
  have kept (content : Content) :
      Grown f ⟨NumberedTree.substitute n (fun t => [withContent content t]) g.roots, g.next⟩ := by
    have same := grown.substitute bounded fresh (Nat.le_refl _) (fun t all _ => relabelled content t all)
      (List.forall_mem_nil _)
    rwa [List.append_nil] at same
  unfold Forest.setText
  cases found : g.find? n with
  | none => exact grown
  | some t =>
    have new := grown.new_of_find? bounded fresh found
    dsimp only
    split
    · exact kept _
    · exact kept _
    · refine grown.substitute bounded fresh (Nat.le_succ _) (fun u all _ => ?_) fun u child => ?_
      · rw [List.forall_mem_singleton, Tree.all_node, List.forall_mem_singleton]
        exact ⟨all.top, .leaf ⟨grown.next, Nat.lt_succ_self _⟩⟩
      · exact (new.children u child).imp fun v here => ⟨here.1, Nat.lt_succ_of_lt here.2⟩

theorem removeInjected (grown : Grown f g) (bounded : f.Bounded) (fresh : f.next ≤ n) :
    Grown f (g.removeInjected n).1 := by
  unfold Forest.removeInjected
  cases found : g.find? n with
  | none => exact grown
  | some t =>
    have new := grown.new_of_find? bounded fresh found
    exact grown.substitute bounded fresh (Nat.le_refl _) (fun u all _ => all_splice all) (all_injected new)

end Grown

end Forest

end LocatedHtml
