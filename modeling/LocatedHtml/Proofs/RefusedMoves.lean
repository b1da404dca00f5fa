import LocatedHtml.Proofs.LinkedEdits

/-!
Moves that are refused. A node leaves its parent before the target is looked for, so it may be lost to its
tree by a move that is refused, and what is refused then includes the move of a node before itself. Nothing
but the link between the node and its parent is changed.
-/

namespace LocatedHtml

namespace Links

variable {s : Links} {n p c target : NodeId}

namespace Linked

theorem remove_eq_self_iff (linked : s.Linked) : (s.remove n).1 = s ↔ s.parent? n = none := by
  constructor
  · intro same
    have alone := linked.parent?_remove n n
    rwa [same, if_pos rfl] at alone
  · intro top
    rw [remove_of_top top]

/-- A move is made if the target is a child of the parent after the node has left its place. -/
theorem insertBefore_fine_iff (linked : s.Linked) :
    (s.insertBefore p target c).2 = none ↔ target ∈ (s.children p).erase c := by
  rw [← linked.children_remove]
  by_cases child : target ∈ (s.remove c).1.children p
  · rw [insertBefore_eq (linked.remove_fine c) child]
    exact iff_of_true rfl child
  · rw [insertBefore_refused (linked.remove_fine c) child]
    exact iff_of_false nofun child

end Linked

end Links

/-- A move to a target that is not there is refused in a forest as it is refused by the links. -/
theorem Forest.Mirrors.insertBefore_refused {f : Forest} {s : Links} {p target c : NodeId} (mirrors : f.Mirrors s)
    (parent : p < f.next) (aim : target < f.next) (child : c < f.next)
    (absent : target ∉ (s.children p).erase c) :
    (f.insertBefore p target c).1.links = (s.insertBefore p target c).1 ∧
      (f.insertBefore p target c).2 = (s.insertBefore p target c).2 := by
  rw [← mirrors.length] at parent aim child
  obtain ⟨after, refusal⟩ := mirrors.insertBefore ⟨parent, aim, child, fun inside => absurd inside absent⟩
  exact ⟨after.eq.symm, refusal.symm⟩

/-- A move before a node is refused if that is not a child of the parent, or is the moved node itself. The
moved node has left its parent then, and nothing else has changed; so a node without a parent is the only one
for which a refused move changes nothing. -/
theorem Links.insertBefore_unlinks {s : Links} (linked : s.Linked) (p target c : NodeId) :
    ((s.insertBefore p target c).2 ≠ none ↔ target = c ∨ target ∉ s.children p) ∧
    ∀ e, (s.insertBefore p target c).2 = some e →
      ∃ after : Links, (s.insertBefore p target c).1 = after ∧
        e = .notAChild (after.description target) (after.description p) ∧
        (∀ n, after.node? n = s.node? n) ∧
        (∀ n, after.children n = (s.children n).erase c) ∧
        (∀ n, after.parent? n = if c = n then none else s.parent? n) ∧ after.Linked ∧
        (after = s ↔ s.parent? c = none) ∧
        ∀ f : Forest, f.Mirrors s → p < f.next → target < f.next → c < f.next →
          (f.insertBefore p target c).1.links = after ∧ (f.insertBefore p target c).2 = some e := by
  refine ⟨?_, fun e refused => ?_⟩
  · rw [ne_eq, linked.insertBefore_fine_iff, (linked.nodup p).mem_erase_iff, not_and_or, not_not]
  · have absent : target ∉ (s.children p).erase c := fun inside => by
      rw [linked.insertBefore_fine_iff.2 inside] at refused
      cases refused
    have gone : target ∉ (s.remove c).1.children p := by rwa [linked.children_remove]
    have result := insertBefore_refused (linked.remove_fine c) gone
    rw [result] at refused
    refine ⟨(s.remove c).1, by rw [result], (Option.some.inj refused).symm, node?_remove s c,
      linked.children_remove c, linked.parent?_remove c, linked.remove c, linked.remove_eq_self_iff,
      fun f mirrors parent aim child => ?_⟩
    obtain ⟨same, refusal⟩ := mirrors.insertBefore_refused parent aim child absent
    exact ⟨same.trans (by rw [result]), refusal.trans (by rw [result, refused])⟩

theorem Links.insertBefore_unlinks_alone : ∃ (s : Links) (e : EditError), s.Linked ∧ s.children 0 = [1] ∧
    s.parent? 2 = none ∧ (s.insertBefore 0 2 2).2 = some e ∧ (s.insertBefore 0 2 2).1 = s := by
  have made := (((Reached.planted []).created ⟨.element "p" [], none⟩).created ⟨.text ['a'], none⟩).created
    ⟨.text ['b'], none⟩
  have moved := made.edited (e := .append 0 1)
    ⟨by decide, by decide, Links.not_isAbove_of_top (by decide) (by decide)⟩
  have linked := moved.mirrors.shown.linked
  obtain ⟨refusals, changes⟩ := Links.insertBefore_unlinks linked 0 2 2
  obtain ⟨e, refused⟩ := Option.ne_none_iff_exists'.1 (refusals.2 (.inl rfl))
  obtain ⟨after, same, _, _, _, _, _, kept, _⟩ := changes e refused
  exact ⟨_, e, linked, by decide, by decide, refused, same.trans (kept.2 (by decide))⟩

/-- A text that is to be moved before a node of another tree is lost to its paragraph. -/
theorem Links.insertBefore_loses_child : ∃ (s : Links) (e : EditError), s.Linked ∧ s.children 0 = [1] ∧
    s.parent? 1 = some 0 ∧ (s.insertBefore 2 0 1).2 = some e ∧ (s.insertBefore 2 0 1).1.children 0 = [] ∧
    (s.insertBefore 2 0 1).1.parent? 1 = none := by
  have made := (((Reached.planted []).created ⟨.element "p" [], none⟩).created ⟨.text ['a'], none⟩).created
    ⟨.element "q" [], none⟩
  have moved := made.edited (e := .append 0 1)
    ⟨by decide, by decide, Links.not_isAbove_of_top (by decide) (by decide)⟩
  exact ⟨_, _, moved.mirrors.shown.linked, by decide, by decide, rfl, by decide, by decide⟩

end LocatedHtml
