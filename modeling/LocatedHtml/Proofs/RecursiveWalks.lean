import LocatedHtml.Proofs.TextContent
import LocatedHtml.Proofs.Written.MarkupParts

/-!
The walks over a tree keep what is still ahead in a list. What they do is what the shape of the tree says: they
come to every node once in document order, read the texts that are not below others, and write what is between
the tags of an element before its end tag.
-/

namespace LocatedHtml.Tree

/-- The walks with a list of what is ahead do what a recursion over the tree does. Every node is visited once, in
the order of the paths. The text of a tree is that of its texts, in this order, without those that have a text or
a comment above them. The children of a node are written one after the other, and an element that is not void
has them between its tags. The parts of the markup are what each node starts with and each end tag, as far as all
nodes above show their children, and each end tag comes behind the parts of the nodes below its element and in
front of the parts of the siblings that follow. -/
theorem walks_recursive (t : HtmlTree) (verbatim : Bool) :
    (t.paths.Pairwise (· < ·) ∧ (∀ path, path ∈ t.paths ↔ ∃ place, t.place? [] path = some place) ∧
      t.visits.map some =
        t.paths.map fun path => (t.place? [] path).map fun place => (place.1.length, place.2)) ∧
    t.textContent = ((t.paths.filterMap (t.place? [])).filter isReadText).flatMap
      (fun place => place.2.value.content.textValue) ∧
    t.innerHtml = t.children.flatMap (outerHtml t.value.content.isVerbatimParent) ∧
    (∀ name attributes, t.value.content = .element name attributes → isVoid name = false →
      t.outerHtml verbatim = writtenStartTag name attributes ++ t.innerHtml ++ writtenEndTag name) ∧
    t.outerHtml verbatim = (t.markupParts verbatim).flatMap MarkupPart.markup ∧
    (t.markupParts verbatim).Pairwise MarkupPart.Before ∧ (t.markupParts verbatim).Nodup ∧
    ∀ part, part ∈ t.markupParts verbatim ↔ t.Writes verbatim part := by
  have read := collectText_places (List.forall_mem_nil _) t
  rw [places_eq_filterMap] at read
  have ordered := markupParts_ordered verbatim t
  exact ⟨⟨t.paths_increasing, fun _ => mem_paths_iff, t.visits_paths⟩, read, t.innerHtml_eq,
    fun _ _ element shown => outerHtml_element element shown verbatim, outerHtml_markupParts verbatim t, ordered,
    ordered.imp MarkupPart.Before.ne, fun _ => mem_markupParts_iff⟩

/-- What is below a comment is neither read nor written, and what is below a void element is read but not
written. -/
theorem walks_recursive_cutOff : ∃ t : HtmlTree, t.value.content = .element "div" [] ∧ isVoid "div" = false ∧
    t.paths = [[], [0], [1], [1, 0], [2], [2, 0], [3], [3, 0], [4]] ∧ t.visits.length = 9 ∧
    t.textContent = "a<de<f".toList ∧
    t.outerHtml false = writtenStartTag "div" [] ++ t.innerHtml ++ writtenEndTag "div" ∧
    t.outerHtml false = "<div>a&lt;<!--b--><br><style>e<</style>f</div>".toList ∧
    t.Writes false ⟨[3], true, "</style>".toList⟩ ∧ ¬t.Writes false ⟨[2, 0], false, ['d']⟩ := by
  obtain ⟨t, tree⟩ : ∃ t : HtmlTree, t = .node ⟨.element "div" [], none⟩ [
      .node ⟨.text ['a', '<'], none⟩ [], .node ⟨.comment ['b'], none⟩ [.node ⟨.text ['c'], none⟩ []],
      .node ⟨.element "br" [], none⟩ [.node ⟨.text ['d'], none⟩ []],
      .node ⟨.element "style" [], none⟩ [.node ⟨.text ['e', '<'], none⟩ []],
      .node ⟨.text ['f'], none⟩ []] := ⟨_, rfl⟩
  obtain ⟨⟨_, _, visited⟩, read, _, between, written, _, _, shown⟩ := walks_recursive t false
  have element : t.value.content = .element "div" [] := by rw [tree]; rfl
  have paths : t.paths = [[], [0], [1], [1, 0], [2], [2, 0], [3], [3, 0], [4]] := by rw [tree]; rfl
  refine ⟨t, element, by decide, paths, ?_, ?_, between _ _ element (by decide), ?_, ?_, ?_⟩
  · have lengths := congrArg List.length visited
    rwa [List.length_map, List.length_map, paths] at lengths
  · rw [read, tree]
    decide +kernel
  · rw [written, tree]
    decide +kernel
  · rw [← shown, tree]
    decide +kernel
  · rw [← shown, tree]
    decide +kernel

end LocatedHtml.Tree
