import LocatedHtml.Proofs.DocumentShape
import LocatedHtml.Proofs.Nested.InlineDocuments
import LocatedHtml.Proofs.Written.InlineTexts

/-!
The documents inside of an HTML document are the texts of its hosts, one document for each.
-/

namespace LocatedHtml

open NumberedTree

theorem mapM_filterMap_ok {α β γ ε : Type} {R : γ → β → Prop} {f : α → Option γ}
    {g : α → Option (Except ε β)} {as : List α}
    (each : ∀ a ∈ as, (f a = none ∧ g a = none) ∨ ∃ c b, f a = some c ∧ g a = some (.ok b) ∧ R c b) :
    ∃ bs, (as.filterMap g).mapM id = .ok bs ∧ List.Forall₂ R (as.filterMap f) bs := by
  induction as with
  | nil => exact ⟨[], rfl, .nil⟩
  | cons a as ih =>
    rw [List.forall_mem_cons] at each
    obtain ⟨bs, rest, related⟩ := ih each.2
    rcases each.1 with ⟨left, right⟩ | ⟨c, b, left, right, here⟩
    · rw [List.filterMap_cons_none left, List.filterMap_cons_none right]
      exact ⟨bs, rest, related⟩
    · rw [List.filterMap_cons_some left, List.filterMap_cons_some right, List.mapM_cons, rest]
      exact ⟨b :: bs, rfl, .cons here related⟩

namespace Tree

theorem map_toHtml_number (tree : HtmlTree) : (tree.number 0).subtrees.map toHtml = tree.subtrees := by
  have same : (tree.number 0).map Prod.snd = tree := map_number 0 tree
  conv_rhs => rw [← same, subtrees_map]
  rfl

theorem length_subtrees (tree : HtmlTree) : tree.subtrees.length = tree.size := by
  have ids : (tree.number 0).subtrees.map topId = List.range' 0 tree.size := ids_number 0 tree
  have lengths := congrArg List.length ids
  rwa [List.length_map, List.length_range', ← List.length_map (f := toHtml), map_toHtml_number] at lengths

/-- The subtrees with their places in document order. -/
theorem zipIdx_subtrees (tree : HtmlTree) :
    tree.subtrees.zipIdx = (tree.number 0).subtrees.map fun u => (toHtml u, topId u) := by
  have places : (tree.number 0).subtrees.map topId = List.range' 0 tree.subtrees.length := by
    rw [length_subtrees]
    exact ids_number 0 tree
  rw [List.zipIdx_eq_zip_range', ← places, ← map_toHtml_number, List.zip_map']

/-- What is found from the top on, where it does not matter which nodes have parents. -/
theorem findAll_top {p : Condition} {holds : Node → Bool} (free : ∀ v hasParent, p.holds v hasParent = holds v)
    (tree : HtmlTree) :
    tree.findAll 0 p = (tree.number 0).subtrees.filterMap fun u =>
      if holds u.value.2 then some (topId u, toHtml u) else none := by
  have every : tree.visits.take tree.size = tree.visits := by
    apply List.take_of_length_le
    rw [← length_subtrees, subtrees, List.length_map]
  have first : ∃ rest, tree.visits = (0, tree) :: rest := by
    cases tree
    exact ⟨_, walk_node 0 _ _⟩
  obtain ⟨rest, visits⟩ := first
  have found : tree.findAll 0 p = tree.subtrees.zipIdx.filterMap fun x =>
      if holds x.1.value then some (x.2, x.1) else none := by
    rw [visits] at every
    rw [findAll, visits, List.drop_zero]
    dsimp only
    rw [every, subtrees, visits, List.zipIdx_map, List.filterMap_map]
    congr 1
    funext x
    dsimp only [Function.comp, Prod.map, id]
    rw [free]
  rw [found, zipIdx_subtrees, List.filterMap_map]
  congr 1
  funext u
  cases u
  rfl

end Tree

namespace Document

theorem inlineOf_fields {d i : Document} {host : NodeId} {t : HtmlTree} {startTag : Extent}
    (made : d.inlineOf host t startTag = .ok i) :
    i.host = some host ∧ i.contents = t.textContent ∧ i.body = .text := by
  unfold inlineOf at made
  cases embedding : d.embedding with
  | none =>
    rw [embedding] at made
    cases made
    exact ⟨rfl, rfl, rfl⟩
  | some e =>
    rw [embedding] at made
    dsimp only at made
    cases outer : e.toOuter (d.lineTable.position startTag.stop) with
    | error cause =>
      rw [outer] at made
      cases made
    | ok p =>
      rw [outer] at made
      cases made
      exact ⟨rfl, rfl, rfl⟩

/-- A text document with its host and its contents. -/
structure ReadFrom (entry : NodeId × Text) (i : Document) : Prop where
  host : i.host = some entry.1
  contents : i.contents = entry.2
  body : i.body = .text

theorem location_of_raw {source : Text} {tree t : HtmlTree} (parsed : parseHtml source = .ok tree)
    (member : t ∈ tree.subtrees) {name : String} (named : t.value.content.elementName? = some name)
    (raw : isRawText name = true) :
    ∃ startTag endTag given, t.value.location = some (.element startTag endTag given) := by
  obtain ⟨above, shaped⟩ := (parseHtml_shaped parsed).1.at_subtree member
  unfold Shaped Placed Structural at shaped
  cases content : t.value.content <;> rw [content] at shaped named <;> cases named
  rcases shaped with placed | structural
  · exact placed.2.2
  · refine absurd (mem_structuralNames.2 ?_) (ordinary_of_isRawText raw)
    exact structural.1.imp And.left And.left

/-- The inline documents of a document are the texts of its hosts. -/
theorem inlineDocuments_hosts {d : Document} {tree : HtmlTree} (parsed : parseHtml d.contents = .ok tree)
    (body : d.body = .html tree) (proper : ∀ e ∈ d.embedding, e.Proper) :
    ∃ inlines, d.inlineDocuments inlineNames = .ok inlines ∧
      List.Forall₂ ReadFrom (inlineHosts (tree.number 0)) inlines := by
  unfold inlineDocuments
  rw [body]
  dsimp only
  rw [Tree.findAll_top holds_inlineNames, List.filterMap_filterMap]
  apply mapM_filterMap_ok
  intro u member
  have inTree : toHtml u ∈ tree.subtrees := by
    rw [← Tree.map_toHtml_number]
    exact List.mem_map_of_mem member
  have value : (toHtml u).value = u.value.2 := by
    cases u
    rfl
  unfold inlineHost?
  cases content : u.value.2.content with
  | element name attributes =>
    cases raw : isRawText name with
    | false => simp [Content.elementName?, raw]
    | true =>
      have named : (toHtml u).value.content.elementName? = some name := by
        rw [value, content]
        rfl
      obtain ⟨startTag, endTag, given, located⟩ := location_of_raw parsed inTree named raw
      obtain ⟨texts, before, after, whole, stop⟩ :=
        parseHtml_rawInPlace parsed _ inTree name named raw _ located
      rw [← Tree.textContent_eq named texts] at whole
      obtain ⟨i, made, _⟩ := inlineOf_standsAt proper whole stop (topId u)
      obtain ⟨hosted, contents, read⟩ := inlineOf_fields made
      rw [Tree.textContent_eq named texts, toHtml_eq] at contents
      rw [value] at located
      change d.inlineOf _ _ startTag = _ at made
      cases source : attributes.has "src" with
      | true => simp [Content.elementName?, raw, value, content, located, Content.attributes, source]
      | false =>
        right
        refine ⟨(topId u, Tree.joinedText (u.children.map toHtml)), i, if_pos ⟨raw, source⟩, ?_,
          hosted, contents, read⟩
        simp [Content.elementName?, raw, value, content, located, Content.attributes, source, made]
  | _ => exact .inl ⟨rfl, rfl⟩

end Document

end LocatedHtml
