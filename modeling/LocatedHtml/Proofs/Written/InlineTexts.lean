import LocatedHtml.Proofs.Numbering
import LocatedHtml.Proofs.Written.NormalShape
import LocatedHtml.Proofs.Written.Rendering

/-!
The texts of a tree that are documents of their own. They can be told from the tree, with the numbers of
the elements that host them, and from the events of the tree.
-/

namespace LocatedHtml

/-- The text of an event that is a document of its own. -/
def Event.inlineText? : Event → Option Text
  | .raw _ attributes value => if attributes.has "src" then none else some value
  | _ => none

namespace NumberedTree

/-- An element whose content is read as text. -/
def IsRaw (t : NumberedTree) : Prop :=
  ∃ name attributes, t.value.2.content = .element name attributes ∧ isRawText name = true

/-- The number of an element whose text is a document of its own, with the text. -/
def inlineHost? (t : NumberedTree) : Option (NodeId × Text) :=
  match t.value.2.content with
  | .element name attributes =>
    if isRawText name = true ∧ attributes.has "src" = false then
      some (t.topId, Tree.joinedText (t.children.map toHtml))
    else none
  | _ => none

/-- All elements whose texts are documents of their own, with the texts. -/
def inlineHosts (t : NumberedTree) : List (NodeId × Text) := t.subtrees.filterMap inlineHost?

variable {t : NumberedTree}

theorem inlineHosts_node (v : NodeId × Node) (cs : List NumberedTree) :
    inlineHosts (.node v cs) = (inlineHost? (.node v cs)).toList ++ cs.flatMap inlineHosts := by
  unfold inlineHosts
  rw [Tree.subtrees_node, List.filterMap_cons, List.filterMap_flatMap]
  cases inlineHost? (.node v cs) <;> rfl

theorem inlineHost?_of_unnamed (unnamed : t.value.2.content.elementName? = none) : inlineHost? t = none := by
  unfold inlineHost?
  cases content : t.value.2.content with
  | element name attributes => rw [content] at unnamed; cases unnamed
  | _ => rfl

theorem inlineHost?_of_cooked {name : String} {attributes : OrderedMap Text}
    (content : t.value.2.content = .element name attributes) (cooked : isRawText name = false) :
    inlineHost? t = none := by
  rw [inlineHost?, content]
  simp [cooked]

theorem inlineHost?_eq_some {p : NodeId × Text} (hosts : inlineHost? t = some p) : IsRaw t ∧ p.1 = topId t := by
  unfold inlineHost? at hosts
  split at hosts
  · next name attributes content =>
    split at hosts
    · next both =>
      cases hosts
      exact ⟨⟨name, attributes, content, both.1⟩, rfl⟩
    · cases hosts
  · cases hosts

theorem nodup_inlineHosts (distinct : (ids t).Nodup) : ((inlineHosts t).map Prod.fst).Nodup := by
  rw [List.Nodup, List.pairwise_map, inlineHosts, List.pairwise_filterMap]
  refine (List.pairwise_map.1 distinct).imp fun {u w} other p first q second => ?_
  rw [(inlineHost?_eq_some first).2, (inlineHost?_eq_some second).2]
  exact other

/-- A numbered text has no children either. -/
theorem exists_text (text : t.toHtml.IsText) : ∃ v value, t = .node v [] ∧ v.2.content = .text value := by
  obtain ⟨v, value, html, content⟩ := text
  obtain ⟨w, cs⟩ := t
  rw [toHtml_node] at html
  injection html with same none
  exact ⟨w, value, by rw [List.map_eq_nil_iff.1 none], same ▸ content⟩

theorem inlineHosts_texts {cs : List NumberedTree} (texts : ∀ c ∈ cs, c.toHtml.IsText) :
    cs.flatMap inlineHosts = [] := by
  rw [List.flatMap_eq_nil_iff]
  intro c child
  obtain ⟨v, value, rfl, content⟩ := exists_text (texts c child)
  rw [inlineHosts_node, inlineHost?_of_unnamed (by rw [Tree.value, content]; rfl)]
  rfl

/-- The events of a tree show the texts that are documents of their own. -/
theorem inlineText_events {above : List String} (trim : Everywhere (fun _ => Trim) above t.toHtml) :
    t.toHtml.events.filterMap Event.inlineText? = (inlineHosts t).map Prod.snd := by
  induction t using Tree.induction generalizing above with
  | node v cs ih =>
    rw [toHtml_node] at trim ⊢
    have inner : ((cs.map toHtml).flatMap Tree.events).filterMap Event.inlineText? =
        (cs.flatMap inlineHosts).map Prod.snd := by
      rw [List.flatMap_map, List.filterMap_flatMap, List.map_flatMap]
      exact List.flatMap_congr fun c child => ih c child (trim.child _ (List.mem_map_of_mem child))
    have childless (none : cs.map toHtml = []) : cs = [] := List.map_eq_nil_iff.1 none
    rw [Tree.events_node, inlineHosts_node]
    cases content : v.2.content with
    | document =>
      rw [inlineHost?_of_unnamed (by rw [Tree.value, content]; rfl)]
      exact inner
    | element name attributes =>
      obtain ⟨void_, raw_⟩ := trim.top.element content
      have cooked_ (cooked : isRawText name = false) : inlineHost? (.node v cs) = none :=
        inlineHost?_of_cooked content cooked
      dsimp only
      split
      · next injected =>
        have structural := Node.structural_of_isInjected injected (by rw [content]; rfl)
        rw [cooked_ (isVoid_structural structural).2]
        exact inner
      · split
        · next void =>
          rw [cooked_ (not_isRawText_of_isVoid void), childless (void_ void)]
          rfl
        · split
          · next raw =>
            -- the children are texts, which host nothing
            rw [inlineHosts_texts fun c child => raw_ raw _ (List.mem_map_of_mem child), inlineHost?, Tree.value,
              content]
            cases source : attributes.has "src" <;> simp [raw, source, Event.inlineText?, Tree.children]
          · next cooked =>
            rw [cooked_ (Bool.eq_false_iff.2 cooked), List.filterMap_cons, List.filterMap_append, inner]
            exact List.append_nil _
    | text value =>
      rw [inlineHost?_of_unnamed (by rw [Tree.value, content]; rfl),
        childless (trim.top.leaf (by rw [content]; rintro ⟨⟩) (by rw [content]; rfl))]
      simp [List.filterMap_map, Function.comp_def, Event.inlineText?]
    | comment value | doctype value =>
      rw [inlineHost?_of_unnamed (by rw [Tree.value, content]; rfl),
        childless (trim.top.leaf (by rw [content]; rintro ⟨⟩) (by rw [content]; rfl))]
      rfl

end NumberedTree

end LocatedHtml
