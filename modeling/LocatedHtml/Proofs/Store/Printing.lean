import LocatedHtml.Proofs.DocumentShape
import LocatedHtml.Proofs.Forest.Filling
import LocatedHtml.Proofs.Written.Rendering

/-!
The markup of a tree with other texts in some of its nodes, printed node by node: nothing is copied, put
in or taken out.
-/

namespace LocatedHtml

open NumberedTree Unwritten

namespace NumberedTree

mutual

/-- The markup of a tree. A node that gets a text has it between its tags; documents and injected elements
have no tags. `verbatim` says that the texts directly here are written without escapes. -/
def printed (texts : NodeId → Option Text) (verbatim : Bool) : NumberedTree → Text
  | .node v cs =>
    match v.2.content with
    | .document => printedAll texts false cs
    | .element name attributes =>
      if v.2.isInjected true then printedAll texts (isVerbatim name) cs
      else match texts v.1 with
        | some value =>
          writtenStartTag name attributes ++ writtenText (isVerbatim name) value ++ writtenEndTag name
        | none =>
          writtenStartTag name attributes ++
            if isVoid name then [] else printedAll texts (isVerbatim name) cs ++ writtenEndTag name
    | .text value => writtenText verbatim value
    | .comment value => writtenComment value
    | .doctype value => writtenDoctype value

/-- The markup of some trees next to one another. -/
def printedAll (texts : NodeId → Option Text) (verbatim : Bool) : List NumberedTree → Text
  | [] => []
  | t :: ts => printed texts verbatim t ++ printedAll texts verbatim ts

end

theorem printedAll_eq (texts : NodeId → Option Text) (verbatim : Bool) (ts : List NumberedTree) :
    printedAll texts verbatim ts = ts.flatMap (printed texts verbatim) := by
  induction ts with
  | nil => rfl
  | cons t ts ih => rw [printedAll, ih, List.flatMap_cons]

theorem printed_congr {texts texts' : NodeId → Option Text} {t : NumberedTree}
    (same : ∀ n ∈ ids t, texts n = texts' n) (verbatim : Bool) :
    printed texts verbatim t = printed texts' verbatim t := by
  induction t using Tree.induction generalizing verbatim with
  | node v cs ih =>
    rw [ids_node, List.forall_mem_cons] at same
    have inside (verbatim : Bool) : printedAll texts verbatim cs = printedAll texts' verbatim cs := by
      rw [printedAll_eq, printedAll_eq]
      apply List.flatMap_congr
      intro c child
      exact ih c child (fun n member => same.2 n (List.mem_flatMap.2 ⟨c, child, member⟩)) verbatim
    rw [printed, printed]
    simp only [inside, same.1]

theorem printed_map (texts : NodeId → Option Text) (g : NodeId → NodeId) (t : NumberedTree)
    (verbatim : Bool) :
    printed texts verbatim (t.map (Prod.map g id)) = printed (fun n => texts (g n)) verbatim t := by
  induction t using Tree.induction generalizing verbatim with
  | node v cs ih =>
    have inside (verbatim : Bool) : printedAll texts verbatim (Tree.mapAll (Prod.map g id) cs) =
        printedAll (fun n => texts (g n)) verbatim cs := by
      rw [Tree.mapAll_eq, printedAll_eq, printedAll_eq, List.flatMap_map]
      exact List.flatMap_congr fun c child => ih c child verbatim
    rw [Tree.map, printed, printed]
    simp only [inside]
    rfl

/-- A tree without injected elements of which no node gets a text is printed as it is written. -/
theorem printed_eq_outerHtml {texts : NodeId → Option Text} {t : NumberedTree}
    (plain : t.All fun v => v.2.isInjected true = false ∧ texts v.1 = none) (verbatim : Bool) :
    printed texts verbatim t = t.toHtml.outerHtml verbatim := by
  induction t using Tree.induction generalizing verbatim with
  | node v cs ih =>
    obtain ⟨⟨stays, empty⟩, below⟩ := Tree.all_node.1 plain
    have inside (content : Content) : printedAll texts content.isVerbatimParent cs =
        write (ofChildren content (cs.map NumberedTree.toHtml)) := by
      rw [printedAll_eq, ofChildren, List.map_eq_flatMap, write_flatMap, List.flatMap_map]
      exact List.flatMap_congr fun c child => ih c child (below c child) content.isVerbatimParent
    rw [toHtml_node, Tree.outerHtml, write, printed, stays, empty]
    cases content : v.2.content with
    | document =>
      dsimp only
      rw [List.append_nil]
      exact inside .document
    | element name attributes =>
      dsimp only
      rw [if_neg Bool.false_ne_true]
      split
      · rw [write]
      · rw [write_append, write, write, List.append_nil]
        exact congrArg (fun s => writtenStartTag name attributes ++ (s ++ writtenEndTag name))
          (inside (.element name attributes))
    | text value | comment value | doctype value =>
      dsimp only
      rw [write, List.append_nil]

/-- An element that can hold a text and stays where it is. -/
structure IsHost (t : NumberedTree) : Prop where
  located : t.value.2.location ≠ none
  element : ∃ name attributes, t.value.2.content = .element name attributes ∧ isVoid name = false

end NumberedTree

/-- True of texts below the elements of the given names, nearest first, if they are written without
escapes. -/
def verbatimBelow (above : List String) : Bool :=
  match above with
  | [] => false
  | name :: _ => isVerbatim name

/-- To take a node out if it is injected does not change how the texts in it are written. -/
def SplicesPlainly (above : List String) (t : HtmlTree) : Prop :=
  (t.value.isInjected true = true → verbatimBelow above = false) ∧
    (t.value.content = .document → above = [])

/-- A host is written with the text that it holds between its tags. -/
theorem write_host {v : NodeId × Node} {cs : List NumberedTree} {name : String}
    {attributes : OrderedMap Text} (host : IsHost (.node v cs))
    (content : v.2.content = .element name attributes) (leaf : NodeId) (value : Text) (verbatim : Bool) :
    write ((NumberedTree.toHtml (.node v [textLeaf leaf value])).spliced.map (.tree verbatim)) =
      writtenStartTag name attributes ++ writtenText (isVerbatim name) value ++ writtenEndTag name := by
  obtain ⟨located, other, entries, element, open_⟩ := host
  dsimp only [Tree.value] at located element
  rw [content] at element
  obtain ⟨rfl, rfl⟩ := Content.element.inj element
  have inside : ([textLeaf leaf value].map NumberedTree.toHtml).flatMap Tree.spliced =
      [.node ⟨.text value, none⟩ []] := rfl
  rw [toHtml_node, Tree.spliced_of_stays (Node.isInjected_of_located located true), inside,
    List.map_singleton, write, content]
  dsimp only
  rw [open_, if_neg Bool.false_ne_true, ofChildren, List.map_singleton, write_append, write, write, write,
    write, List.append_nil, ← List.append_assoc]
  dsimp only
  rw [List.append_nil, List.append_nil]
  rfl

/-- What is written for a tree with texts in some nodes, without its injected elements, is what is printed
for the tree. -/
theorem write_filled (held : Held) {above : List String} {t : NumberedTree}
    (plain : Everywhere SplicesPlainly above t.toHtml)
    (hosts : ∀ u ∈ t.subtrees, held.lookup (topId u) ≠ none → IsHost u) :
    write ((filled held t).toHtml.spliced.map (.tree (verbatimBelow above))) =
      printed (fun n => (held.lookup n).map Prod.snd) (verbatimBelow above) t := by
  induction t using Tree.induction generalizing above with
  | node v cs ih =>
    rw [toHtml_node] at plain
    have top := plain.top
    have below := plain.child
    dsimp only [Tree.value, Tree.children] at top below
    have inside (names : List String) (same : v.2.content.namesBelow above = names) :
        write ((((cs.map (filled held)).map NumberedTree.toHtml).flatMap Tree.spliced).map
          (.tree (verbatimBelow names))) =
        printedAll (fun n => (held.lookup n).map Prod.snd) (verbatimBelow names) cs := by
      rw [printedAll_eq, List.map_flatMap, write_flatMap, List.flatMap_map, List.flatMap_map]
      apply List.flatMap_congr
      intro c child
      apply ih c child
      · rw [← same]
        exact below _ (List.mem_map_of_mem child)
      · intro u member
        exact hosts u (Tree.mem_subtrees_node.2 (.inr ⟨c, child, member⟩))
    rw [printed]
    cases here : held.lookup v.1 with
    | some entry =>
      have host : IsHost (.node v cs) :=
        hosts _ (Tree.mem_subtrees_self _) (by rw [topId, Tree.value, here]; exact Option.some_ne_none entry)
      obtain ⟨name, attributes, content, _⟩ := host.element
      dsimp only [Tree.value] at content
      rw [filled_of_some here, write_host host content, content]
      dsimp only [Option.map]
      have stays : v.2.isInjected true = false := Node.isInjected_of_located host.located true
      rw [stays, if_neg Bool.false_ne_true]
    | none =>
      have stays (unnamed : v.2.content.elementName? = none) (us : List HtmlTree) :=
        Tree.spliced_of_stays (Node.isInjected_of_unnamed unnamed true) us
      rw [filled_of_none here, toHtml_node]
      cases content : v.2.content with
      | document =>
        have children := inside above (by rw [content]; rfl)
        rw [top.2 content] at children ⊢
        rw [stays (by rw [content]; rfl), List.map_singleton, write, content]
        dsimp only
        rw [List.append_nil]
        exact children
      | element name attributes =>
        have children := inside (name :: above) (by rw [content]; rfl)
        rw [Tree.spliced_node]
        dsimp only
        split
        · next injected =>
          have structural := Node.structural_of_isInjected injected (by rw [content]; rfl)
          have same : verbatimBelow above = verbatimBelow (name :: above) := by
            rw [top.1 injected]
            exact (not_isVerbatim_of_structural structural).symm
          rw [same]
          exact children
        · rw [List.map_singleton, write, content]
          dsimp only [Option.map]
          split
          · rw [write]
          · rw [write_append, write, write, List.append_nil]
            congr 2
      | text value | comment value | doctype value =>
        rw [stays (by rw [content]; rfl), List.map_singleton, write, content]
        dsimp only
        rw [write, List.append_nil]

namespace Forest.Holds

variable {f : Forest} {l : Layout} {held : Held}

/-- Without injected elements the tree of a layout is written as it is printed with the texts that it
holds. -/
theorem innerHtml_eq (holds : f.Holds l held) (root : l.tree.value.content = .document)
    (plain : Everywhere SplicesPlainly [] l.tree)
    (hosts : ∀ u ∈ l.copy.subtrees, held.lookup (topId u) ≠ none → IsHost u) :
    ((f.removeInjected l.base).1.html? l.base).map Tree.innerHtml =
      some (printed (fun n => (held.lookup n).map Prod.snd) false l.copy) := by
  have same : l.copy.toHtml = l.tree := Tree.map_number l.base l.tree
  have shaped : Everywhere SplicesPlainly [] l.copy.toHtml := by rwa [same]
  have written := write_filled held shaped hosts
  have stays : l.tree.value.isInjected true = false := Node.isInjected_of_unnamed (by rw [root]; rfl) true
  rw [toHtml_eq, filled_value, Layout.value_copy, Tree.spliced_of_stays stays, List.map_singleton, write,
    root] at written
  dsimp only at written
  rw [List.append_nil] at written
  rw [holds.html?_removeInjected, Option.map_some, Tree.innerHtml, Tree.splicedAll_eq, Tree.mapAll_eq]
  change some (write (ofChildren l.tree.value.content _)) = _
  rw [root]
  exact congrArg some written

end Forest.Holds

end LocatedHtml
