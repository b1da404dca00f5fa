import LocatedHtml.Proofs.Construction.Finished
import LocatedHtml.Proofs.Construction.Shells
import LocatedHtml.Proofs.Numbering

/-!
The shape that the document of every source has, whatever its source leaves out, repeats or misplaces.
-/

namespace LocatedHtml

/-- An element has the location of an element, if it has one. -/
def Shell.Located (s : Shell) : Prop :=
  ∀ location ∈ s.location, ∃ startTag endTag given, location = .element startTag endTag given

/-- The document itself, or a structural element in its place. -/
def Structural (above : List String) (v : Node) : Prop :=
  match v.content with
  | .document => above = [] ∧ v.location = none
  | .element name attributes =>
    (name = "html" ∧ above = [] ∨ (name = "head" ∨ name = "body") ∧ above = ["html"]) ∧
      Shell.Located ⟨attributes, v.location⟩
  | _ => False

/-- A node stands in a document where it belongs. -/
def Shaped (above : List String) (t : HtmlTree) : Prop := Placed above t ∨ Structural above t.value

namespace Tree

/-- The names of the elements directly below the top, in order. -/
def childNames (t : HtmlTree) : List String := t.children.filterMap (·.value.content.elementName?)

theorem childNames_shell (s : Shell) (name : String) (cs ts : List HtmlTree) :
    (s.toTree name cs :: ts).filterMap (·.value.content.elementName?) =
      name :: ts.filterMap (·.value.content.elementName?) := rfl

theorem elementNames_node (v : Node) (cs : List HtmlTree) :
    (Tree.node v cs).elementNames = v.content.elementName?.toList ++ cs.flatMap elementNames := by
  unfold elementNames
  rw [subtrees_node, List.filterMap_cons, List.filterMap_flatMap]
  cases name : v.content.elementName? <;> simp only [value, name] <;> rfl

end Tree

/-- The shape of a document: the structural elements are there once each, in their places, nodes have
children, locations and parents as their kinds have. -/
structure DocumentShape (tree : HtmlTree) : Prop where
  root : tree.value.content = .document
  html : tree.childNames = ["html"]
  sections : ∀ t ∈ tree.children, t.value.content.elementName? = some "html" →
    t.childNames = ["head", "body"]
  structural : tree.elementNames.filter structuralNames.contains = ["html", "head", "body"]
  headContent : ∀ t ∈ tree.subtrees, t.value.content.elementName? = some "head" →
    ∀ name ∈ t.childNames, name ∈ headContentNames
  blank : ∀ t ∈ tree.subtrees,
    (t.value.content = .document ∨ t.value.content.elementName? = some "html" ∨
      t.value.content.elementName? = some "head") →
    ∀ c ∈ t.children, ∀ value, c.value.content = .text value → value.allBlank = true
  leaves : ∀ t ∈ tree.subtrees, t.children ≠ [] →
    t.value.content = .document ∨
      ∃ name, t.value.content.elementName? = some name ∧ isVoid name = false
  unlocated : ∀ place ∈ tree.places [],
    (place.2.value.location = none ↔
      place.2.value.content = .document ∨ place.2.value.isInjected (!place.1.isEmpty) = true)
  located : ∀ t ∈ tree.subtrees, ∀ location ∈ t.value.location,
    if t.value.content.isElement then
      ∃ startTag endTag given, location = .element startTag endTag given
    else ∃ extent, location = .plain extent
  unparented : (Forest.plant {} tree).parent? 0 = none
  parented : ∀ t ∈ (Forest.plant {} tree).subtrees, ∀ c ∈ t.children,
    (Forest.plant {} tree).parent? (NumberedTree.topId c) = some t ∧
      ((Forest.plant {} tree).childIds (NumberedTree.topId t)).count (NumberedTree.topId c) = 1

theorem Placed.ordinary {above : List String} {t : HtmlTree} (placed : Placed above t) {name : String}
    (named : t.value.content.elementName? = some name) : ElementPlaced above name := by
  unfold Placed at placed
  cases content : t.value.content <;> rw [content] at placed named <;> cases named
  exact placed.1

theorem Shaped.located {above : List String} {t : HtmlTree} (shaped : Shaped above t) :
    ∀ location ∈ t.value.location,
      if t.value.content.isElement then
        ∃ startTag endTag given, location = .element startTag endTag given
      else ∃ extent, location = .plain extent := by
  intro location present
  rcases shaped with placed | structural
  · unfold Placed at placed
    cases content : t.value.content with
    | document =>
      rw [content] at placed
      exact placed.elim
    | element name attributes =>
      rw [content] at placed
      obtain ⟨_, _, startTag, endTag, given, located⟩ := placed
      rw [located] at present
      cases present
      exact ⟨startTag, endTag, given, rfl⟩
    | text value =>
      rw [content] at placed
      obtain ⟨_, _, extent, located⟩ := placed
      rw [located] at present
      cases present
      exact ⟨extent, rfl⟩
    | comment value | doctype value =>
      rw [content] at placed
      obtain ⟨_, extent, located⟩ := placed
      rw [located] at present
      cases present
      exact ⟨extent, rfl⟩
  · unfold Structural at structural
    cases content : t.value.content with
    | document =>
      rw [content] at structural
      rw [structural.2] at present
      cases present
    | element name attributes =>
      rw [content] at structural
      exact structural.2 location present
    | text value | comment value | doctype value =>
      rw [content] at structural
      exact structural.elim

theorem Placed.childless {above : List String} {t : HtmlTree} (placed : Placed above t)
    (parent : t.children ≠ []) :
    ∃ name, t.value.content.elementName? = some name ∧ isVoid name = false := by
  unfold Placed at placed
  cases content : t.value.content <;> rw [content] at placed
  case document => exact placed.elim
  case element name attributes =>
    refine ⟨name, rfl, ?_⟩
    rw [← Bool.not_eq_true]
    exact fun void => parent (placed.2.1 void)
  case text => exact absurd placed.2.1 parent
  case comment | doctype => exact absurd placed.1 parent

namespace Construction

variable {s : Construction}

/-- Directly outside of head and body there are no elements. -/
theorem Sound.unnamed (sound : s.Sound Placed) {stage : Stage} (outside : ¬stage.hasOpened) :
    (s.content stage).filterMap (·.value.content.elementName?) = [] := by
  rw [List.filterMap_eq_nil_iff]
  intro t member
  cases named : t.value.content.elementName? with
  | none => rfl
  | some name =>
    have placed := (sound.content stage t member).top.ordinary named
    have between : OutsideBody stage.above ∧ stage.above.head? ≠ some "head" := by
      unfold OutsideBody
      cases stage <;> simp [Stage.hasOpened, Stage.above] at outside ⊢
    exact absurd (placed.outside between.1).1 between.2

theorem Sound.content_ordinary (sound : s.Sound Placed) (stage : Stage) :
    ((s.content stage).flatMap Tree.elementNames).filter structuralNames.contains = [] := by
  rw [List.filter_eq_nil_iff]
  intro name member structural
  obtain ⟨t, inside, named⟩ := List.mem_flatMap.1 member
  obtain ⟨u, below, named⟩ := List.mem_filterMap.1 named
  obtain ⟨above, placed⟩ := (sound.content stage t inside).at_subtree below
  exact (placed.ordinary named).ordinary (List.contains_iff_mem.1 structural)

theorem Sound.toTree_shaped (sound : s.Sound Placed)
    (shells : Shells (fun _ shell => shell.Located) s.frame) : Everywhere Shaped [] s.toTree := by
  have weaker : s.Sound Shaped := sound.imp fun _ _ => .inl
  apply weaker.toTree
  · exact fun cs => .inr ⟨rfl, rfl⟩
  · exact fun cs => .inr ⟨.inl ⟨rfl, rfl⟩, shells.html⟩
  · exact fun cs => .inr ⟨.inr ⟨.inl rfl, rfl⟩, shells.head⟩
  · exact fun cs => .inr ⟨.inr ⟨.inr rfl, rfl⟩, shells.body⟩

/-- The document has `html` and no other element directly below it, and `html` has head and body. -/
theorem Sound.toTree_sections (sound : s.Sound Placed) :
    s.toTree.childNames = ["html"] ∧
      ∀ t ∈ s.toTree.children, t.value.content.elementName? = some "html" →
        t.childNames = ["head", "body"] := by
  have closed := sound.close s.opened.length
  change s.closeAll.Sound Placed at closed
  have unnamed (stage : Stage) (outside : ¬stage.hasOpened) := closed.unnamed outside
  have before := unnamed .beforeHtml (by simp [Stage.hasOpened])
  have after := unnamed .afterHtml (by simp [Stage.hasOpened])
  rw [toTree_eq]
  constructor
  · rw [Tree.childNames, Tree.children, List.filterMap_append, before,
      Tree.childNames_shell, after]
    rfl
  · intro t member named
    have apart (stage : Stage) (none : (s.closeAll.content stage).filterMap
        (·.value.content.elementName?) = []) : t ∉ s.closeAll.content stage := by
      intro inside
      have unnamed := List.filterMap_eq_nil_iff.1 none t inside
      rw [named] at unnamed
      cases unnamed
    rcases List.mem_append.1 member with inside | member
    · exact absurd inside (apart _ before)
    · rcases List.mem_cons.1 member with rfl | inside
      · rw [Tree.childNames, Shell.toTree, Tree.children, List.filterMap_append, List.filterMap_append,
          unnamed .beforeHead (by simp [Stage.hasOpened]),
          Tree.childNames_shell,
          unnamed .afterHead (by simp [Stage.hasOpened]),
          Tree.childNames_shell,
          unnamed .afterBody (by simp [Stage.hasOpened])]
        rfl
      · exact absurd inside (apart _ after)

theorem Sound.toTree_structural (sound : s.Sound Placed) :
    s.toTree.elementNames.filter structuralNames.contains = ["html", "head", "body"] := by
  have closed := sound.close s.opened.length
  change s.closeAll.Sound Placed at closed
  have content := closed.content_ordinary
  rw [toTree_eq]
  simp only [Shell.toTree, Tree.elementNames_node, List.flatMap_append, List.flatMap_cons,
    List.filter_append, content]
  rfl

end Construction

theorem Shaped.document_above {above : List String} {t : HtmlTree} (shaped : Shaped above t)
    (document : t.value.content = .document) : above = [] ∧ t.value.location = none := by
  rcases shaped with placed | structural
  · unfold Placed at placed
    rw [document] at placed
    exact placed.elim
  · unfold Structural at structural
    rwa [document] at structural

/-- A node below the document is without a location exactly if it is an injected element. -/
theorem Shaped.unlocated {above : List String} {t : HtmlTree} (shaped : Shaped above t)
    (inner : t.value.content ≠ .document) :
    t.value.location = none ↔ t.value.isInjected true = true := by
  rcases shaped with placed | structural
  · have located := placed.location_ne_none
    simp [Node.isInjected_of_located located, located]
  · unfold Structural at structural
    cases content : t.value.content <;> rw [content] at structural
    case document => exact absurd content inner
    case element name attributes =>
      have structural : name ∈ structuralNames := by
        rcases structural.1 with ⟨rfl, _⟩ | ⟨rfl | rfl, _⟩ <;> decide
      simp [Node.isInjected, content, Content.elementName?, structural]
    all_goals exact structural.elim

/-- The nodes of a document that have no location are the document and the injected elements. -/
theorem unlocated_of_shaped {tree : HtmlTree} (shaped : Everywhere Shaped [] tree)
    (root : tree.value.content = .document) {place : List Node × HtmlTree}
    (member : place ∈ tree.places []) :
    place.2.value.location = none ↔
      place.2.value.content = .document ∨ place.2.value.isInjected (!place.1.isEmpty) = true := by
  rcases Tree.places_above member with rfl | inner
  · simp [root, Node.isInjected, Content.elementName?, (shaped.top.document_above root).2]
  · have here := shaped.at_place rfl member
    by_cases document : place.2.value.content = .document
    · simp [document, (here.document_above document).2]
    · have below : (!place.1.isEmpty) = true := by simpa using inner
      rw [below, here.unlocated document]
      simp [document]

theorem documentShape_of_shaped {tree : HtmlTree} (shaped : Everywhere Shaped [] tree)
    (root : tree.value.content = .document) (sections : tree.childNames = ["html"] ∧
      ∀ t ∈ tree.children, t.value.content.elementName? = some "html" →
        t.childNames = ["head", "body"])
    (structural : tree.elementNames.filter structuralNames.contains = ["html", "head", "body"]) :
    DocumentShape tree where
  root := root
  html := sections.1
  sections := sections.2
  structural := structural
  headContent t member head name named := by
    obtain ⟨c, child, named⟩ := List.mem_filterMap.1 named
    obtain ⟨above, _, below⟩ := shaped.at_child member child
    rw [Content.namesBelow, head] at below
    rcases below with placed | misplaced
    · refine ((placed.ordinary named).outside ?_).2
      rintro _ ⟨⟩
      exact .inr rfl
    · unfold Structural at misplaced
      cases content : c.value.content <;> rw [content] at misplaced named <;> cases named
      simp at misplaced
  blank t member outside c child value text := by
    obtain ⟨above, top, below⟩ := shaped.at_child member child
    rcases below with placed | misplaced
    · unfold Placed at placed
      rw [text] at placed
      apply placed.1
      rcases outside with document | html | head
      · rw [(top.document_above document).1, Content.namesBelow, document]
        rintro _ ⟨⟩
      · rw [Content.namesBelow, html]
        rintro _ ⟨⟩
        exact .inl rfl
      · rw [Content.namesBelow, head]
        rintro _ ⟨⟩
        exact .inr rfl
    · unfold Structural at misplaced
      rw [text] at misplaced
      exact misplaced.elim
  leaves t member parent := by
    obtain ⟨above, placed | structural⟩ := shaped.at_subtree member
    · exact .inr (placed.childless parent)
    · unfold Structural at structural
      cases content : t.value.content <;> rw [content] at structural
      case document => exact .inl rfl
      case element name attributes =>
        refine .inr ⟨name, rfl, ?_⟩
        rcases structural.1 with ⟨rfl, _⟩ | ⟨rfl | rfl, _⟩ <;> decide
      all_goals exact structural.elim
  unlocated _ := unlocated_of_shaped shaped root
  located t member := by
    obtain ⟨above, shaped⟩ := shaped.at_subtree member
    exact shaped.located
  unparented := Forest.parent?_top tree
  parented t member c child := ⟨Forest.parent?_plant tree member child,
    Forest.count_childIds_plant tree member child⟩

theorem shells_located (xs : List Lexeme) (size : Nat) :
    Construction.Shells (fun _ shell => shell.Located)
      ((xs.foldl Construction.add {}).endText size).frame := by
  apply Construction.Shells.endText
  apply Construction.Shells.run
  · rintro name location ⟨⟩
  · intro x _
    refine ⟨fun name shell attributes selfClosing _ _ located => located, ?_, ?_⟩
    · rintro name attributes selfClosing _ location ⟨⟩
      exact ⟨_, _, _, rfl⟩
    · intro name shell _ located location present
      obtain ⟨before, there, rfl⟩ := Option.map_eq_some_iff.1 present
      obtain ⟨startTag, endTag, given, rfl⟩ := located before there
      exact ⟨_, _, _, rfl⟩

theorem parseHtml_shaped {source : Text} {tree : HtmlTree} (parsed : parseHtml source = .ok tree) :
    Everywhere Shaped [] tree ∧ tree.value.content = .document := by
  obtain ⟨xs, _, rfl⟩ := parseHtml_eq_toTree parsed
  have sound := (Construction.WellPlaced.of_lexemes xs).endText source.length
  exact ⟨sound.toTree_shaped (shells_located xs source.length), rfl⟩

/-- Every document has the shape of documents. -/
theorem parseHtml_documentShape {source : Text} {tree : HtmlTree}
    (parsed : parseHtml source = .ok tree) : DocumentShape tree := by
  obtain ⟨shaped, root⟩ := parseHtml_shaped parsed
  obtain ⟨xs, _, rfl⟩ := parseHtml_eq_toTree parsed
  have sound := (Construction.WellPlaced.of_lexemes xs).endText source.length
  exact documentShape_of_shaped shaped root sound.toTree_sections sound.toTree_structural

theorem parseHtml_documentShape_reentered :
    ∃ tree, parseHtml "<title>a</title>b</html><head><p>c".toList = .ok tree ∧
      tree.elementNames = ["html", "head", "title", "body", "p"] ∧ DocumentShape tree := by
  have known :
      (parseHtml "<title>a</title>b</html><head><p>c".toList).toOption.map Tree.elementNames =
        some ["html", "head", "title", "body", "p"] := by decide +kernel
  obtain ⟨tree, parsed, names⟩ := parseHtml_of_map known
  exact ⟨tree, parsed, names, parseHtml_documentShape parsed⟩

end LocatedHtml
