import LocatedHtml.Proofs.Lexing.WritableTokens
import LocatedHtml.Proofs.Nested.Construction
import LocatedHtml.Proofs.Spans.Texts

/-!
A source behind a comment. The whole is read as the source by itself, moved, with the comment before
everything else, and a document that is embedded where the source starts tells the same spans.
-/

namespace LocatedHtml

theorem Tree.subtrees_inside (base : Mark) (t : HtmlTree) :
    (t.inside base).subtrees = t.subtrees.map (Tree.inside base) := by
  induction t using Tree.induction with
  | node v cs ih =>
    rw [Tree.inside_node, Tree.subtrees_node, Tree.subtrees_node, List.map_cons, Tree.inside_node,
      List.flatMap_map, List.map_flatMap]
    congr 1
    exact List.flatMap_congr ih

theorem Tree.attributeSpan?_unlocated {t : HtmlTree} (unlocated : t.value.location = none)
    (file name : String) : t.attributeSpan? file name = none := by
  rw [attributeSpan?, unlocated]
  rfl

/-- A comment at the start of a source. -/
def leadingComment (v : Text) : HtmlTree :=
  .node ⟨.comment v, some (.plain (.ofMark .origin (writtenComment v).length))⟩ []

/-- The tree of a source that stands behind a comment. -/
def Tree.behindComment (v : Text) (t : HtmlTree) : HtmlTree :=
  .node t.value (leadingComment v :: t.children.map (Tree.inside (Mark.origin.after (writtenComment v))))

variable {source v : Text} {tree : HtmlTree}

theorem parseHtml_behindComment (parsed : parseHtml source = .ok tree) (apart : '>' ∉ v) :
    parseHtml (writtenComment v ++ source) = .ok (tree.behindComment v) := by
  obtain ⟨xs, cut, rfl⟩ := parseHtml_eq_toTree parsed
  have base : Mark.origin.after (writtenComment v) =
      (Mark.origin.after (writtenComment v)).inside .origin := (Mark.inside_origin _).symm
  have cut : lexemes (writtenComment v ++ source) = .ok (⟨.origin, writtenComment v, .comment v⟩ ::
      xs.map (Lexeme.inside (Mark.origin.after (writtenComment v)))) := by
    rw [lexemes] at cut ⊢
    rw [lexemesFrom_comment (writableComment_of_not_mem apart), base, lexemesFrom_inside, cut,
      Mark.inside_origin]
    rfl
  have width : 0 + v.length + Construction.commentMarkupLength = (writtenComment v).length := by
    rw [writtenComment_length, Nat.zero_add]
    rfl
  have first : Construction.add {} ⟨.origin, writtenComment v, .comment v⟩ =
      Construction.inside (Mark.origin.after (writtenComment v)) [leadingComment v] {} := by
    rw [leadingComment, ← width]
    rfl
  have size : (writtenComment v ++ source).length =
      (Mark.origin.after (writtenComment v)).offset + source.length := by
    rw [List.length_append, Mark.after, Mark.origin, Nat.zero_add]
  rw [parseHtml, cut]
  change Except.ok (documentOf _ _) = _
  rw [documentOf, List.foldl_cons, first, Construction.inside_run, size, ← Construction.inside_endText,
    Construction.inside_toTree]
  rfl

namespace Document

/-- In a document that is embedded in a container without a name a span is told by moving it. -/
theorem toContainer_embedded {d : Document} {e : Embedding} (embedded : d.embedding = some e)
    (proper : e.Proper) (unnamed : e.file = none) (span : Option Span) :
    d.toContainer span = .ok (span.map (Span.inside e.base)) := by
  unfold toContainer
  rw [embedded]
  cases span with
  | none => rfl
  | some s =>
    have moved : s.toOuter e = .ok (s.inside e.base) := by
      rw [Span.toOuter, Embedding.toOuter_eq proper, Embedding.toOuter_eq proper, unnamed]
      rfl
    dsimp only
    rw [moved]
    rfl

/-- The node of a document that stands behind a comment at the place of a node of the document itself. -/
theorem node?_behindComment {inner outer : Document} (innerBody : inner.body = .html tree)
    (outerBody : outer.body = .html (tree.behindComment v)) {index : Nat} {t : HtmlTree}
    (here : inner.node? (index + 1) = some t) :
    outer.node? (index + 2) = some (t.inside (Mark.origin.after (writtenComment v))) := by
  unfold node? at here ⊢
  rw [innerBody] at here
  rw [outerBody]
  obtain ⟨w, cs⟩ := tree
  dsimp only at here ⊢
  rw [Tree.subtrees_node, List.getElem?_cons_succ] at here
  rw [Tree.behindComment, Tree.subtrees_node, List.getElem?_cons_succ, List.flatMap_cons, leadingComment,
    Tree.subtrees_node, List.flatMap_nil, List.singleton_append, List.getElem?_cons_succ,
    List.flatMap_map]
  simp only [Tree.subtrees_inside]
  rw [← List.map_flatMap, List.getElem?_map]
  change Option.map _ ((cs.flatMap Tree.subtrees)[index]?) = _
  rw [here]
  rfl

/-- A document that is embedded behind a comment tells the spans that the whole text tells. -/
theorem ofHtml_behindComment (parsed : parseHtml source = .ok tree) (apart : '>' ∉ v) (url : String) :
    let front := writtenComment v
    let start := (LineTable.ofText front).position front.length
    ∃ inner outer, Document.ofHtml url source (some ⟨start.line, start.column, none⟩) none = .ok inner ∧
      Document.ofHtml url (front ++ source) none none = .ok outer ∧
      parseHtml (front ++ source) = .ok (tree.behindComment v) ∧
      ∀ index t, inner.node? index = some t →
        ∃ u, outer.node? (if index = 0 then 0 else index + 1) = some u ∧
          (∃ span, inner.spanOf t = .ok span ∧ outer.spanOf u = .ok span) ∧
          ∀ name, ∃ span, inner.attributeSpanOf t name = .ok span ∧
            outer.attributeSpanOf u name = .ok span := by
  intro front start
  have whole := parseHtml_behindComment parsed apart
  have reached : start = (Mark.origin.after front).position := by
    change (LineTable.ofText front).position front.length = _
    rw [LineTable.position_eq (Nat.le_refl _), List.take_length]
    rfl
  have proper : Embedding.Proper ⟨start.line, start.column, none⟩ := Embedding.proper_ofPosition start none
  let inner : Document :=
    ⟨url, source, .html tree, true, some ⟨start.line, start.column, none⟩, none⟩
  let outer : Document := ⟨url, front ++ source, .html (tree.behindComment v), false, none, none⟩
  have spans (span : Option Span) :
      inner.toContainer span = .ok (span.map (Span.inside (Mark.origin.after front).position)) := by
    rw [← reached]
    exact toContainer_embedded rfl proper rfl span
  refine ⟨inner, outer, ?_, ?_, whole, ?_⟩
  · rw [ofHtml, parsed]
    rfl
  · rw [ofHtml, whole]
    rfl
  · intro index t here
    cases index with
    | zero =>
      have root : t = tree := by
        obtain ⟨w, cs⟩ := tree
        change (Tree.node w cs).subtrees[0]? = some t at here
        rw [Tree.subtrees_node, List.getElem?_cons_zero] at here
        exact (Option.some.inj here).symm
      have unlocated : tree.value.location = none := by
        obtain ⟨xs, _, rfl⟩ := parseHtml_eq_toTree parsed
        rfl
      have top : outer.node? 0 = some (tree.behindComment v) := by
        change (tree.behindComment v).subtrees[0]? = _
        rw [Tree.behindComment, Tree.subtrees_node, List.getElem?_cons_zero]
      refine ⟨_, top, ⟨none, ?_, ?_⟩, fun name => ⟨none, ?_, ?_⟩⟩
      · rw [spanOf, root, Tree.span?_unlocated unlocated]
        rfl
      · rw [spanOf, Tree.span?_unlocated (t := tree.behindComment v) unlocated]
        rfl
      · rw [attributeSpanOf, root, Tree.attributeSpan?_unlocated unlocated]
        rfl
      · rw [attributeSpanOf, Tree.attributeSpan?_unlocated (t := tree.behindComment v) unlocated]
        rfl
    | succ index =>
      refine ⟨_, node?_behindComment rfl rfl here, ⟨_, spans _, ?_⟩, fun name => ⟨_, spans _, ?_⟩⟩
      · rw [spanOf, toContainer_alone rfl, Tree.inside_span?]
      · rw [attributeSpanOf, toContainer_alone rfl, Tree.inside_attributeSpan?]

theorem ofHtml_behindComment_lines :
    ∃ tree, parseHtml "<p a=b>x\ny<!--z".toList = .ok tree ∧
      tree.elementNames = ["html", "head", "body", "p"] ∧
      ∃ inner outer,
        Document.ofHtml "u" "<p a=b>x\ny<!--z".toList (some ⟨1, 5, none⟩) none = .ok inner ∧
        Document.ofHtml "u" "<!--c\n d--><p a=b>x\ny<!--z".toList none none = .ok outer ∧
        parseHtml "<!--c\n d--><p a=b>x\ny<!--z".toList = .ok (tree.behindComment "c\n d".toList) ∧
        ∀ index t, inner.node? index = some t →
          ∃ u, outer.node? (if index = 0 then 0 else index + 1) = some u ∧
            (∃ span, inner.spanOf t = .ok span ∧ outer.spanOf u = .ok span) ∧
            ∀ name, ∃ span, inner.attributeSpanOf t name = .ok span ∧
              outer.attributeSpanOf u name = .ok span := by
  have known : (parseHtml "<p a=b>x\ny<!--z".toList).toOption.map Tree.elementNames =
      some ["html", "head", "body", "p"] := by decide +kernel
  obtain ⟨tree, parsed, names⟩ := parseHtml_of_map known
  exact ⟨tree, parsed, names, ofHtml_behindComment (v := "c\n d".toList) parsed (by decide) "u"⟩

end Document

end LocatedHtml
