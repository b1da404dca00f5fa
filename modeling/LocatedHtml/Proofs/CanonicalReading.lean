import LocatedHtml.Proofs.Construction.Finished
import LocatedHtml.Proofs.Rebuilding.Canonical

/-!
Reading undoes writing: a canonical forest that is written as the body of a document is read as a document
with that body.
-/

namespace LocatedHtml

/-- A document with a forest as its body, written with all tags of structural elements. -/
def writtenPage (f : List HtmlTree) : Text :=
  "<html><head></head><body>".toList ++ Tree.innerHtml (.node ⟨.document, none⟩ f) ++
    "</body></html>".toList

/-- The contents of a document with a body and an empty head. -/
def pageContents (body : List (Tree Content)) : Tree Content :=
  .node .document [.node (.element "html" []) [.node (.element "head" []) [],
    .node (.element "body" []) body]]

variable {f : List HtmlTree}

theorem stopsAt_writtenEndTag (name : String) (rest : Text) :
    Text.StopsAt (· != '<') (writtenEndTag name ++ rest) :=
  Text.stopsAt_cons (by decide) _

/-- The tokens of a page. -/
theorem Canonical.yields_page (canonical : Canonical [] f) :
    ∃ tokens, SpelledBy f tokens ∧ Yields none (writtenPage f)
      (.startTag "html" [] false :: .startTag "head" [] false :: .endTag "head" ::
        .startTag "body" [] false :: (tokens ++ [.endTag "body", .endTag "html"])) := by
  have entries : WritableAttributes [] := ⟨by simp, List.nodup_nil⟩
  have html : isPlainName "html" = true := by decide
  have head : isPlainName "head" = true := by decide
  have body : isPlainName "body" = true := by decide
  have ends : Yields none (writtenEndTag "body" ++ (writtenEndTag "html" ++ []))
      [.endTag "body", .endTag "html"] :=
    .endTag (isTagName_of_isPlainName body) (dark_of_isPlainName body)
      (.endTag (isTagName_of_isPlainName html) (dark_of_isPlainName html) .nil)
  have stop : Text.StopsAt (· != '<') (writtenEndTag "body" ++ (writtenEndTag "html" ++ [])) :=
    stopsAt_writtenEndTag "body" _
  obtain ⟨tokens, spelled, yields⟩ := canonical.yields ends stop
  refine ⟨tokens, spelled, ?_⟩
  have whole : writtenPage f = writtenStartTag "html" [] ++ (writtenStartTag "head" [] ++
      (writtenEndTag "head" ++ (writtenStartTag "body" [] ++
        (Unwritten.write (f.map (.tree false)) ++ (writtenEndTag "body" ++ (writtenEndTag "html" ++ [])))))) := by
    have front : "<html><head></head><body>".toList = writtenStartTag "html" [] ++
        (writtenStartTag "head" [] ++ (writtenEndTag "head" ++ writtenStartTag "body" [])) := by decide
    have back : "</body></html>".toList = writtenEndTag "body" ++ writtenEndTag "html" := by decide
    have inner : Tree.innerHtml (.node ⟨.document, none⟩ f) = Unwritten.write (f.map (.tree false)) := rfl
    unfold writtenPage
    rw [front, back, inner]
    simp only [List.append_assoc, List.append_nil]
  rw [whole]
  refine .startTag (isTagName_of_isPlainName html) entries ?_
  refine .startTag (isTagName_of_isPlainName head) entries ?_
  refine .endTag (isTagName_of_isPlainName head) (dark_of_isPlainName head) ?_
  exact .startTag (isTagName_of_isPlainName body) entries yields

namespace Construction

/-- The construction of a page in its body, after the tags of `html` and head and the start tag of the
body. -/
def atBody (html head headEnd body : Lexeme) : Construction where
  stage := .inBody
  html := ⟨[], some (startTagLocation html)⟩
  head := ⟨[], some ((startTagLocation head).withEndTag (.ofMark headEnd.start headEnd.stop.offset))⟩
  body := some ⟨[], some (startTagLocation body)⟩

theorem foldl_pageStart {html head headEnd body : Lexeme}
    (htmlToken : html.token = .startTag "html" [] false)
    (headToken : head.token = .startTag "head" [] false) (headEndToken : headEnd.token = .endTag "head")
    (bodyToken : body.token = .startTag "body" [] false) :
    [html, head, headEnd, body].foldl add {} = atBody html head headEnd body := by
  simp only [List.foldl_cons, List.foldl_nil, add, htmlToken, headToken, headEndToken, bodyToken]
  rfl

/-- The end tags of body and `html` leave the body as it is and are recorded. -/
theorem toTree_pageEnd {html head headEnd body bodyEnd htmlEnd : Lexeme} {s : Construction}
    {us : List HtmlTree} (bodyToken : bodyEnd.token = .endTag "body")
    (htmlToken : htmlEnd.token = .endTag "html") (stage : s.stage = .inBody)
    (inside : s.endText bodyEnd.start.offset = { atBody html head headEnd body with inBody := us })
    (size : Nat) :
    (([bodyEnd, htmlEnd].foldl add s).endText size).toTree = .node ⟨.document, none⟩
      [.node ⟨.element "html" [], some ((startTagLocation html).withEndTag
          (.ofMark htmlEnd.start htmlEnd.stop.offset))⟩
        [.node ⟨.element "head" [], some ((startTagLocation head).withEndTag
            (.ofMark headEnd.start headEnd.stop.offset))⟩ [],
          .node ⟨.element "body" [], some ((startTagLocation body).withEndTag
            (.ofMark bodyEnd.start bodyEnd.stop.offset))⟩ us]] := by
  have present : s.body = some ⟨[], some (startTagLocation body)⟩ := by
    rw [← endText_body s bodyEnd.start.offset, inside]
    rfl
  simp only [List.foldl_cons, List.foldl_nil, add, bodyToken, htmlToken, addEndTag, stage, inside, present]
  rfl

end Construction

open Construction in
/-- A page of a canonical forest is read as a document with the forest as its body, and the end tag of
every element that can have content is found. -/
theorem parseHtml_writtenPage (canonical : Canonical [] f) :
    ∃ tree, parseHtml (writtenPage f) = .ok tree ∧
      tree.map Node.content = pageContents (f.map (Tree.map Node.content)) ∧
      ∀ t ∈ tree.subtrees, Ended t := by
  obtain ⟨tokens, spelled, yields⟩ := canonical.yields_page
  obtain ⟨xs, cut, lexed⟩ := yields .origin
  obtain ⟨html, xs, rfl, htmlToken, lexed⟩ := List.map_eq_cons_iff.1 lexed
  obtain ⟨head, xs, rfl, headToken, lexed⟩ := List.map_eq_cons_iff.1 lexed
  obtain ⟨headEnd, xs, rfl, headEndToken, lexed⟩ := List.map_eq_cons_iff.1 lexed
  obtain ⟨body, xs, rfl, bodyToken, lexed⟩ := List.map_eq_cons_iff.1 lexed
  obtain ⟨xs, ends, rfl, inner, lexed⟩ := List.map_eq_append_iff.1 lexed
  obtain ⟨bodyEnd, ends, rfl, bodyEndToken, lexed⟩ := List.map_eq_cons_iff.1 lexed
  obtain ⟨htmlEnd, ends, rfl, htmlEndToken, lexed⟩ := List.map_eq_cons_iff.1 lexed
  obtain rfl := List.map_eq_nil_iff.1 lexed
  obtain ⟨place, us, same, rebuilds⟩ := takesIn (s := atBody html head headEnd body) spelled inner
    canonical rfl (fun _ => rfl) bodyEnd.start.offset
  rw [endText_of_none (s := atBody html head headEnd body) rfl, appendAll_inBody rfl rfl] at same
  have stage : (xs.foldl add (atBody html head headEnd body)).stage = .inBody := by
    rw [← endText_stage _ bodyEnd.start.offset, same]
    rfl
  have whole : html :: head :: headEnd :: body :: (xs ++ [bodyEnd, htmlEnd]) =
      [html, head, headEnd, body] ++ (xs ++ [bodyEnd, htmlEnd]) := rfl
  have read := toTree_pageEnd bodyEndToken htmlEndToken stage same (writtenPage f).length
  refine ⟨_, by rw [parseHtml, lexemes, cut]; rfl, ?_⟩
  rw [documentOf, whole, List.foldl_append, List.foldl_append,
    foldl_pageStart htmlToken headToken headEndToken bodyToken, read]
  refine ⟨?_, fun t member => ?_⟩
  · rw [pageContents, ← rebuilds.shape]
    simp only [Tree.map, Tree.mapAll, Tree.mapAll_eq]
    rfl
  · rcases Tree.mem_subtrees_node.1 member with rfl | ⟨c, child, member⟩
    · exact ended_of_unnamed rfl
    obtain rfl := List.mem_singleton.1 child
    rcases Tree.mem_subtrees_node.1 member with rfl | ⟨c, child, member⟩
    · exact fun _ _ _ => rfl
    rcases List.mem_pair.1 child with rfl | rfl
    · rw [Tree.subtrees_node, List.flatMap_nil, List.mem_singleton] at member
      subst member
      exact fun _ _ _ => rfl
    · rcases Tree.mem_subtrees_node.1 member with rfl | ⟨c, child, member⟩
      · exact fun _ _ _ => rfl
      · exact rebuilds.ended c child t member

/-- A list with two items, a line break, a comment and a script, all with characters that are escaped in
ordinary texts. -/
def listAndScript : List HtmlTree :=
  [.node ⟨.element "ul" [("class", "a\"b&c".toList)], none⟩
      [.node ⟨.element "li" [], none⟩ [.node ⟨.text "1 < 2".toList, none⟩ []],
        .node ⟨.element "li" [], none⟩ [.node ⟨.element "br" [], none⟩ []]],
    .node ⟨.comment " - ".toList, none⟩ [],
    .node ⟨.element "script" [], none⟩ [.node ⟨.text "1 < 2 && 3".toList, none⟩ []]]

theorem canonical_listAndScript : Canonical [] listAndScript := by
  have text (above : List String) {value : Text} (nonempty : value ≠ []) :
      Everywhere CanonicalNode above (.node ⟨.text value, none⟩ []) := .leaf ⟨nonempty, rfl⟩
  have br : Everywhere CanonicalNode ["li", "ul"] (.node ⟨.element "br" [], none⟩ []) :=
    .leaf ⟨by decide, by decide, by decide, by decide, by simp, List.nodup_nil, fun _ => rfl,
      fun _ => .inl rfl, .nil⟩
  have li (c : HtmlTree) (below : Everywhere CanonicalNode ["li", "ul"] c) :
      Everywhere CanonicalNode ["ul"] (.node ⟨.element "li" [], none⟩ [c]) := by
    refine .of_children ⟨by decide, by decide, by decide, by decide, by simp, List.nodup_nil,
      fun void => absurd void (by decide), fun raw => absurd raw (by decide), .singleton c⟩ ?_
    rw [List.forall_mem_singleton]
    exact below
  refine ⟨?_, .cons_cons (.inl rfl) (.cons_cons (.inl rfl) (.singleton _))⟩
  rw [listAndScript, List.forall_mem_cons, List.forall_mem_cons, List.forall_mem_singleton]
  refine ⟨?_, .leaf ⟨by decide, rfl⟩, ?_⟩
  · refine .of_children ⟨by decide, by decide, by decide, by decide, by decide, by decide,
      fun void => absurd void (by decide), fun raw => absurd raw (by decide),
      .cons_cons (.inl rfl) (.singleton _)⟩ ?_
    rw [List.forall_mem_cons, List.forall_mem_singleton]
    exact ⟨li _ (text _ (by decide)), li _ br⟩
  · have apart : ¬['<', '/'] <:+: "1 < 2 && 3".toList := fun part =>
      absurd (part.subset (List.mem_cons_of_mem '<' List.mem_cons_self)) (by decide)
    refine .of_children ⟨by decide, by decide, by decide, by decide, by simp, List.nodup_nil,
      fun void => absurd void (by decide), fun _ => .inr ⟨_, _, rfl, rfl, apart⟩, .singleton _⟩ ?_
    rw [List.forall_mem_singleton]
    exact text _ (by decide)

theorem parseHtml_writtenPage_listAndScript :
    Canonical [] listAndScript ∧ ∃ tree, parseHtml (writtenPage listAndScript) = .ok tree ∧
      tree.map Node.content = pageContents (listAndScript.map (Tree.map Node.content)) ∧
      ∀ t ∈ tree.subtrees, Ended t :=
  ⟨canonical_listAndScript, parseHtml_writtenPage canonical_listAndScript⟩

end LocatedHtml
