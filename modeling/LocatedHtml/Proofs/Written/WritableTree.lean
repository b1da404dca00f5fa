import LocatedHtml.Proofs.Construction.BlockFacts

/-!
The tree of every source can be written so that each node of it is read again, whatever has been left
out, repeated or misplaced in the source.
-/

namespace LocatedHtml

/-- The node at the top of a tree can be written so that it is read again. -/
def WritableNode (t : HtmlTree) : Prop :=
  match t.value.content with
  | .document | .text _ => True
  | .element name attributes =>
    IsTagName name ∧ WritableAttributes attributes ∧
      (isRawText name = true →
        (∀ c ∈ t.children, c.IsText) ∧ WritableRaw name (Tree.joinedText t.children))
  | .comment value => WritableComment value
  | .doctype value => WritableDoctype value

theorem WritableAttributes.insertAllNew {m : OrderedMap Text} {entries : List (String × Text)}
    (writable : WritableAttributes m) (named : ∀ entry ∈ entries, IsAttributeName entry.1) :
    WritableAttributes (m.insertAllNew entries) where
  named entry member := by
    rcases OrderedMap.mem_insertAllNew member with earlier | new
    · exact writable.named entry earlier
    · exact named entry new
  distinct := OrderedMap.nodup_insertAllNew writable.distinct entries

theorem writableAttributes_nil : WritableAttributes [] := ⟨by simp, List.nodup_nil⟩

/-- A lexeme that can be written again brings nodes that can, unless raw text comes behind it. -/
theorem nodeFact_writable {x : Lexeme} (writable : x.token.Writable)
    (ordinary : ∀ name attributes, x.token = .startTag name attributes false →
      isRawText name = false) : NodeFact (fun _ => WritableNode) x where
  started above name attributes selfClosing token := by
    rw [token] at writable
    have entries := writableAttributes_nil.insertAllNew writable.2
    refine ⟨⟨writable.1, entries, fun _ => ⟨by simp [Tree.children, OpenElement.toTree], .nil⟩⟩, ?_⟩
    rintro rfl more
    refine ⟨writable.1, entries, fun raw => ?_⟩
    rw [ordinary name attributes token] at raw
    cases raw
  ended above e token holds := holds
  comment above value token := by
    rw [token] at writable
    exact writable
  instruction above value token := by
    rw [token] at writable
    exact writable
  declaration above value token := by
    rw [token] at writable
    exact writable

theorem shellFact_writable {x : Lexeme} (writable : x.token.Writable) :
    ShellFact (fun _ shell => WritableAttributes shell.attributes) x where
  more name shell attributes selfClosing token _ holds := by
    rw [token] at writable
    exact holds.insertAllNew writable.2
  started name attributes selfClosing token := by
    rw [token] at writable
    exact writableAttributes_nil.insertAllNew writable.2
  ended name shell _ holds := holds

theorem IsRawElement.writable {x : Lexeme} {name : String} {attributes : List (String × Text)}
    {value : Text} {t : HtmlTree} (element : IsRawElement x name attributes value t)
    {texts : List Lexeme} (block : RawBlock x texts name attributes value) (above : List String) :
    Everywhere (fun _ => WritableNode) above t := by
  obtain ⟨v, cs⟩ := t
  have top : v.content = .element name (OrderedMap.insertAllNew [] attributes) := element.content
  apply Everywhere.of_children
  · rw [WritableNode, Tree.value, top]
    refine ⟨isTagName_of_isRawText block.started.raw,
      writableAttributes_nil.insertAllNew block.started.named, fun _ => ⟨element.texts, ?_⟩⟩
    rw [element.joined]
    exact block.writable
  · intro c member
    obtain ⟨u, text, rfl, isText⟩ := element.texts c member
    apply Everywhere.leaf
    rw [WritableNode, Tree.value, isText]
    trivial

theorem blockFacts_writable (xs : List Lexeme) :
    BlockFacts (fun _ => WritableNode) (fun _ shell => WritableAttributes shell.attributes) xs where
  text _ _ _ := trivial
  plain _ _ writable ordinary := ⟨nodeFact_writable writable ordinary, shellFact_writable writable⟩
  raw _ _ _ _ _ _ _ block element above := element.writable block above

/-- Every node of the document of a source can be written so that it is read again. -/
theorem parseHtml_writable {source : Text} {tree : HtmlTree} (parsed : parseHtml source = .ok tree) :
    Everywhere (fun _ => WritableNode) [] tree := by
  obtain ⟨xs, cut, rfl⟩ := parseHtml_eq_toTree parsed
  have blocks := (lexemesFrom_blocks cut).1 rfl
  have start : Construction.Carries (fun _ => WritableNode)
      (fun _ shell => WritableAttributes shell.attributes) {} :=
    .initial fun _ => writableAttributes_nil
  obtain ⟨r, same, nodes, shells⟩ := start.run blocks (blockFacts_writable xs) source.length
  rw [same]
  have structural {name : String} (member : name ∈ structuralNames) : IsTagName name := by
    rcases mem_structuralNames.1 member with rfl | rfl | rfl
    · exact @isTagName_lowerName "html".toList (by decide) (by simp [isTagNameChar])
    · exact @isTagName_lowerName "head".toList (by decide) (by simp [isTagNameChar])
    · exact @isTagName_lowerName "body".toList (by decide) (by simp [isTagNameChar])
  apply nodes.toTree
  · exact fun _ => trivial
  · exact fun _ => ⟨structural (by decide), shells.html, fun raw => absurd raw (by decide)⟩
  · exact fun _ => ⟨structural (by decide), shells.head, fun raw => absurd raw (by decide)⟩
  · exact fun _ => ⟨structural (by decide), shells.body, fun raw => absurd raw (by decide)⟩

end LocatedHtml
