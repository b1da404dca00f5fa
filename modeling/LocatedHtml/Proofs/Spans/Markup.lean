import LocatedHtml.Proofs.SafeReading
import LocatedHtml.Proofs.Spans.Texts

/-!
The spans of closed elements and of comments. An element that is closed has the span from its start tag to
the end of its end tag, where the end tag is as wide as it would be written. A comment that is written in
the source in the usual way has the span of what is written there.
-/

namespace LocatedHtml

variable {source : Text} {tree t : HtmlTree} {e : Extent}

namespace LineTable

/-- Columns further on are offsets further on, as long as the text has them. -/
theorem offset_shift {text : Text} {n width : Nat} (bound : n + width ≤ text.length) :
    (ofText text).offset (((ofText text).position n).shift width) = n + width := by
  obtain ⟨start, line, column⟩ := exists_start (Nat.le_of_add_right_le bound)
  have size : (ofText text).size = text.length := rfl
  simp only [offset, Position.shift, line, size]
  omega

end LineTable

namespace Extent.StartsIn

theorem position_table (starts : e.StartsIn source) :
    e.position = (LineTable.ofText source).position e.start.toNat := by
  have inside := starts.inside
  rw [starts.position_eq, ← LineTable.position_eq (by omega)]

theorem offset_position (starts : e.StartsIn source) :
    (LineTable.ofText source).offset e.position = e.start.toNat := by
  have inside := starts.inside
  rw [starts.position_table, LineTable.offset_position (by omega)]

theorem offset_shift (starts : e.StartsIn source) {width : Nat}
    (bound : e.start.toNat + width ≤ source.length) :
    (LineTable.ofText source).offset (e.position.shift width) = e.start.toNat + width := by
  rw [starts.position_table, LineTable.offset_shift bound]

/-- A piece of the source that stands at the start of an extent leads to the offset behind it. -/
theorem offset_after (starts : e.StartsIn source) {piece : Text}
    (written : piece <+: source.drop e.start.toNat) :
    (LineTable.ofText source).offset (e.position.after piece) = e.start.toNat + piece.length := by
  obtain ⟨rest, whole⟩ := written
  have inside := starts.inside
  have bound : e.start.toNat + piece.length ≤ source.length := by
    have length := congrArg List.length whole
    rw [List.length_append, List.length_drop] at length
    omega
  have taken : source.take e.start.toNat ++ piece = source.take (e.start.toNat + piece.length) := by
    rw [List.take_add, ← whole, List.take_left]
  rw [starts.position_eq, ← Position.after_append, taken, ← LineTable.position_eq bound,
    LineTable.offset_position bound]

end Extent.StartsIn

/-- The end tag of a node, if it has one, ends up to an offset. -/
def Node.ClosedBy (size : Nat) (v : Node) : Prop :=
  ∀ location ∈ v.location, ∀ endTag ∈ location.endTag?, endTag.stop ≤ size

namespace Node.ClosedBy

variable {size : Nat} {content : Content}

theorem unlocated : Node.ClosedBy size ⟨content, none⟩ := by
  rintro _ ⟨⟩

theorem plain {extent : Extent} : Node.ClosedBy size ⟨content, some (.plain extent)⟩ := by
  rintro _ ⟨⟩ _ ⟨⟩

theorem ended {location : Location} {start : Mark} {stop : Nat} (bound : stop ≤ size) :
    Node.ClosedBy size ⟨content, some (location.withEndTag (.ofMark start stop))⟩ := by
  cases location with
  | plain extent => exact plain
  | element startTag endTag given =>
    rintro _ ⟨⟩ _ ⟨⟩
    exact Int.ofNat_le.2 bound

end Node.ClosedBy

variable {x : Lexeme} {size : Nat}

theorem nodeFact_closedBy (bound : x.stop.offset ≤ size) :
    NodeFact (fun _ t => t.value.ClosedBy size) x where
  started above name attributes selfClosing token := by
    have open_ : Node.ClosedBy size
        ⟨.element name (OrderedMap.insertAllNew [] attributes), some (Construction.startTagLocation x)⟩ := by
      rintro _ ⟨⟩ _ ⟨⟩
    exact ⟨open_, fun _ _ => open_⟩
  ended above e token _ := .ended bound
  comment above value token := .plain
  instruction above value token := .plain
  declaration above value token := .plain

theorem shellFact_closedBy (bound : x.stop.offset ≤ size) :
    ShellFact (fun name shell => name ∈ structuralNames → (shell.node name).ClosedBy size) x where
  more name shell attributes selfClosing token _ closed := closed
  started name attributes selfClosing token _ := by
    rintro _ ⟨⟩ _ ⟨⟩
  ended name shell token closed structural := Shell.close_node (closed structural) fun _ _ => .ended bound

theorem Lexeme.InSource.stop_le (here : x.InSource source) : x.stop.offset ≤ source.length := by
  obtain ⟨before, after, rfl, start⟩ := here.placed
  rw [Lexeme.stop, start, ← Mark.after_append, Mark.offset_after_origin]
  exact (List.prefix_append _ after).length_le

/-- Every end tag that a document records ends inside of the source. -/
theorem parseHtml_closedBy (parsed : parseHtml source = .ok tree) :
    ∀ t ∈ tree.subtrees, t.value.ClosedBy source.length := by
  obtain ⟨xs, cut, rfl⟩ := parseHtml_eq_toTree parsed
  have inside := (lexemes_chained cut).inSource (List.nil_append source).symm rfl
  exact Construction.documentOf_nodes source.length .unlocated (fun _ => .unlocated) (fun _ _ => .plain)
    (fun x member => nodeFact_closedBy (inside x member).stop_le)
    fun x member => shellFact_closedBy (inside x member).stop_le

namespace Tree

variable {name : String} {location : Location} {endTag extent : Extent} {value : Text}

/-- The span of a closed element ends where its end tag would, if that had no blanks in it. -/
theorem span?_closed (named : t.value.content.elementName? = some name)
    (located : t.value.location = some location) (closed : location.endTag? = some endTag)
    (file : String) :
    t.span? file = some ⟨file, location.position, endTag.position.shift (name.length + 3)⟩ := by
  have alone : t.lastChild? = none := by
    simp [lastChild?, located, Location.isClosed, closed]
  rw [span?_alone alone]
  cases location with
  | plain extent => cases closed
  | element startTag _ given =>
    cases content : t.value.content <;> rw [content] at named <;> cases named
    simp only [ownSpan?, located, content, closed, Node.endTagWidth, Content.elementName?]

theorem span?_comment (comment : t.value.content = .comment value)
    (located : t.value.location = some (.plain extent)) (file : String) :
    t.span? file = some ⟨file, extent.position, extent.position.after (writtenComment value)⟩ := by
  have alone : t.lastChild? = none := by
    simp [lastChild?, located, comment, Content.isComment]
  rw [span?_alone alone]
  simp only [ownSpan?, located, comment]

end Tree

namespace Location

variable {location : Location} {endTag : Extent}

theorem opening_mem_extents : location.opening ∈ location.extents := by
  cases location <;> simp [opening, extents, Extent.withAttributes]

theorem endTag_mem_extents (closed : location.endTag? = some endTag) : endTag ∈ location.extents := by
  cases location with
  | plain extent => cases closed
  | element startTag _ given =>
    cases closed
    simp [extents, Extent.withAttributes]

end Location

namespace Document

variable {url : String} {host : Option NodeId} {d : Document} {name : String} {location : Location}
  {endTag extent : Extent} {value : Text}

theorem spanOf_closed (alone : d.embedding = none) (named : t.value.content.elementName? = some name)
    (located : t.value.location = some location) (closed : location.endTag? = some endTag) :
    d.spanOf t = .ok (some ⟨d.url, location.position, endTag.position.shift (name.length + 3)⟩) := by
  rw [spanOf_alone alone, Tree.span?_closed named located closed]

theorem spanOf_comment (alone : d.embedding = none) (comment : t.value.content = .comment value)
    (located : t.value.location = some (.plain extent)) :
    d.spanOf t = .ok (some ⟨d.url, extent.position, extent.position.after (writtenComment value)⟩) := by
  rw [spanOf_alone alone, Tree.span?_comment comment located]

theorem offsets_closed (opened : ofHtml url source none host = .ok d) (body : d.body = .html tree)
    (member : t ∈ tree.subtrees) (named : t.value.content.elementName? = some name)
    (located : t.value.location = some location)
    (closed : location.endTag? = some endTag) (length : endTag.length = (name.length + 3 : Nat)) :
    ∃ span, d.spanOf t = .ok (some span) ∧ ((d.offsets span).1 : Int) = location.start ∧
      ((d.offsets span).2 : Int) = endTag.stop := by
  obtain ⟨read, parsed, rfl⟩ := ofHtml_eq_ok.1 opened
  cases body
  have ends := parseHtml_closedBy parsed t member location located endTag closed
  obtain ⟨_, faithful⟩ := (parseHtml_everywhereFaithful parsed).at_subtree member
  have starts := faithful.starts location located
  have first := starts _ Location.opening_mem_extents
  have last := starts _ (Location.endTag_mem_extents closed)
  have firstNonneg := first.nonneg
  have lastNonneg := last.nonneg
  rw [Extent.length] at length
  refine ⟨_, spanOf_closed rfl named located closed, ?_, ?_⟩
  · simp only [offsets, lineTable, Location.position, first.offset_position, Location.start]
    omega
  · simp only [offsets, lineTable]
    rw [last.offset_shift (by omega)]
    omega

theorem offsets_comment (opened : ofHtml url source none host = .ok d) (body : d.body = .html tree)
    (member : t ∈ tree.subtrees) (comment : t.value.content = .comment value)
    (located : t.value.location = some (.plain extent))
    (written : writtenComment value <+: source.drop extent.start.toNat) :
    ∃ span, d.spanOf t = .ok (some span) ∧ ((d.offsets span).1 : Int) = extent.start ∧
      ((d.offsets span).2 : Int) = extent.start + (writtenComment value).length ∧
      d.slice (d.offsets span).1 (d.offsets span).2 = writtenComment value := by
  obtain ⟨read, parsed, rfl⟩ := ofHtml_eq_ok.1 opened
  cases body
  obtain ⟨_, faithful⟩ := (parseHtml_everywhereFaithful parsed).at_subtree member
  have starts := faithful.starts _ located extent List.mem_cons_self
  have nonneg := starts.nonneg
  refine ⟨_, spanOf_comment rfl comment located, ?_, ?_, ?_⟩
  · simp only [offsets, lineTable, starts.offset_position]
    omega
  · simp only [offsets, lineTable, starts.offset_after written]
    omega
  · simp only [offsets, lineTable, starts.offset_position, starts.offset_after written, slice,
      Nat.add_sub_cancel_left]
    exact (List.prefix_iff_eq_take.1 written).symm

end Document

variable {url : String} {host : Option NodeId} {d : Document}

/-- In a document by itself the span of a closed element reaches from its start tag to the end of its end
tag, if that is as long as the name and the brackets. The span of a comment is the comment as it would be
written, if that is what the source has there. -/
theorem offsets_markup (opened : Document.ofHtml url source none host = .ok d) (body : d.body = .html tree) :
    (∀ t ∈ tree.subtrees, ∀ name, t.value.content.elementName? = some name →
      ∀ location ∈ t.value.location, ∀ endTag ∈ location.endTag?,
        endTag.length = (name.length + 3 : Nat) → ∃ span, d.spanOf t = .ok (some span) ∧
          ((d.offsets span).1 : Int) = location.start ∧ ((d.offsets span).2 : Int) = endTag.stop) ∧
    ∀ t ∈ tree.subtrees, ∀ value, t.value.content = .comment value →
      ∃ extent, t.value.location = some (.plain extent) ∧
        (writtenComment value <+: source.drop extent.start.toNat → ∃ span, d.spanOf t = .ok (some span) ∧
          ((d.offsets span).1 : Int) = extent.start ∧
          ((d.offsets span).2 : Int) = extent.start + (writtenComment value).length ∧
          d.slice (d.offsets span).1 (d.offsets span).2 = writtenComment value) := by
  constructor
  · intro t member name named location located endTag closed length
    exact Document.offsets_closed opened body member named located closed length
  · intro t member value comment
    obtain ⟨read, parsed, rfl⟩ := Document.ofHtml_eq_ok.1 opened
    cases body
    have remark : t.value.content.isRemark = true := by simp [comment, Content.isRemark]
    obtain ⟨_, shaped⟩ := (parseHtml_shaped parsed).1.at_subtree member
    obtain ⟨extent, located⟩ := shaped.leaf_located (.inr remark)
    exact ⟨extent, located, Document.offsets_comment opened rfl member comment located⟩

theorem offsets_markup_lines :
    ∃ d tree paragraph comment first second,
      Document.ofHtml "u" "<p\n>x</P><!--a\nb-->".toList none none = .ok d ∧ d.body = .html tree ∧
      paragraph ∈ tree.subtrees ∧ paragraph.value.content.elementName? = some "p" ∧
      comment ∈ tree.subtrees ∧ comment.value.content = .comment "a\nb".toList ∧
      d.spanOf paragraph = .ok (some first) ∧ d.offsets first = (0, 9) ∧
      d.spanOf comment = .ok (some second) ∧ d.offsets second = (9, 19) := by
  have known : (parseHtml "<p\n>x</P><!--a\nb-->".toList).toOption.map (fun tree =>
      (tree.subtrees[4]?).map fun t => (t.value.content.elementName?, t.value.location.map fun location =>
        location.start :: location.stop :: (location.endTag?.map Extent.length).toList)) =
      some (some (some "p", some [0, 9, 4])) := by decide +kernel
  obtain ⟨tree, parsed, seen⟩ := parseHtml_of_map known
  simp only [Prod.mk.injEq, List.cons.injEq, Option.toList_eq_singleton_iff, Option.map_eq_some_iff] at seen
  obtain ⟨paragraph, place, named, location, located, start, stop, endTag, closed, length⟩ := seen
  have stop : endTag.stop = 9 := by rwa [Location.stop, closed] at stop
  have known' : (parseHtml "<p\n>x</P><!--a\nb-->".toList).toOption.map (fun tree =>
      (tree.subtrees[6]?).map fun t =>
        (t.value.content.isComment, t.value.content.textValue, t.value.location.map Location.start)) =
      some (some (true, "a\nb".toList, some 9)) := by decide +kernel
  rw [parsed] at known'
  simp only [Except.toOption, Option.map_some, Option.some.injEq, Prod.mk.injEq,
    Option.map_eq_some_iff] at known'
  obtain ⟨comment, place', isComment, value, _, located', start'⟩ := known'
  have opened : Document.ofHtml "u" "<p\n>x</P><!--a\nb-->".toList none none = _ :=
    Document.ofHtml_eq_ok.2 ⟨tree, parsed, rfl⟩
  have content : comment.value.content = .comment "a\nb".toList := by
    cases content : comment.value.content <;> simp_all [Content.isComment, Content.textValue]
  obtain ⟨elements, comments⟩ := offsets_markup opened rfl
  obtain ⟨span, resolved, begins, ends⟩ := elements paragraph (List.mem_of_getElem? place) "p" named location
    located endTag closed length
  obtain ⟨extent, placed, slice⟩ := comments comment (List.mem_of_getElem? place') _ content
  obtain rfl : Location.plain extent = _ := Option.some.inj (placed.symm.trans located')
  have start' : extent.start = 9 := start'
  obtain ⟨span', resolved', begins', ends', _⟩ := slice (by rw [start']; decide +kernel)
  have size : (writtenComment "a\nb".toList).length = 10 := rfl
  refine ⟨_, tree, paragraph, comment, span, span', opened, rfl, List.mem_of_getElem? place, named,
    List.mem_of_getElem? place', content, resolved, ?_, resolved', ?_⟩
  · ext <;> dsimp only <;> omega
  · ext <;> dsimp only <;> omega

end LocatedHtml
