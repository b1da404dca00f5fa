import LocatedHtml.Document.Basic
import LocatedHtml.Proofs.ContentKept
import LocatedHtml.Proofs.Nested.Positions

/-!
The spans of texts. A text node has the span of its value, laid out from where the node starts. That is
the node's piece of the source wherever the value ends where the piece ends; the value of a reference is
shorter than the reference, and then the span ends too early.
-/

namespace LocatedHtml

theorem LineTable.offset_position {t : Text} {n : Nat} (bound : n ≤ t.length) :
    (ofText t).offset ((ofText t).position n) = n := by
  obtain ⟨start, line, column⟩ := exists_start bound
  have size : (ofText t).size = t.length := rfl
  simp only [offset, line, column, size]
  omega

namespace Extent

variable {e : Extent} {source : Text}

/-- The position of an extent is the one reached by moving along the source to its start. -/
theorem StartsIn.position_eq (starts : e.StartsIn source) :
    e.position = Position.origin.after (source.take e.start.toNat) := by
  rw [Position.after_origin, ← starts.line, ← starts.column]

/-- Moving along its slice leads from the start of an extent to its stop. -/
theorem StartsIn.after_slice (starts : e.StartsIn source) (forward : e.start ≤ e.stop) :
    e.position.after (e.slice source) = Position.origin.after (source.take e.stop.toNat) := by
  have front : (source.take e.stop.toNat).take e.start.toNat = source.take e.start.toNat := by
    rw [List.take_take, Nat.min_eq_left (by omega)]
  rw [starts.position_eq, slice, ← Position.after_append, ← front, List.take_append_drop]

end Extent

namespace Tree

/-- A tree that does not end with its last child has its own span. -/
theorem span?_alone {t : HtmlTree} (alone : t.lastChild? = none) (file : String) :
    t.span? file = t.ownSpan? file := by
  simp only [span?, lastChildren_alone alone, List.foldl_nil]

theorem span?_unlocated {t : HtmlTree} (unlocated : t.value.location = none) (file : String) :
    t.span? file = none := by
  have alone : t.lastChild? = none := by rw [lastChild?, unlocated]
  rw [span?_alone alone, ownSpan?, unlocated]

/-- The span of a text node is its value, laid out from the start of the node. -/
theorem span?_text {t : HtmlTree} {value : Text} {extent : Extent} (text : t.value.content = .text value)
    (located : t.value.location = some (.plain extent)) (file : String) :
    t.span? file = some ⟨file, extent.position, extent.position.after value⟩ := by
  have alone : t.lastChild? = none := by
    simp [lastChild?, located, text, Content.isText]
  rw [span?_alone alone]
  simp only [ownSpan?, located, text]

end Tree

variable {source : Text} {tree t : HtmlTree} {value : Text}

/-- A text of a document takes a piece of the source. -/
theorem parseHtml_text (parsed : parseHtml source = .ok tree) (member : t ∈ tree.subtrees)
    (text : t.value.content = .text value) :
    ∃ extent, t.value.location = some (.plain extent) ∧ extent.StartsIn source ∧
      extent.start < extent.stop ∧ extent.stop ≤ source.length := by
  have isText : t.value.content.isText = true := by simp [text, Content.isText]
  obtain ⟨_, shaped⟩ := (parseHtml_shaped parsed).1.at_subtree member
  obtain ⟨extent, located⟩ := shaped.leaf_located (.inl isText)
  obtain ⟨_, faithful⟩ := (parseHtml_everywhereFaithful parsed).at_subtree member
  exact ⟨extent, located, faithful.starts _ located extent List.mem_cons_self,
    faithful.text value text _ located⟩

/-- A text of a document with its piece of the source, from what can be seen of the document. -/
theorem exists_text (source value : Text) (index : Nat) (start stop : Int)
    (known : (parseHtml source).toOption.map (fun tree => (tree.subtrees[index]?).map fun t =>
      (t.value.content.isText, t.value.content.textValue, t.value.location.map fun l => (l.start, l.stop))) =
        some (some (true, value, some (start, stop)))) :
    ∃ tree t extent, parseHtml source = .ok tree ∧ t ∈ tree.subtrees ∧ t.value.content = .text value ∧
      t.value.location = some (.plain extent) ∧ extent.StartsIn source ∧ extent.start = start ∧
      extent.stop = stop := by
  obtain ⟨tree, parsed, here⟩ := parseHtml_of_map known
  obtain ⟨t, place, same⟩ := Option.map_eq_some_iff.1 here
  simp only [Prod.mk.injEq] at same
  obtain ⟨isText, textValue, ends⟩ := same
  have member : t ∈ tree.subtrees := List.mem_of_getElem? place
  have text : t.value.content = .text value := by
    cases content : t.value.content <;> simp_all [Content.isText, Content.textValue]
  obtain ⟨extent, located, starts, _⟩ := parseHtml_text parsed member text
  simp only [located, Option.map_some, Option.some.injEq, Prod.mk.injEq] at ends
  exact ⟨tree, t, extent, parsed, member, text, located, starts, ends.1, ends.2⟩

variable {url : String} {host : Option NodeId} {d : Document}

/-- In a document by itself spans are told as they are found. -/
theorem Document.toContainer_alone (alone : d.embedding = none) (span : Option Span) :
    d.toContainer span = .ok span := by
  unfold toContainer
  rw [alone]
  cases span <;> rfl

theorem spanOf_alone (alone : d.embedding = none) (t : HtmlTree) : d.spanOf t = .ok (t.span? d.url) :=
  Document.toContainer_alone alone _

theorem spanOf_text {extent : Extent} (alone : d.embedding = none) (text : t.value.content = .text value)
    (located : t.value.location = some (.plain extent)) :
    d.spanOf t = .ok (some ⟨d.url, extent.position, extent.position.after value⟩) := by
  rw [spanOf_alone alone, Tree.span?_text text located]

/-- In a document by itself the span of a text starts where the text does. It stops where the text does
if the value of the text ends on the line and in the column where its piece of the source ends. -/
theorem offsets_textSpan (opened : Document.ofHtml url source none host = .ok d) (body : d.body = .html tree)
    (member : t ∈ tree.subtrees) (text : t.value.content = .text value) :
    ∃ extent span, t.value.location = some (.plain extent) ∧ d.spanOf t = .ok (some span) ∧
      ((d.offsets span).1 : Int) = extent.start ∧ span.stop = span.start.after value ∧
      (span.start.after value = span.start.after (extent.slice source) →
        ((d.offsets span).2 : Int) = extent.stop) := by
  obtain ⟨read, parsed, rfl⟩ := Document.ofHtml_eq_ok.1 opened
  cases body
  obtain ⟨extent, located, starts, forward, bound⟩ := parseHtml_text parsed member text
  have nonneg := starts.nonneg
  have first : (LineTable.ofText source).offset extent.position = extent.start.toNat := by
    rw [starts.position_eq, ← LineTable.position_eq (by omega), LineTable.offset_position (by omega)]
  have last : (LineTable.ofText source).offset (extent.position.after (extent.slice source)) =
      extent.stop.toNat := by
    rw [starts.after_slice (by omega), ← LineTable.position_eq (by omega), LineTable.offset_position (by omega)]
  refine ⟨extent, _, located, spanOf_text rfl text located, ?_, rfl, fun same => ?_⟩
  · simp only [Document.offsets, Document.lineTable, first]
    omega
  · dsimp only at same
    simp only [Document.offsets, Document.lineTable, same, last]
    omega

theorem offsets_textSpan_lines :
    ∃ d tree t extent span, Document.ofHtml "u" "<p>a\nb".toList none none = .ok d ∧ d.body = .html tree ∧
      t ∈ tree.subtrees ∧ t.value.content = .text "a\nb".toList ∧
      t.value.location = some (.plain extent) ∧ d.spanOf t = .ok (some span) ∧
      extent.start = 3 ∧ extent.stop = 6 ∧ d.offsets span = (3, 6) := by
  obtain ⟨tree, t, extent, parsed, member, text, located, _, start, stop⟩ :=
    exists_text "<p>a\nb".toList "a\nb".toList 5 3 6 (by decide +kernel)
  have opened : Document.ofHtml "u" "<p>a\nb".toList none none = _ := Document.ofHtml_eq_ok.2 ⟨tree, parsed, rfl⟩
  obtain ⟨same, span, located', resolved, first, _, last⟩ := offsets_textSpan opened rfl member text
  obtain rfl : extent = same := by simpa [located] using located'
  have slice : extent.slice "<p>a\nb".toList = "a\nb".toList := by
    rw [Extent.slice, start, stop]
    rfl
  have last := last (by rw [slice])
  refine ⟨_, tree, t, extent, span, opened, rfl, member, text, located, resolved, start, stop, ?_⟩
  ext <;> dsimp only <;> omega

/-- The span of a text stops too early where the text is written with a reference. -/
theorem textSpan_short_of_reference :
    ∃ d tree t extent span, Document.ofHtml "u" "&amp;".toList none none = .ok d ∧ d.body = .html tree ∧
      t ∈ tree.subtrees ∧ t.value.content = .text "&".toList ∧
      t.value.location = some (.plain extent) ∧ d.spanOf t = .ok (some span) ∧
      extent.start = 0 ∧ extent.stop = 5 ∧ d.offsets span = (0, 1) := by
  obtain ⟨tree, t, extent, parsed, member, text, located, starts, start, stop⟩ :=
    exists_text "&amp;".toList "&".toList 4 0 5 (by decide +kernel)
  have opened : Document.ofHtml "u" "&amp;".toList none none = _ := Document.ofHtml_eq_ok.2 ⟨tree, parsed, rfl⟩
  have origin : extent.position = .origin := by
    rw [starts.position_eq, start]
    rfl
  refine ⟨_, tree, t, extent, _, opened, rfl, member, text, located, spanOf_text rfl text located, start,
    stop, ?_⟩
  rw [origin]
  rfl

end LocatedHtml
