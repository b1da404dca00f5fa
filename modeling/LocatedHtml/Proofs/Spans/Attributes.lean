import LocatedHtml.Proofs.Lexing.AttributePieces
import LocatedHtml.Proofs.Spans.Markup

/-!
The spans of attributes. An attribute is located by a search of its start tag, and its span has the width of
what was found, on one line. In the source that is the attribute again, on however many lines it is written.
-/

namespace LocatedHtml

variable {source : Text} {name : String} {x : Lexeme} {xs : List Lexeme} {tree : HtmlTree} {e : Extent}

/-- The extents are of attributes of a start tag: they are inside of its brackets, one behind the other, and
what the source has there starts with the name of the attribute, in whatever case. -/
structure Extent.HoldsAttributes (source : Text) (tag : Extent) (extents : OrderedMap Extent) : Prop where
  starts : ∀ entry ∈ extents, entry.2.StartsIn source
  inside : ∀ entry ∈ extents, tag.start < entry.2.start ∧ entry.2.start < entry.2.stop ∧
    entry.2.stop < tag.stop
  within : tag.stop ≤ source.length
  named : ∀ entry ∈ extents, ∃ written rest, entry.2.slice source = written ++ rest ∧ written ≠ [] ∧
    Text.lowerName written = entry.1
  apart : extents.Pairwise fun a b => a.2.stop ≤ b.2.start

namespace AttributeIn

theorem inside {m : Mark} {tag : Text} (here : AttributeIn m tag name e) :
    (m.offset : Int) < e.start ∧ e.start < e.stop ∧ e.stop < (m.after tag).offset := by
  obtain ⟨front, written, value, back, rfl, before, some_, behind, _, rfl⟩ := here
  have before := List.length_pos_of_ne_nil before
  have some_ := List.length_pos_of_ne_nil some_
  have behind := List.length_pos_of_ne_nil behind
  simp only [Extent.ofMark, Mark.after, List.length_append]
  omega

/-- What the source has at an attribute of a lexeme. -/
theorem slice (here : AttributeIn x.start x.raw name e) (placed : x.InSource source) :
    ∃ written rest, e.slice source = written ++ rest ∧ written ≠ [] ∧ Text.lowerName written = name := by
  obtain ⟨front, written, value, back, shape, _, some_, _, named, rfl⟩ := here
  obtain ⟨before, after, whole, start⟩ := placed.placed
  have around : source = before ++ front ++ (written ++ value) ++ (back ++ after) := by
    simp only [whole, shape, List.append_assoc]
  refine ⟨written, value, ?_, some_, named⟩
  rw [start, ← Mark.after_append]
  exact slice_ofMark around none

end AttributeIn

theorem Lexeme.InSource.holdsAttributes (here : x.InSource source) (reads : IsStartTag name x.raw) :
    Extent.HoldsAttributes source (Construction.startTagLocation x).opening (attributeExtents x.start x.raw) where
  starts := here.attributes
  inside entry member := (attributeExtents_in reads x.start entry member).inside
  within := Int.ofNat_le.2 here.stop_le
  named entry member := (attributeExtents_in reads x.start entry member).slice here
  apart := attributeExtents_apart x.start x.raw

/-- An element that is located opens with a start tag. -/
def Node.OpenedBy (xs : List Lexeme) (v : Node) : Prop :=
  ∀ name, v.content.elementName? = some name → ∀ location ∈ v.location,
    ∃ x ∈ xs, ∃ entries selfClosing, x.token = .startTag name entries selfClosing ∧
      location.opening = (Construction.startTagLocation x).opening

namespace Node.OpenedBy

theorem unnamed {content : Content} {location : Option Location} (unnamed : content.elementName? = none) :
    Node.OpenedBy xs ⟨content, location⟩ := by
  intro name named
  rw [unnamed] at named
  cases named

theorem unlocated {content : Content} : Node.OpenedBy xs ⟨content, none⟩ := by
  rintro _ _ _ ⟨⟩

theorem started {attributes : OrderedMap Text} {entries : List (String × Text)} {selfClosing : Bool}
    (member : x ∈ xs) (token : x.token = .startTag name entries selfClosing) :
    Node.OpenedBy xs ⟨.element name attributes, some (Construction.startTagLocation x)⟩ := by
  rintro _ ⟨⟩ _ ⟨⟩
  exact ⟨x, member, entries, selfClosing, token, rfl⟩

theorem ended {attributes : OrderedMap Text} {location : Location} (endTag : Extent)
    (opened : Node.OpenedBy xs ⟨.element name attributes, some location⟩) :
    Node.OpenedBy xs ⟨.element name attributes, some (location.withEndTag endTag)⟩ := by
  rintro _ ⟨⟩ _ ⟨⟩
  rw [Location.opening_withEndTag]
  exact opened name rfl location rfl

end Node.OpenedBy

theorem nodeFact_openedBy (member : x ∈ xs) : NodeFact (fun _ t => t.value.OpenedBy xs) x where
  started _ _ _ _ token := ⟨.started member token, fun _ _ => .started member token⟩
  ended _ _ _ opened := opened.ended _
  comment _ _ _ := .unnamed rfl
  instruction _ _ _ := .unnamed rfl
  declaration _ _ _ := .unnamed rfl

theorem shellFact_openedBy (member : x ∈ xs) :
    ShellFact (fun name shell => name ∈ structuralNames → (shell.node name).OpenedBy xs) x where
  more _ _ _ _ _ _ opened := opened
  started _ _ _ token _ := .started member token
  ended _ _ _ opened structural := Shell.close_node (opened structural) fun _ before => before.ended _

/-- The attributes of a location are those that its opening piece has. -/
theorem Location.attributes_of_opening {location : Location} {extents : OrderedMap Extent}
    (found : location.opening.attributes = some extents) : location.attributes = some extents := by
  cases location with
  | plain extent => exact found
  | element startTag endTag given =>
    change (startTag.attributes <|> given) = _
    rw [show startTag.attributes = some extents from found]
    rfl

/-- Every element of a document that is located has the attributes of its start tag. -/
theorem parseHtml_holdsAttributes (parsed : parseHtml source = .ok tree) :
    ∀ t ∈ tree.subtrees, ∀ name, t.value.content.elementName? = some name → ∀ location ∈ t.value.location,
      ∃ extents, location.attributes = some extents ∧
        Extent.HoldsAttributes source location.opening extents := by
  obtain ⟨xs, cut, rfl⟩ := parseHtml_eq_toTree parsed
  have opened : ∀ t ∈ (documentOf xs source.length).subtrees, t.value.OpenedBy xs :=
    Construction.documentOf_nodes source.length (.unnamed rfl) (fun _ => .unlocated) (fun _ _ => .unnamed rfl)
      (fun x member => nodeFact_openedBy member) fun x member => shellFact_openedBy member
  intro t member name named location located
  obtain ⟨x, inside, entries, selfClosing, token, opening⟩ := opened t member name named location located
  have here := (lexemes_chained cut).inSource (List.nil_append source).symm rfl x inside
  have reads := here.reads
  rw [token] at reads
  refine ⟨attributeExtents x.start x.raw, Location.attributes_of_opening (by rw [opening]; rfl), ?_⟩
  rw [opening]
  exact here.holdsAttributes reads

theorem Tree.attributeSpan?_found {t : HtmlTree} {location : Location} {extents : OrderedMap Extent}
    (located : t.value.location = some location) (held : location.attributes = some extents)
    (found : extents.find? name = some e) (file : String) :
    t.attributeSpan? file name = some ⟨file, e.position, e.position.shift e.length.toNat⟩ := by
  rw [attributeSpan?, located]
  change (location.attributes >>= _) = _
  rw [held]
  change (extents.find? name >>= _) = _
  rw [found]
  rfl

namespace Document

variable {url : String} {host : Option NodeId} {d : Document}

theorem attributeSpanOf_alone {t : HtmlTree} {location : Location} {extents : OrderedMap Extent}
    (alone : d.embedding = none) (located : t.value.location = some location)
    (held : location.attributes = some extents) (found : extents.find? name = some e) :
    d.attributeSpanOf t name = .ok (some ⟨d.url, e.position, e.position.shift e.length.toNat⟩) := by
  rw [attributeSpanOf, toContainer_alone alone, Tree.attributeSpan?_found located held found]

/-- In a document by itself the span of an attribute of an element leads to the offsets at which the attribute
is located, where the source has its name, in whatever case, and the rest of it. All attributes of an element
are inside of the brackets of its start tag, one behind the other in their order. -/
theorem offsets_attributes (opened : ofHtml url source none host = .ok d) (body : d.body = .html tree) :
    ∀ t ∈ tree.subtrees, ∀ tag, t.value.content.elementName? = some tag → ∀ location ∈ t.value.location,
      IsStartTag tag (location.opening.slice source) ∧
      ∃ extents, location.attributes = some extents ∧
        (∀ name extent, extents.find? name = some extent →
          (∃ span, d.attributeSpanOf t name = .ok (some span) ∧ ((d.offsets span).1 : Int) = extent.start ∧
            ((d.offsets span).2 : Int) = extent.stop ∧
            ∃ written rest, d.slice (d.offsets span).1 (d.offsets span).2 = written ++ rest ∧ written ≠ [] ∧
              Text.lowerName written = name) ∧
          location.opening.start < extent.start ∧ extent.start < extent.stop ∧
          extent.stop < location.opening.stop) ∧
        extents.Pairwise fun a b => a.2.stop ≤ b.2.start := by
  obtain ⟨read, parsed, rfl⟩ := ofHtml_eq_ok.1 opened
  cases body
  intro t member tag named location located
  obtain ⟨extents, held, holds⟩ := parseHtml_holdsAttributes parsed t member tag named location located
  obtain ⟨_, faithful⟩ := (parseHtml_everywhereFaithful parsed).at_subtree member
  refine ⟨faithful.startTag tag named location located, extents, held, ?_, holds.apart⟩
  intro name extent found
  have entry : (name, extent) ∈ extents := OrderedMap.mem_of_find? found
  obtain ⟨before, some_, behind⟩ := holds.inside _ entry
  have within := holds.within
  have starts := holds.starts _ entry
  have nonneg := starts.nonneg
  dsimp only at before some_ behind starts nonneg
  have width : extent.length.toNat = extent.stop.toNat - extent.start.toNat := by
    rw [Extent.length]
    omega
  have first := starts.offset_position
  have last : (LineTable.ofText source).offset (extent.position.shift extent.length.toNat) =
      extent.start.toNat + extent.length.toNat := starts.offset_shift (by omega)
  have stop : extent.start.toNat + extent.length.toNat = extent.stop.toNat := by omega
  rw [stop] at last
  refine ⟨⟨_, attributeSpanOf_alone rfl located held found, ?_, ?_, ?_⟩, before, some_, behind⟩
  · simp only [offsets, lineTable, first]
    omega
  · simp only [offsets, lineTable, last]
    omega
  · obtain ⟨written, rest, slice_, more, lower⟩ := holds.named _ entry
    refine ⟨written, rest, ?_, more, lower⟩
    rw [← slice_]
    simp only [offsets, lineTable, first, last, slice, Extent.slice, List.drop_take]

/-- An attribute whose value goes on in the next line, in front of another one of its name. -/
theorem offsets_attributes_lines :
    ∃ d tree t location, ∃ extents : OrderedMap Extent, ∃ span,
      ofHtml "u" "<a\nB=\"x\ny\" b=1 c>".toList none none = .ok d ∧ d.body = .html tree ∧ t ∈ tree.subtrees ∧
      t.value.content.elementName? = some "a" ∧ t.value.location = some location ∧
      location.attributes = some extents ∧ extents.keys = ["b", "c"] ∧
      d.attributeSpanOf t "b" = .ok (some span) ∧ d.offsets span = (3, 10) ∧
      d.slice 3 10 = "B=\"x\ny\"".toList := by
  have known : (parseHtml "<a\nB=\"x\ny\" b=1 c>".toList).toOption.map (fun tree =>
      (tree.subtrees[4]?).bind fun t => (t.value.location.bind Location.attributes).bind fun extents =>
        (extents.find? "b").map fun extent =>
          (t.value.content.elementName?, extents.keys, extent.start, extent.stop)) =
      some (some (some "a", ["b", "c"], 3, 10)) := by decide +kernel
  obtain ⟨tree, parsed, seen⟩ := parseHtml_of_map known
  simp only [Prod.mk.injEq, Option.map_eq_some_iff, Option.bind_eq_some_iff] at seen
  obtain ⟨t, place, extents, ⟨location, located, held⟩, extent, found, named, keys, start, stop⟩ := seen
  have opened : ofHtml "u" "<a\nB=\"x\ny\" b=1 c>".toList none none = _ := ofHtml_eq_ok.2 ⟨tree, parsed, rfl⟩
  have member := List.mem_of_getElem? place
  obtain ⟨_, others, held', attributes, _⟩ := offsets_attributes opened rfl t member "a" named location located
  obtain rfl : extents = others := Option.some.inj (held.symm.trans held')
  obtain ⟨⟨span, resolved, first, last, _⟩, _⟩ := attributes "b" extent found
  refine ⟨_, tree, t, location, extents, span, opened, rfl, member, named, located, held, keys, resolved, ?_, rfl⟩
  ext <;> dsimp only <;> omega

end Document

end LocatedHtml
