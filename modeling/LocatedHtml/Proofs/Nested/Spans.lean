import LocatedHtml.Document.Basic
import LocatedHtml.Proofs.Nested.Positions
import LocatedHtml.Proofs.Numbering

/-!
Trees of a text that starts somewhere in another one. With all places told in the outer text, every span
comes out as the span of the inner text told in the outer one, however its end was found.
-/

namespace LocatedHtml

theorem OrderedMap.find?_map {α β : Type} (f : α → β) (m : OrderedMap α) (key : String) :
    OrderedMap.find? (m.map (Prod.map id f)) key = (m.find? key).map f := by
  induction m with
  | nil => rfl
  | cons entry m ih =>
    obtain ⟨name, value⟩ := entry
    unfold OrderedMap.find? at ih ⊢
    rw [List.map_cons, Prod.map, List.lookup_cons, List.lookup_cons, ih]
    cases same : key == name <;> simp only [id, same, Option.map_some]

/-- The mark in the outer text of a mark of a text that starts at `base`. -/
def Mark.inside (base m : Mark) : Mark :=
  ⟨base.offset + m.offset, base.position.inside m.position⟩

theorem Mark.inside_after (base m : Mark) (t : Text) : base.inside (m.after t) = (base.inside m).after t := by
  simp only [inside, after, Position.inside_after, Nat.add_assoc]

theorem Mark.inside_origin (base : Mark) : base.inside .origin = base := by
  rw [inside, origin, Nat.add_zero, Position.inside_origin]

mutual

/-- The extent told in a text in which its own starts at `base`. -/
def Extent.inside (base : Mark) : Extent → Extent
  | ⟨position, start, stop, attributes⟩ =>
    ⟨base.position.inside position, start + base.offset, stop + base.offset,
      insideRecorded base attributes⟩

/-- The attribute extents, where they were recorded, told in the outer text. -/
def Extent.insideRecorded (base : Mark) : Option (List (String × Extent)) → Option (List (String × Extent))
  | none => none
  | some entries => some (insideAll base entries)

/-- The attribute extents told in the outer text. -/
def Extent.insideAll (base : Mark) : List (String × Extent) → List (String × Extent)
  | [] => []
  | entry :: rest => insideEntry base entry :: insideAll base rest

/-- The attribute extent told in the outer text. -/
def Extent.insideEntry (base : Mark) : String × Extent → String × Extent
  | (name, extent) => (name, inside base extent)

end

namespace Extent

theorem insideRecorded_eq (base : Mark) (attributes : Option (List (String × Extent))) :
    insideRecorded base attributes = attributes.map (·.map (Prod.map id (inside base))) := by
  cases attributes with
  | none => rfl
  | some entries =>
    rw [insideRecorded, Option.map_some]
    congr 1
    induction entries with
    | nil => rfl
    | cons entry rest ih =>
      obtain ⟨name, extent⟩ := entry
      rw [insideAll, ih, insideEntry]
      rfl

theorem inside_ofMark (base m : Mark) (stop : Nat) :
    (ofMark m stop).inside base = ofMark (base.inside m) (base.offset + stop) := by
  rw [ofMark, inside, insideRecorded, ofMark, Mark.inside]
  simp only [Int.natCast_add, Int.add_comm]

theorem inside_position (base : Mark) (e : Extent) :
    (e.inside base).position = base.position.inside e.position := by
  cases e
  rfl

theorem inside_length (base : Mark) (e : Extent) : (e.inside base).length = e.length := by
  cases e
  exact Int.add_sub_add_right _ _ _

theorem inside_attributes (base : Mark) (e : Extent) :
    (e.inside base).attributes = e.attributes.map (·.map (Prod.map id (inside base))) := by
  cases e
  exact insideRecorded_eq base _

end Extent

namespace Location

/-- The location told in the outer text. -/
def inside (base : Mark) : Location → Location
  | .plain extent => .plain (extent.inside base)
  | .element startTag endTag given =>
    .element (startTag.inside base) (endTag.map (Extent.inside base))
      (given.map (·.map (Prod.map id (Extent.inside base))))

variable (base : Mark) (l : Location)

theorem inside_endTag? : (l.inside base).endTag? = l.endTag?.map (Extent.inside base) := by
  cases l <;> rfl

theorem inside_isClosed : (l.inside base).isClosed = l.isClosed := by
  rw [isClosed, inside_endTag?, Option.isSome_map, isClosed]

theorem inside_position : (l.inside base).position = base.position.inside l.position := by
  cases l <;> exact Extent.inside_position base _

theorem inside_attributes :
    (l.inside base).attributes = l.attributes.map (·.map (Prod.map id (Extent.inside base))) := by
  cases l with
  | plain extent => exact extent.inside_attributes base
  | element startTag endTag given =>
    rw [inside, attributes, attributes, startTag.inside_attributes]
    cases startTag.attributes <;> rfl

theorem inside_withEndTag (endTag : Extent) :
    (l.withEndTag endTag).inside base = (l.inside base).withEndTag (endTag.inside base) := by
  cases l <;> rfl

end Location

/-- The node with its places told in the outer text. -/
def Node.inside (base : Mark) (v : Node) : Node :=
  { v with location := v.location.map (Location.inside base) }

/-- The span told in the outer text. -/
def Span.inside (base : Position) (s : Span) : Span := ⟨s.file, base.inside s.start, base.inside s.stop⟩

namespace Unwritten

/-- What is waiting, with other nodes. -/
def mapNodes (f : Node → Node) : Unwritten → Unwritten
  | .tree verbatim t => .tree verbatim (t.map f)
  | .endTag name => .endTag name

/-- What is written depends on nothing but the content of the nodes. -/
theorem write_mapNodes {f : Node → Node} (keeps : ∀ v, (f v).content = v.content)
    (waiting : List Unwritten) : write (waiting.map (mapNodes f)) = write waiting := by
  have children (content : Content) (cs : List HtmlTree) :
      ofChildren content (Tree.mapAll f cs) = (ofChildren content cs).map (mapNodes f) := by
    rw [Tree.mapAll_eq, ofChildren, ofChildren, List.map_map, List.map_map]
    rfl
  fun_induction write waiting with
  | case1 => rw [List.map_nil, write]
  | case2 name rest ih =>
    rw [List.map_cons, mapNodes, write, ih]
  | case3 verbatim v cs rest name attributes content ih inner =>
    rw [List.map_cons, mapNodes, Tree.map, write, keeps, content]
    rw [content] at inner
    dsimp only
    split
    · rw [ih]
    · rw [← inner, List.map_append, List.map_cons, children]
      rfl
  | case4 verbatim v cs rest value content ih =>
    rw [List.map_cons, mapNodes, Tree.map, write, keeps, content]
    dsimp only
    rw [ih]
  | case5 verbatim v cs rest value content ih =>
    rw [List.map_cons, mapNodes, Tree.map, write, keeps, content]
    dsimp only
    rw [ih]
  | case6 verbatim v cs rest value content ih =>
    rw [List.map_cons, mapNodes, Tree.map, write, keeps, content]
    dsimp only
    rw [ih]
  | case7 verbatim v cs rest content ih =>
    rw [List.map_cons, mapNodes, Tree.map, write, keeps, content]
    rw [content] at ih
    dsimp only
    rw [← ih, List.map_append, children]

end Unwritten

namespace Tree

/-- The tree with its places told in the outer text. -/
def inside (base : Mark) (t : HtmlTree) : HtmlTree := t.map (Node.inside base)

variable (base : Mark) (t : HtmlTree) (file : String)

theorem inside_node (v : Node) (cs : List HtmlTree) :
    inside base (.node v cs) = .node (v.inside base) (cs.map (inside base)) := by
  rw [inside, map, mapAll_eq]
  rfl

theorem inside_location : (inside base t).value.location = t.value.location.map (Location.inside base) := by
  cases t
  rfl

theorem inside_content : (inside base t).value.content = t.value.content := by
  cases t
  rfl

theorem inside_children : (inside base t).children = t.children.map (inside base) := by
  cases t
  rw [inside_node]
  rfl

theorem inside_innerHtml : (inside base t).innerHtml = t.innerHtml := by
  have children : Unwritten.ofChildren t.value.content (t.children.map (inside base)) =
      (Unwritten.ofChildren t.value.content t.children).map (Unwritten.mapNodes (Node.inside base)) := by
    rw [Unwritten.ofChildren, Unwritten.ofChildren, List.map_map, List.map_map]
    rfl
  rw [innerHtml, innerHtml, inside_content, inside_children, children]
  exact Unwritten.write_mapNodes (f := Node.inside base) (fun _ => rfl) _

theorem inside_writtenSpan? :
    (inside base t).writtenSpan? file = (t.writtenSpan? file).map (Span.inside base.position) := by
  have width : (inside base t).value.startTagWidth = t.value.startTagWidth := by
    rw [Node.startTagWidth, Node.startTagWidth, inside_content]
  rw [writtenSpan?, writtenSpan?, inside_location, Option.map_map, Option.map_map, width,
    inside_innerHtml]
  congr 1
  funext location
  simp only [Function.comp, Span.inside, Location.inside_position, Position.inside_after,
    Position.inside_shift]

theorem inside_ownSpan? :
    (inside base t).ownSpan? file = (t.ownSpan? file).map (Span.inside base.position) := by
  have width : (inside base t).value.endTagWidth = t.value.endTagWidth := by
    rw [Node.endTagWidth, Node.endTagWidth, inside_content]
  unfold ownSpan?
  rw [inside_location, inside_content, width, inside_writtenSpan?]
  cases t.value.location with
  | none => rfl
  | some location =>
    rw [Option.map_some]
    cases location with
    | plain extent =>
      have shown : Location.inside base (.plain extent) = .plain (extent.inside base) := rfl
      rw [shown]
      cases t.value.content with
      | text value =>
        simp only [Option.map_some, Span.inside, Extent.inside_position, Position.inside_after]
      | comment value =>
        simp only [Option.map_some, Span.inside, Extent.inside_position, Position.inside_after]
      | _ => rfl
    | element startTag endTag given =>
      have shown : Location.inside base (.element startTag endTag given) =
        .element (startTag.inside base) (endTag.map (Extent.inside base))
          (given.map (·.map (Prod.map id (Extent.inside base)))) := rfl
      rw [shown]
      cases t.value.content with
      | text value => rfl
      | comment value => rfl
      | _ =>
        cases endTag with
        | none => rfl
        | some endTag =>
          simp only [Location.endTag?, Option.map_some, Span.inside, Extent.inside_position,
            Position.inside_shift, Location.position, Location.opening]

theorem inside_lastChild? : (inside base t).lastChild? = t.lastChild?.map (inside base) := by
  unfold lastChild?
  rw [inside_location, inside_content, inside_children]
  cases t.value.location with
  | none => rfl
  | some location =>
    rw [Option.map_some]
    dsimp only
    rw [Location.inside_isClosed, List.getLast?_map]
    split <;> rfl

theorem inside_lastChildren (above : List HtmlTree) :
    lastChildren (above.map (inside base)) (inside base t) =
      Prod.map (List.map (inside base)) (inside base) (lastChildren above t) := by
  fun_induction lastChildren above t with
  | case1 above t ended =>
    rw [lastChildren]
    split
    · rfl
    · next c here =>
      rw [inside_lastChild?, ended] at here
      cases here
  | case2 above t c last ih =>
    rw [lastChildren]
    split
    · next here =>
      rw [inside_lastChild?, last] at here
      cases here
    · next d here =>
      rw [inside_lastChild?, last] at here
      cases here
      exact ih

theorem inside_span? : (inside base t).span? file = (t.span? file).map (Span.inside base.position) := by
  have widened (found : Option Span) (t : HtmlTree) :
      widen file (found.map (Span.inside base.position)) (inside base t) =
        (widen file found t).map (Span.inside base.position) := by
    unfold widen
    rw [inside_location, inside_writtenSpan?]
    cases found with
    | none => rfl
    | some span =>
      cases t.value.location with
      | none => rfl
      | some location =>
        simp only [Option.map_some, Span.inside, Location.inside_position]
  have chain := inside_lastChildren base t []
  rw [List.map_nil] at chain
  unfold span?
  rw [chain]
  obtain ⟨above, bottom⟩ := lastChildren [] t
  dsimp only [Prod.map]
  rw [inside_ownSpan?, List.foldl_map]
  exact List.foldl_hom _ fun found t => widened found t

theorem inside_attributeSpan? (name : String) : (inside base t).attributeSpan? file name =
    (t.attributeSpan? file name).map (Span.inside base.position) := by
  unfold attributeSpan?
  rw [inside_location]
  cases t.value.location with
  | none => rfl
  | some location =>
    simp only [Option.map_some, Option.bind_eq_bind, Option.bind_some, Location.inside_attributes]
    cases location.attributes with
    | none => rfl
    | some extents =>
      simp only [Option.map_some, Option.bind_some, OrderedMap.find?_map]
      cases OrderedMap.find? extents name with
      | none => rfl
      | some extent =>
        simp only [Option.map_some, Option.bind_some, pure, Span.inside, Extent.inside_position,
          Extent.inside_length, Position.inside_shift]

end Tree

end LocatedHtml
