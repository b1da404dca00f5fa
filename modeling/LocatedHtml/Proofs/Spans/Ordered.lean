import LocatedHtml.Proofs.Construction.Leading
import LocatedHtml.Proofs.LineTables
import LocatedHtml.Proofs.Nested.ContainerSpans
import LocatedHtml.Proofs.Nested.InlineDocuments
import LocatedHtml.Proofs.Spans.Markup
import LocatedHtml.Proofs.Spans.Resolution
import LocatedHtml.SpanRecord

/-!
The order of spans. Every node of a document that has a place in the source has a span, which starts there and
does not end before, whichever way its end is found and wherever the document stands; and these spans are what
is recorded, one for each such node in document order.
-/

namespace LocatedHtml

variable {source : Text} {tree t : HtmlTree} {location : Location} {file : String}

theorem Extent.StartsIn.position_le {first second : Extent} (starts : first.StartsIn source)
    (begins : second.StartsIn source) (before : first.start ≤ second.start) :
    first.position ≤ second.position := by
  have nonneg := starts.nonneg
  have inside := begins.inside
  rw [starts.position_table, begins.position_table]
  rcases Int.lt_or_eq_of_le before with before | same
  · exact (LineTable.position_lt source (by omega) (by omega) (by omega)).le
  · rw [same]

/-- A located node has a location of the kind that its content has, and stands before its end tag and before
each of its children. -/
structure Tree.Precedes (t : HtmlTree) : Prop where
  plain : ∀ location ∈ t.value.location, (t.value.content.isComment || t.value.content.isText) = true →
    ∃ extent, location = .plain extent
  closed : ∀ location ∈ t.value.location, ∀ endTag ∈ location.endTag?, location.position ≤ endTag.position
  children : ∀ location ∈ t.value.location, ∀ c ∈ t.children, ∀ inner ∈ c.value.location,
    location.position ≤ inner.position

theorem parseHtml_precedes (parsed : parseHtml source = .ok tree) : ∀ t ∈ tree.subtrees, t.Precedes := by
  intro t member
  obtain ⟨_, faithful⟩ := (parseHtml_everywhereFaithful parsed).at_subtree member
  have starts := faithful.starts
  obtain ⟨closed, children⟩ := parseHtml_leads parsed t member
  constructor
  · intro location located leaf
    obtain ⟨_, shaped⟩ := (parseHtml_shaped parsed).1.at_subtree member
    have kind := shaped.located location located
    cases content : t.value.content <;> rw [content] at leaf kind
    case text | comment => exact kind
    all_goals cases leaf
  · intro location located endTag ends
    exact (starts location located _ Location.opening_mem_extents).position_le
      (starts location located _ (Location.endTag_mem_extents ends)) (closed location located endTag ends)
  · intro location located c child inner inner_at
    have below : c ∈ tree.subtrees :=
      Tree.mem_subtrees_trans (Tree.mem_subtrees_iff.2 (.inr ⟨c, child, Tree.mem_subtrees_self c⟩)) member
    obtain ⟨_, faithful⟩ := (parseHtml_everywhereFaithful parsed).at_subtree below
    exact (starts location located _ Location.opening_mem_extents).position_le
      (faithful.starts inner inner_at _ Location.opening_mem_extents)
      (children location located c child inner inner_at)

namespace Tree

/-- There is a span in the file, and it starts at the position and does not end before. -/
def Spans (file : String) (start : Position) (span? : Option Span) : Prop :=
  ∃ stop, span? = some ⟨file, start, stop⟩ ∧ start ≤ stop

theorem spans_writtenSpan? (located : t.value.location = some location) :
    Spans file location.position (t.writtenSpan? file) := by
  refine ⟨_, by rw [writtenSpan?, located]; rfl, ?_⟩
  exact (Position.le_shift _ _).trans (Position.le_after _ _)

theorem spans_ownSpan? (precedes : t.Precedes) (located : t.value.location = some location) :
    Spans file location.position (t.ownSpan? file) := by
  have closed := precedes.closed location located
  have plain := precedes.plain location located
  have written : Spans file location.position (t.writtenSpan? file) := spans_writtenSpan? located
  unfold ownSpan?
  rw [located]
  cases content : t.value.content with
  | text value =>
    obtain ⟨extent, rfl⟩ := plain (by rw [content]; rfl)
    exact ⟨_, rfl, Position.le_after _ _⟩
  | comment value =>
    obtain ⟨extent, rfl⟩ := plain (by rw [content]; rfl)
    exact ⟨_, rfl, Position.le_after _ _⟩
  | _ =>
    cases ends : location.endTag? with
    | none =>
      simp only [ends]
      exact written
    | some endTag =>
      simp only [ends]
      exact ⟨_, rfl, (closed endTag ends).trans (Position.le_shift _ _)⟩

theorem span?_last {c : HtmlTree} (last : t.lastChild? = some c) (file : String) :
    t.span? file = t.widen file (c.span? file) := by
  have told (u : HtmlTree) : u.span? file = u.recursiveSpan? file := foldl_lastChildren file [] u
  rw [told, told, recursiveSpan?_last last]

theorem widen_some (located : t.value.location = some location) (span : Span) :
    t.widen file (some span) = some ⟨file, location.position, span.stop⟩ := by
  simp only [widen, located]

/-- A located tree has a span that starts where it does and does not end before. One that ends with its last child
starts no later than the child; where the child has no place, its written content tells the end. -/
theorem spans_span? (file : String) (t : HtmlTree) (precedes : ∀ u ∈ t.subtrees, u.Precedes) :
    ∀ location ∈ t.value.location, Spans file location.position (t.span? file) := by
  induction t using Tree.induction with
  | node v cs ih =>
    intro location located
    have top := precedes _ (mem_subtrees_self _)
    cases last : lastChild? (.node v cs) with
    | none =>
      rw [span?_alone last]
      exact spans_ownSpan? top located
    | some c =>
      have child := mem_children_of_lastChild? last
      rw [span?_last last]
      cases inner_at : c.value.location with
      | none =>
        rw [span?_unlocated inner_at]
        exact spans_writtenSpan? located
      | some inner =>
        obtain ⟨stop, found, forward⟩ := ih c child
          (fun u below => precedes u (mem_subtrees_node.2 (.inr ⟨c, child, below⟩))) inner inner_at
        refine ⟨stop, ?_, (top.children location located c child inner inner_at).trans forward⟩
        rw [found, widen_some located]

end Tree

theorem mapM_forall₂ {ε α β : Type} {f : α → Except ε β} {P : α → β → Prop} {xs : List α}
    (each : ∀ x ∈ xs, ∃ y, f x = .ok y ∧ P x y) : ∃ ys, xs.mapM f = .ok ys ∧ List.Forall₂ P xs ys := by
  induction xs with
  | nil => exact ⟨[], rfl, .nil⟩
  | cons x xs ih =>
    obtain ⟨⟨y, first, holds⟩, each⟩ := List.forall_mem_cons.1 each
    obtain ⟨ys, rest, others⟩ := ih each
    refine ⟨y :: ys, ?_, .cons holds others⟩
    rw [List.mapM_cons, first, rest]
    rfl

/-- Where exactly the chosen of some things have a result, the results are those of the chosen. -/
theorem forall₂_filterMap {α β : Type} {R : α → β → Prop} {chosen : α → Bool} {xs : List α} {ys : List (Option β)}
    (matched : List.Forall₂ (fun x y => if chosen x then ∃ z, y = some z ∧ R x z else y = none) xs ys) :
    List.Forall₂ R (xs.filter chosen) (ys.filterMap id) := by
  induction matched with
  | nil => exact .nil
  | @cons x y xs ys first _ ih =>
    split at first
    · next here =>
      obtain ⟨z, rfl, holds⟩ := first
      rw [List.filter_cons_of_pos here]
      exact .cons holds ih
    · next apart =>
      subst first
      rwa [List.filter_cons_of_neg apart]

namespace Document

variable {url : String} {embedding : Option Embedding} {host : Option NodeId} {d : Document}

/-- A document that stands in a proper place tells every span there. -/
theorem toContainer_inside (proper : ∀ e ∈ d.embedding, e.Proper) (s : Span) :
    ∃ name, d.toContainer (some s) = .ok (some ⟨name, d.base.inside s.start, d.base.inside s.stop⟩) := by
  unfold toContainer base
  cases embedding : d.embedding with
  | none => exact ⟨s.file, by simp only [Position.origin_inside]⟩
  | some e =>
    have within := Embedding.toOuter_eq (proper e embedding)
    have moved : s.toOuter e =
        .ok ⟨Embedding.nameOr e.file s.file, e.base.inside s.start, e.base.inside s.stop⟩ :=
      Span.toOuter_eq_ok.2 ⟨within s.start, within s.stop, rfl⟩
    exact ⟨Embedding.nameOr e.file s.file, by simp only [moved]⟩

theorem toContainer_none (d : Document) : d.toContainer none = .ok none := by
  unfold toContainer
  cases d.embedding <;> rfl

/-- The span of a located node starts where its location says, told in the container, and does not end before. -/
theorem spanOf_located (opened : ofHtml url source embedding host = .ok d) (body : d.body = .html tree)
    (proper : ∀ e ∈ embedding, e.Proper) (member : t ∈ tree.subtrees)
    (located : t.value.location = some location) :
    ∃ span, d.spanOf t = .ok (some span) ∧ d.placeOf location.start = .ok span.start ∧
      span.start ≤ span.stop := by
  obtain ⟨read, parsed, rfl⟩ := ofHtml_eq_ok.1 opened
  cases body
  have precedes (u : HtmlTree) (below : u ∈ t.subtrees) : u.Precedes :=
    parseHtml_precedes parsed u (Tree.mem_subtrees_trans below member)
  obtain ⟨stop, found, forward⟩ := Tree.spans_span? url t precedes location located
  obtain ⟨_, faithful⟩ := (parseHtml_everywhereFaithful parsed).at_subtree member
  have starts := faithful.starts location located _ Location.opening_mem_extents
  have place : (LineTable.ofText source).position location.start = location.position := by
    have nonneg := starts.nonneg
    rw [Location.position, starts.position_table, Int.toNat_of_nonneg nonneg, Location.start]
  obtain ⟨name, told⟩ := toContainer_inside (d := ⟨url, source, .html tree, embedding.isSome, embedding, host⟩) proper
    ⟨url, location.position, stop⟩
  refine ⟨_, by rw [spanOf, found, told], ?_, ?_⟩
  · rw [placeOf_inside proper]
    exact congrArg (fun p => Except.ok (Position.inside _ p)) place
  · exact (Position.inside_strictMono _).monotone forward

theorem spanOf_unlocated (d : Document) (unlocated : t.value.location = none) : d.spanOf t = .ok none := by
  rw [spanOf, Tree.span?_unlocated unlocated, toContainer_none]

theorem attributeSpans_ok (proper : ∀ e ∈ d.embedding, e.Proper) (t : HtmlTree) :
    ∃ spans, d.attributeSpans t = .ok spans := by
  have told (name : String) : ∃ span, d.attributeSpanOf t name = .ok span := by
    unfold attributeSpanOf
    cases t.attributeSpan? d.url name with
    | none => exact ⟨_, d.toContainer_none⟩
    | some span =>
      obtain ⟨_, told⟩ := toContainer_inside proper span
      exact ⟨_, told⟩
  have each : ∀ entry ∈ t.value.content.attributes, ∃ json,
      (do return Json.entry entry.1 (spanJson (← d.attributeSpanOf t entry.1))) = Except.ok json ∧ True := by
    intro entry _
    obtain ⟨span, told⟩ := told entry.1
    rw [told]
    exact ⟨_, rfl, trivial⟩
  obtain ⟨entries, read, _⟩ := mapM_forall₂ each
  exact ⟨_, by unfold attributeSpans; rw [read]; rfl⟩

/-- A node has a record just where it has a span. -/
theorem record?_ok (proper : ∀ e ∈ d.embedding, e.Proper) (withAttributes : Bool) {span? : Option Span}
    (told : d.spanOf t = .ok span?) :
    ∃ record?, d.record? withAttributes t = .ok record? ∧ record?.isSome = span?.isSome := by
  obtain ⟨spans, read⟩ := attributeSpans_ok proper t
  unfold record?
  rw [told]
  cases span? with
  | none => exact ⟨none, rfl, rfl⟩
  | some span =>
    rw [read]
    dsimp only [bind, Except.bind]
    split <;> exact ⟨_, rfl, rfl⟩

/-- Every node that is told a span where it has a location and none elsewhere has a record just where it has a
location. -/
theorem records_located (body : d.body = .html tree) (proper : ∀ e ∈ d.embedding, e.Proper)
    (told : ∀ t ∈ tree.subtrees, ∃ span?, d.spanOf t = .ok span? ∧ span?.isSome = t.value.location.isSome)
    (document : ∀ t ∈ tree.subtrees, t.value.location.isSome = true → t.value.content ≠ .document)
    (withAttributes : Bool) :
    ∃ records, d.records withAttributes = .ok records ∧
      List.Forall₂ (fun t record => d.record? withAttributes t = .ok (some record))
        (tree.subtrees.filter (·.value.location.isSome)) records := by
  have kinds : (tree.subtrees.filter fun t => t.value.content.kind != "document").filter
      (·.value.location.isSome) = tree.subtrees.filter (·.value.location.isSome) := by
    rw [List.filter_filter]
    apply List.filter_congr
    intro t member
    have other := document t member
    cases located : t.value.location.isSome with
    | false => rfl
    | true => cases content : t.value.content <;> first | rfl | exact absurd content (other located)
  have each : ∀ t ∈ tree.subtrees.filter fun t => t.value.content.kind != "document",
      ∃ record?, d.record? withAttributes t = .ok record? ∧ if t.value.location.isSome then
        ∃ record, record? = some record ∧ d.record? withAttributes t = .ok (some record) else record? = none := by
    intro t member
    obtain ⟨span?, told, where_⟩ := told t (List.mem_of_mem_filter member)
    obtain ⟨record?, read, same⟩ := record?_ok proper withAttributes told
    refine ⟨record?, read, ?_⟩
    rw [← where_, ← same]
    cases record? with
    | none => rfl
    | some record => exact ⟨record, rfl, read⟩
  obtain ⟨found, read, matched⟩ := mapM_forall₂ each
  refine ⟨found.filterMap id, ?_, ?_⟩
  · unfold records
    rw [body]
    dsimp only
    rw [read]
    rfl
  · rw [← kinds]
    exact forall₂_filterMap matched

/-- Every node of a document by itself or in a proper place has a span, except for the document and the injected
elements, which have none. A span starts at the offset at which the node does, told in the container, and does
not end before. So the records of a document are those of its located nodes, one for each in their order. -/
theorem spans_ordered (opened : ofHtml url source embedding host = .ok d) (body : d.body = .html tree)
    (proper : ∀ e ∈ embedding, e.Proper) :
    (∀ place ∈ tree.places [], ∃ span?, d.spanOf place.2 = .ok span? ∧
      (span? = none ↔
        place.2.value.content = .document ∨ place.2.value.isInjected (!place.1.isEmpty) = true) ∧
      ∀ span ∈ span?, ∃ location ∈ place.2.value.location,
        d.placeOf location.start = .ok span.start ∧ span.start ≤ span.stop) ∧
    ∀ withAttributes, ∃ records, d.records withAttributes = .ok records ∧
      List.Forall₂ (fun t record => d.record? withAttributes t = .ok (some record))
        (tree.subtrees.filter (·.value.location.isSome)) records := by
  have parsed : parseHtml source = .ok tree := by
    obtain ⟨read, parsed, rfl⟩ := ofHtml_eq_ok.1 opened
    cases body
    exact parsed
  have embedded : d.embedding = embedding := by
    obtain ⟨read, parsed, rfl⟩ := ofHtml_eq_ok.1 opened
    rfl
  constructor
  · intro place member
    have below : place.2 ∈ tree.subtrees := by
      rw [← Tree.places_subtrees []]
      exact List.mem_map_of_mem member
    obtain ⟨shaped, root⟩ := parseHtml_shaped parsed
    rw [← unlocated_of_shaped shaped root member]
    cases located : place.2.value.location with
    | none => exact ⟨none, d.spanOf_unlocated located, by simp, by rintro _ ⟨⟩⟩
    | some location =>
      obtain ⟨span, told, start, forward⟩ := spanOf_located opened body proper below located
      refine ⟨some span, told, by simp, ?_⟩
      rintro _ ⟨⟩
      exact ⟨location, rfl, start, forward⟩
  · apply records_located body (by rwa [embedded])
    · intro t member
      cases located : t.value.location with
      | none => exact ⟨none, d.spanOf_unlocated located, rfl⟩
      | some location =>
        obtain ⟨span, told, _⟩ := spanOf_located opened body proper member located
        exact ⟨some span, told, rfl⟩
    · intro t member located document
      obtain ⟨above, shaped⟩ := (parseHtml_shaped parsed).1.at_subtree member
      rw [(shaped.document_above document).2] at located
      cases located

/-- An `html` whose last child is an injected body that was closed and entered again. -/
theorem spans_ordered_reentered :
    ∃ d tree t span records,
      ofHtml "u" "<html><p>a</body>b".toList (some ⟨2, 4, none⟩) none = .ok d ∧ d.body = .html tree ∧
      tree.elementNames = ["html", "head", "body", "p"] ∧ t ∈ tree.subtrees ∧
      t.value.content.elementName? = some "html" ∧ d.spanOf t = .ok (some span) ∧ span.start = ⟨2, 4⟩ ∧
      span.start ≤ span.stop ∧ d.records true = .ok records ∧ records.length = 4 := by
  have known : (parseHtml "<html><p>a</body>b".toList).toOption.map (fun tree =>
      (tree.elementNames, (tree.subtrees.filter (·.value.location.isSome)).length,
        (tree.subtrees[1]?).map fun t => (t.value.content.elementName?, t.value.location.map Location.start))) =
      some (["html", "head", "body", "p"], 4, some (some "html", some 0)) := by decide +kernel
  obtain ⟨tree, parsed, seen⟩ := parseHtml_of_map known
  simp only [Prod.mk.injEq, Option.map_eq_some_iff] at seen
  obtain ⟨names, count, t, here, named, location, located, start⟩ := seen
  have opened : ofHtml "u" "<html><p>a</body>b".toList (some ⟨2, 4, none⟩) none = _ :=
    ofHtml_eq_ok.2 ⟨tree, parsed, rfl⟩
  obtain ⟨spans, recorded⟩ := spans_ordered opened rfl (by rintro _ ⟨⟩; exact ⟨by decide, by decide⟩)
  have member : t ∈ tree.subtrees := List.mem_of_getElem? here
  rw [← Tree.places_subtrees []] at member
  obtain ⟨place, inside, rfl⟩ := List.mem_map.1 member
  obtain ⟨span?, told, nowhere, ordered⟩ := spans place inside
  cases span? with
  | none =>
    rcases nowhere.1 rfl with document | injected
    · rw [document] at named
      cases named
    · rw [Node.isInjected_of_located (by rw [located]; exact Option.some_ne_none _)] at injected
      cases injected
  | some span =>
    obtain ⟨same, placed, begins, forward⟩ := ordered span rfl
    obtain rfl : location = same := Option.some.inj (located.symm.trans placed)
    obtain ⟨records, read, matched⟩ := recorded true
    refine ⟨_, tree, place.2, span, records, opened, rfl, names, List.mem_of_getElem? here, named, told, ?_,
      forward, read, matched.length_eq.symm.trans count⟩
    rw [start] at begins
    exact (Except.ok.inj begins).symm

end Document

end LocatedHtml
