import LocatedHtml.Proofs.Construction.Finished
import LocatedHtml.Proofs.Lexing.AttributePieces
import Mathlib.Data.List.Induction

/-!
What a document says of places in its source is true of the source: where a node or a tag starts, and
what is written there.
-/

namespace LocatedHtml

/-- The piece of source that an extent takes. -/
def Extent.slice (e : Extent) (source : Text) : Text := (source.take e.stop.toNat).drop e.start.toNat

/-- An extent starts inside of the source, on the line and in the column that the source has there. -/
structure Extent.StartsIn (e : Extent) (source : Text) : Prop where
  nonneg : 0 ≤ e.start
  inside : e.start < source.length
  line : e.position.line = (source.take e.start.toNat).count '\n'
  column : e.position.column =
    ((source.take e.start.toNat).reverse.takeWhile (· != '\n')).length

/-- The extent and the extents of the attributes in it. -/
def Extent.withAttributes (e : Extent) : List Extent := e :: (e.attributes.getD []).map Prod.snd

/-- Everything that a location records. -/
def Location.extents : Location → List Extent
  | .plain extent => extent.withAttributes
  | .element startTag endTag given =>
    startTag.withAttributes ++ endTag.toList.flatMap Extent.withAttributes ++
      (given.getD []).flatMap (·.2.withAttributes)

/-- What the location of a node says is true of the source. -/
structure Node.Faithful (source : Text) (v : Node) : Prop where
  starts : ∀ location ∈ v.location, ∀ e ∈ location.extents, e.StartsIn source
  startTag : ∀ name, v.content.elementName? = some name → ∀ location ∈ v.location,
    IsStartTag name (location.opening.slice source)
  endTag : ∀ name, v.content.elementName? = some name → ∀ location ∈ v.location,
    ∀ endTag ∈ location.endTag?, IsEndTag name (endTag.slice source)
  doctype : ∀ value, v.content = .doctype value → ∀ location ∈ v.location,
    location.opening.slice source = '<' :: '!' :: value ++ ['>']
  text : ∀ value, v.content = .text value → ∀ location ∈ v.location,
    location.start < location.stop ∧ location.stop ≤ source.length

theorem Position.after_origin (before : Text) : origin.after before =
    ⟨before.count '\n', (before.reverse.takeWhile (· != '\n')).length⟩ := by
  induction before using List.reverseRecOn with
  | nil => rfl
  | append_singleton before c ih =>
    rw [Position.after_append, ih, List.count_append, List.reverse_concat]
    by_cases newline : c = '\n'
    · subst newline
      rfl
    · simp [after, next, newline]

variable {source before raw after : Text}

theorem startsIn_ofMark {c : Char} (after : Text) (whole : source = before ++ c :: after) (stop : Nat)
    (attributes : Option (List (String × Extent))) :
    Extent.StartsIn { Extent.ofMark (Mark.origin.after before) stop with attributes := attributes }
      source := by
  have offset : (Mark.origin.after before).offset = before.length := Nat.zero_add _
  have prefix_ : source.take before.length = before := by rw [whole, List.take_left]
  refine ⟨Int.natCast_nonneg _, ?_, ?_, ?_⟩
  · simp only [Extent.ofMark, offset, whole, List.length_append, List.length_cons]
    omega
  · simp only [Extent.ofMark, offset, Int.toNat_natCast, prefix_]
    exact congrArg Position.line (Position.after_origin before)
  · simp only [Extent.ofMark, offset, Int.toNat_natCast, prefix_]
    exact congrArg Position.column (Position.after_origin before)

theorem slice_ofMark (whole : source = before ++ raw ++ after)
    (attributes : Option (List (String × Extent))) :
    Extent.slice { Extent.ofMark (Mark.origin.after before) ((Mark.origin.after before).after raw).offset
      with attributes := attributes } source = raw := by
  have stop : ((Mark.origin.after before).after raw).offset = (before ++ raw).length := by
    rw [← Mark.after_append]
    exact Nat.zero_add _
  have start : (Mark.origin.after before).offset = before.length := Nat.zero_add _
  simp only [Extent.slice, Extent.ofMark, start, stop, Int.toNat_natCast]
  rw [whole, List.take_left, List.drop_left]

theorem attributeExtents_startsIn (whole : source = before ++ raw ++ after) :
    ∀ entry ∈ attributeExtents (Mark.origin.after before) raw, entry.2.StartsIn source := by
  intro entry member
  rcases OrderedMap.mem_insertAllNew member with none | member
  · cases none
  · obtain ⟨piece, inside, rfl⟩ := List.mem_map.1 member
    obtain ⟨front, value, back, behind, some_, _, same⟩ := (attributePieces_in _ _).written piece inside
    obtain ⟨c, rest, written⟩ := List.exists_cons_of_ne_nil some_
    dsimp only
    rw [same, ← Mark.after_append, ← Mark.after_append]
    refine startsIn_ofMark (c := c) (rest ++ value ++ back ++ after) ?_ _ none
    rw [whole]
    conv => lhs; rw [← List.take_append_drop (1 + (raw.tail.takeWhile fun c =>
      !(isBlank c || c = '/' || c = '>')).length) raw, behind, written]
    simp only [List.append_assoc, List.cons_append]

/-- A lexeme stands in a source where it says, and is written the way that its token says. -/
structure Lexeme.InSource (source : Text) (x : Lexeme) : Prop where
  placed : ∃ before after, source = before ++ x.raw ++ after ∧ x.start = Mark.origin.after before
  nonempty : x.raw ≠ []
  reads : x.token.Reads x.raw

variable {x : Lexeme}

namespace Lexeme.InSource

theorem startsIn (here : x.InSource source) (stop : Nat)
    (attributes : Option (List (String × Extent))) :
    Extent.StartsIn { Extent.ofMark x.start stop with attributes := attributes } source := by
  obtain ⟨before, after, whole, start⟩ := here.placed
  obtain ⟨c, rest, raw⟩ := List.exists_cons_of_ne_nil here.nonempty
  rw [start]
  apply startsIn_ofMark (c := c) (rest ++ after)
  rw [whole, raw, List.append_assoc, List.cons_append]

theorem slice (here : x.InSource source) (attributes : Option (List (String × Extent))) :
    Extent.slice { Extent.ofMark x.start x.stop.offset with attributes := attributes } source =
      x.raw := by
  obtain ⟨before, after, whole, start⟩ := here.placed
  rw [Lexeme.stop, start]
  exact slice_ofMark whole attributes

theorem attributes (here : x.InSource source) :
    ∀ entry ∈ attributeExtents x.start x.raw, entry.2.StartsIn source := by
  obtain ⟨before, after, whole, start⟩ := here.placed
  rw [start]
  exact attributeExtents_startsIn whole

/-- The node of a comment or a doctype. -/
theorem plain (here : x.InSource source) (stop : Nat) {content : Content}
    (named : content.elementName? = none) (dark : ∀ value, content ≠ .text value)
    (doctype : ∀ value, content = .doctype value →
      stop = x.stop.offset ∧ x.raw = '<' :: '!' :: value ++ ['>']) :
    Node.Faithful source ⟨content, some (.plain (.ofMark x.start stop))⟩ where
  starts location present e member := by
    cases present
    rw [List.mem_singleton.1 member]
    exact here.startsIn stop none
  startTag name same := by rw [named] at same; cases same
  endTag name same := by rw [named] at same; cases same
  doctype value same location present := by
    cases present
    obtain ⟨rfl, written⟩ := doctype value same
    exact (here.slice none).trans written
  text value same := absurd same (dark value)

end Lexeme.InSource

namespace Node.Faithful

variable {name : String} {attributes : OrderedMap Text}

theorem unlocated (content : Content) : Node.Faithful source ⟨content, none⟩ where
  starts := by rintro _ ⟨⟩
  startTag := by rintro _ _ _ ⟨⟩
  endTag := by rintro _ _ _ ⟨⟩
  doctype := by rintro _ _ _ ⟨⟩
  text := by rintro _ _ _ ⟨⟩

/-- Whether the location of an element is right does not depend on its attributes. -/
theorem congr {location : Option Location}
    (faithful : Node.Faithful source ⟨.element name attributes, location⟩)
    (others : OrderedMap Text) : Node.Faithful source ⟨.element name others, location⟩ where
  starts := faithful.starts
  startTag := faithful.startTag
  endTag := faithful.endTag
  doctype := by rintro _ ⟨⟩
  text := by rintro _ ⟨⟩

theorem started (here : x.InSource source) {written : List (String × Text)} {selfClosing : Bool}
    (token : x.token = .startTag name written selfClosing) :
    Node.Faithful source ⟨.element name attributes, some (Construction.startTagLocation x)⟩ where
  starts location present e member := by
    cases present
    have tag : e ∈ Extent.withAttributes { Extent.ofMark x.start x.stop.offset with
        attributes := some (attributeExtents x.start x.raw) } := by
      simpa [Construction.startTagLocation, Location.extents] using member
    rcases List.mem_cons.1 tag with rfl | inner
    · exact here.startsIn _ _
    · obtain ⟨entry, listed, rfl⟩ := List.mem_map.1 inner
      exact here.attributes entry listed
  startTag same named location present := by
    cases named
    cases present
    have reads := here.reads
    rw [token, ← here.slice (some (attributeExtents x.start x.raw))] at reads
    exact reads
  endTag := by
    rintro _ _ _ ⟨⟩ _ ⟨⟩
  doctype := by rintro _ ⟨⟩
  text := by rintro _ ⟨⟩

theorem ended (here : x.InSource source) (token : x.token = .endTag name) {location : Location}
    (faithful : Node.Faithful source ⟨.element name attributes, some location⟩) :
    Node.Faithful source
      ⟨.element name attributes, some (location.withEndTag (.ofMark x.start x.stop.offset))⟩ := by
  cases location with
  | plain extent => exact faithful
  | element startTag endTag given =>
    refine ⟨?_, ?_, ?_, by rintro _ ⟨⟩, by rintro _ ⟨⟩⟩
    · rintro _ ⟨⟩ e member
      have earlier := faithful.starts _ rfl e
      simp only [Location.extents, Location.withEndTag, List.mem_append, Option.toList,
        List.flatMap_cons, List.flatMap_nil, List.append_nil] at member earlier
      rcases member with (first | second) | third
      · exact earlier (.inl (.inl first))
      · rw [List.mem_singleton.1 second]
        exact here.startsIn _ none
      · exact earlier (.inr third)
    · rintro _ ⟨⟩ _ ⟨⟩
      exact faithful.startTag name rfl (.element startTag endTag given) rfl
    · rintro _ ⟨⟩ _ ⟨⟩ _ ⟨⟩
      have reads := here.reads
      rw [token, ← here.slice none] at reads
      exact reads

theorem text_ofMark {c : Char} {stop : Nat} (after : Text) (whole : source = before ++ c :: after)
    (later : before.length < stop) (bound : stop ≤ source.length) (value : Text) :
    Node.Faithful source
      ⟨.text value, some (.plain (.ofMark (Mark.origin.after before) stop))⟩ where
  starts := by
    rintro _ ⟨⟩ e member
    rw [List.mem_singleton.1 member]
    exact startsIn_ofMark after whole stop none
  startTag := by rintro _ ⟨⟩
  endTag := by rintro _ ⟨⟩
  doctype := by rintro _ ⟨⟩
  text := by
    rintro _ _ _ ⟨⟩
    have start : (Mark.origin.after before).offset = before.length := Nat.zero_add _
    simp only [Location.start, Location.stop, Location.endTag?, Location.opening, Extent.ofMark, start]
    omega

end Node.Faithful

/-- What a tree says at its top is true of the source, wherever the tree stands. -/
abbrev FaithfulNode (source : Text) : List String → HtmlTree → Prop :=
  fun _ t => t.value.Faithful source

theorem nodeFact_faithful (here : x.InSource source) : NodeFact (FaithfulNode source) x where
  started above name attributes selfClosing token :=
    ⟨.started here token, fun _ _ => .started here token⟩
  ended above e token faithful := Node.Faithful.ended here token faithful
  comment above value token := here.plain _ rfl (by rintro _ ⟨⟩) (by rintro _ ⟨⟩)
  instruction above value token := here.plain _ rfl (by rintro _ ⟨⟩) (by rintro _ ⟨⟩)
  declaration above value token := by
    apply here.plain _ rfl (by rintro _ ⟨⟩)
    rintro _ ⟨⟩
    have reads := here.reads
    rw [token] at reads
    exact ⟨rfl, reads⟩

theorem shellFact_faithful (here : x.InSource source) :
    ShellFact (fun name shell => (shell.node name).Faithful source) x where
  more _ _ _ _ _ _ faithful := Node.Faithful.congr faithful _
  started _ _ _ token := .started here token
  ended _ _ token faithful := Shell.close_node faithful fun _ before => .ended here token before

/-- How a construction follows its source: what it holds is true of the source, and open text began
before the place that has been reached. -/
structure Follows (source before : Text) (s : Construction) : Prop where
  placed : s.WellPlaced
  nodes : s.Sound (FaithfulNode source)
  shells : Construction.Shells (fun name shell => (shell.node name).Faithful source) s.frame
  text : ∀ o ∈ s.openText, ∃ front c rest, before = front ++ c :: rest ∧
    o.start = Mark.origin.after front

namespace Follows

variable {s : Construction}

theorem initial : Follows source [] {} where
  placed := Construction.wellPlaced_initial
  nodes := Construction.sound_initial
  shells := Construction.shells_initial fun name => .unlocated _
  text := by rintro _ ⟨⟩

theorem textFact (follows : Follows source before s) (whole : source = before ++ after) {stop : Nat}
    (reached : before.length ≤ stop) (bound : stop ≤ source.length) :
    s.TextFact (FaithfulNode source) stop := by
  intro o openText _ value
  obtain ⟨front, c, rest, split_, start⟩ := follows.text o openText
  rw [start]
  apply Node.Faithful.text_ofMark (c := c) (rest ++ after)
  · rw [whole, split_, List.append_assoc, List.cons_append]
  · rw [split_, List.length_append, List.length_cons] at reached
    omega
  · exact bound

theorem add (follows : Follows source before s) (whole : source = before ++ x.raw ++ after)
    (start : x.start = Mark.origin.after before) (here : x.InSource source) :
    Follows source (before ++ x.raw) (s.add x) where
  placed := follows.placed.add x
  nodes := by
    have offset : x.start.offset = before.length := by rw [start]; exact Nat.zero_add _
    apply follows.nodes.add_node follows.placed (nodeFact_faithful here)
    rw [offset]
    rw [List.append_assoc] at whole
    apply follows.textFact whole (Nat.le_refl _)
    rw [whole, List.length_append]
    exact Nat.le_add_right _ _
  shells := follows.shells.add (shellFact_faithful here)
  text o openText := by
    rcases Construction.textFrom_add s x o openText with first | ⟨earlier, before_, same⟩
    · obtain ⟨c, rest, raw⟩ := List.exists_cons_of_ne_nil here.nonempty
      exact ⟨before, c, rest, by rw [raw], first.trans start⟩
    · obtain ⟨front, c, rest, split_, start⟩ := follows.text earlier before_
      exact ⟨front, c, rest ++ x.raw, by rw [split_]; simp, same ▸ start⟩

theorem run {t : Text} {start : Mark} {xs : List Lexeme} (chained : Chained start t xs)
    (begins : start = Mark.origin.after before) (whole : source = before ++ t)
    (follows : Follows source before s) :
    ∃ reached rest, source = reached ++ rest ∧ Follows source reached (xs.foldl Construction.add s) := by
  induction chained generalizing before s with
  | nil => exact ⟨before, _, whole, follows⟩
  | @cons x rest xs nonempty reads _ ih =>
    rw [← List.append_assoc] at whole
    have here : x.InSource source := ⟨⟨before, rest, whole, begins⟩, nonempty, reads⟩
    apply ih _ whole (follows.add whole begins here)
    rw [Lexeme.stop, begins, Mark.after_append]

end Follows

theorem parseHtml_everywhereFaithful {tree : HtmlTree} (parsed : parseHtml source = .ok tree) :
    Everywhere (FaithfulNode source) [] tree := by
  obtain ⟨xs, cut, rfl⟩ := parseHtml_eq_toTree parsed
  have chained := lexemesFrom_chained (by rintro _ ⟨⟩) cut
  obtain ⟨reached, rest, whole, follows⟩ :=
    Follows.run chained rfl (List.nil_append source).symm Follows.initial
  have bound : reached.length ≤ source.length := by
    rw [whole, List.length_append]
    exact Nat.le_add_right _ _
  have nodes := follows.nodes.endText_node (follows.textFact whole bound (Nat.le_refl _))
  have shells := follows.shells.endText source.length
  exact nodes.toTree (fun _ => .unlocated _) (fun _ => shells.html) (fun _ => shells.head)
    fun _ => shells.body

/-- Every location in the document of a source is true of the source. -/
theorem parseHtml_faithful {tree : HtmlTree} (parsed : parseHtml source = .ok tree) :
    ∀ t ∈ tree.subtrees, t.value.Faithful source := by
  intro t member
  obtain ⟨_, faithful⟩ := (parseHtml_everywhereFaithful parsed).at_subtree member
  exact faithful

theorem parseHtml_faithful_paragraph :
    ∃ tree, parseHtml "<!doctype html>\n<P a=b>x</P >".toList = .ok tree ∧
      tree.elementNames = ["html", "head", "body", "p"] ∧
      ∀ t ∈ tree.subtrees, t.value.Faithful "<!doctype html>\n<P a=b>x</P >".toList := by
  have known : (parseHtml "<!doctype html>\n<P a=b>x</P >".toList).toOption.map Tree.elementNames =
      some ["html", "head", "body", "p"] := by decide +kernel
  obtain ⟨tree, parsed, names⟩ := parseHtml_of_map known
  exact ⟨tree, parsed, names, parseHtml_faithful parsed⟩

end LocatedHtml
