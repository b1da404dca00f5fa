import LocatedHtml.Document.Inline
import LocatedHtml.Proofs.Construction.BlockFacts
import LocatedHtml.Proofs.Lexing.Coverage
import LocatedHtml.Proofs.Nested.Positions

/-!
The documents inside of an HTML document. The text of each stands in the container as it is, right behind
the start tag of its host, so every place in it is told as the container tells it.
-/

namespace LocatedHtml

/-- The text of a raw text element stands in the source behind the start tag. -/
def RawInPlace (source : Text) (t : HtmlTree) : Prop :=
  ∀ name, t.value.content.elementName? = some name → isRawText name = true →
    ∀ location ∈ t.value.location, (∀ c ∈ t.children, c.IsText) ∧
      ∃ before after, source = before ++ Tree.joinedText t.children ++ after ∧
        location.opening.stop = before.length

variable {source : Text} {x : Lexeme} {xs texts : List Lexeme}

/-- What pieces of text mean together is what they take of the source. -/
theorem RawBlock.taken {name : String} {attributes : List (String × Text)} {value : Text}
    (block : RawBlock x texts name attributes value) : taken texts = value := by
  obtain ⟨values, tokens, rfl⟩ := block.content
  have verbatim := block.verbatim
  clear block
  induction texts generalizing values with
  | nil =>
    cases values with
    | nil => rfl
    | cons v values => cases tokens
  | cons y texts ih =>
    cases values with
    | nil => cases tokens
    | cons v values =>
      rw [List.map_cons, List.map_cons, verbatim y List.mem_cons_self] at tokens
      injection tokens with first tokens
      injection first with first
      have rest := ih values tokens fun z member => verbatim z (List.mem_cons_of_mem y member)
      rw [LocatedHtml.taken] at rest ⊢
      rw [List.flatMap_cons, rest, first, List.flatten_cons]

theorem stop_opening {before : Text} (begins : x.start = Mark.origin.after before) :
    (Construction.startTagLocation x).opening.stop = (before ++ x.raw).length := by
  have stop : x.stop.offset = (before ++ x.raw).length := by
    rw [Lexeme.stop, begins, ← Mark.after_append]
    exact Nat.zero_add _
  rw [← stop]
  rfl

theorem blockFacts_inPlace (chained : Chained .origin source xs) :
    BlockFacts (fun _ => RawInPlace source) (fun _ _ => True) xs where
  text above value location := by rintro name ⟨⟩
  plain x member _ ordinary := by
    refine ⟨⟨?_, ?_, ?_, ?_, ?_⟩,
      ⟨fun _ _ _ _ _ _ _ => trivial, fun _ _ _ _ => trivial, fun _ _ _ _ => trivial⟩⟩
    · intro above name attributes selfClosing token
      have part : [x] <:+: xs := by
        obtain ⟨front, back, rfl⟩ := List.append_of_mem member
        exact ⟨front, back, by simp⟩
      obtain ⟨before, after, whole, begins⟩ := chained.infix part
      refine ⟨?_, ?_⟩
      · rintro name _ _ location ⟨⟩
        refine ⟨by simp [Tree.children, OpenElement.toTree], before ++ x.raw, after, ?_, stop_opening begins⟩
        exact whole
      · rintro rfl more other named raw
        cases named
        rw [ordinary name attributes token] at raw
        cases raw
    · intro above e token holds name named raw location present
      cases present
      rw [Location.opening_withEndTag]
      exact holds name named raw e.location rfl
    all_goals
      intro above value token
      rintro name ⟨⟩
  raw x texts name attributes value t part block element above := by
    obtain ⟨v, cs⟩ := t
    have top : v.content = .element name (OrderedMap.insertAllNew [] attributes) := element.content
    apply Everywhere.of_children
    · intro other named raw location present
      obtain ⟨before, after, whole, begins⟩ := chained.infix part
      rw [block.taken] at whole
      refine ⟨element.texts, before ++ x.raw, after, ?_, ?_⟩
      · rw [element.joined]
        exact whole
      · have opening := element.opening
        rw [Option.mem_def.1 present] at opening
        rw [Option.some.inj opening]
        exact stop_opening begins
    · intro c member
      obtain ⟨u, text, rfl, isText⟩ := element.texts c member
      apply Everywhere.leaf
      intro other named
      rw [Tree.value, isText] at named
      cases named

/-- In the document of a source the text of every raw text element stands behind its start tag. -/
theorem parseHtml_rawInPlace {tree : HtmlTree} (parsed : parseHtml source = .ok tree) :
    ∀ t ∈ tree.subtrees, RawInPlace source t := by
  obtain ⟨xs, cut, rfl⟩ := parseHtml_eq_toTree parsed
  have chained := lexemesFrom_chained (by rintro _ ⟨⟩) cut
  have start : Construction.Carries (fun _ => RawInPlace source) (fun _ _ => True) {} :=
    .initial fun _ => trivial
  obtain ⟨r, same, nodes, _⟩ :=
    start.run ((lexemesFrom_blocks cut).1 rfl) (blockFacts_inPlace chained) source.length
  rw [same]
  have cooked {name : String} (structural : isRawText name = false) {shell : Shell} (cs : List HtmlTree) :
      RawInPlace source (shell.toTree name cs) := by
    rintro _ ⟨⟩ raw
    rw [structural] at raw
    cases raw
  have all : Everywhere (fun _ => RawInPlace source) [] r.toTree := by
    apply nodes.toTree
    · rintro cs name ⟨⟩
    · exact cooked (by decide)
    · exact cooked (by decide)
    · exact cooked (by decide)
  intro t member
  exact (all.at_subtree member).elim fun _ holds => holds

namespace Tree

theorem collectText_texts {cs : List HtmlTree} (texts : ∀ c ∈ cs, c.IsText) :
    collectText cs = joinedText cs := by
  induction cs with
  | nil => rw [collectText, joinedText, List.flatMap_nil]
  | cons c cs ih =>
    rw [List.forall_mem_cons] at texts
    obtain ⟨⟨v, value, rfl, content⟩, texts⟩ := texts
    rw [collectText, content, joinedText, List.flatMap_cons, Tree.value, content]
    dsimp only
    rw [ih texts]
    rfl

theorem textContent_eq {t : HtmlTree} {name : String} (named : t.value.content.elementName? = some name)
    (texts : ∀ c ∈ t.children, c.IsText) : t.textContent = joinedText t.children := by
  obtain ⟨v, cs⟩ := t
  rw [← collectText_texts texts, textContent, collectText]
  cases content : v.content with
  | element name attributes => rw [List.append_nil]; rfl
  | _ => rw [value, content] at named; cases named

/-- A node that is found stands at the place of the document order that comes with it, and meets the
condition. -/
theorem findAll_spec {root t : HtmlTree} {p : Condition} {index : Nat}
    (found : (index, t) ∈ root.findAll 0 p) :
    root.subtrees[index]? = some t ∧ ∃ hasParent, p.holds t.value hasParent = true := by
  unfold findAll at found
  obtain ⟨⟨⟨depth, u⟩, place⟩, member, kept⟩ := List.mem_filterMap.1 found
  dsimp only at kept
  split at kept
  · next holds =>
    cases kept
    refine ⟨?_, _, holds⟩
    have here := List.mem_zipIdx_iff_getElem?.1 member
    rw [List.drop_zero] at here
    rw [subtrees, List.getElem?_map]
    cases visited : root.visits with
    | nil =>
      rw [visited] at here
      cases here
    | cons first rest =>
      rw [visited] at here
      dsimp only at here
      rw [List.getElem?_take] at here
      split at here
      · rw [here]
        rfl
      · cases here
  · cases kept

end Tree

theorem mapM_id_ok {ε α : Type} {P : α → Prop} {results : List (Except ε α)}
    (each : ∀ r ∈ results, ∃ a, r = .ok a ∧ P a) :
    ∃ all, results.mapM id = .ok all ∧ ∀ a ∈ all, P a := by
  induction results with
  | nil => exact ⟨[], rfl, List.forall_mem_nil _⟩
  | cons r results ih =>
    rw [List.forall_mem_cons] at each
    obtain ⟨⟨a, rfl, first⟩, each⟩ := each
    obtain ⟨all, rest, holds⟩ := ih each
    refine ⟨a :: all, ?_, List.forall_mem_cons.2 ⟨first, holds⟩⟩
    rw [List.mapM_cons, rest]
    rfl

namespace Document

/-- The position of an offset of the contents, told in the container. -/
def placeOf (d : Document) (offset : Int) : Except LocationError Position :=
  match d.embedding with
  | none => .ok (d.lineTable.position offset)
  | some e => e.toOuter (d.lineTable.position offset)

/-- The position at which the contents start, told in the container. -/
def base (d : Document) : Position :=
  match d.embedding with
  | none => .origin
  | some e => e.base

/-- A document that stands in a proper place has every position there. -/
theorem placeOf_inside {d : Document} (proper : ∀ e ∈ d.embedding, e.Proper) (offset : Int) :
    d.placeOf offset = .ok (d.base.inside (d.lineTable.position offset)) := by
  unfold placeOf base
  cases embedding : d.embedding with
  | none => exact congrArg Except.ok (Position.origin_inside _).symm
  | some e => exact Embedding.toOuter_eq (proper e embedding) _

theorem placeOf_eq {d : Document} (proper : ∀ e ∈ d.embedding, e.Proper) {n : Nat}
    (bound : n ≤ d.contents.length) : d.placeOf n = .ok (d.base.after (d.contents.take n)) := by
  rw [placeOf_inside proper, lineTable, LineTable.position_eq bound, Position.inside_after_origin]

/-- A document that stands in a container from an offset on: its contents are a piece of the container,
and every place in it is told as the container tells it. -/
structure StandsAt (i d : Document) (start : Nat) : Prop where
  contents : d.slice start (start + i.contents.length) = i.contents
  embedded : i.embedding.isSome = true
  places : ∀ offset : Nat, offset ≤ i.contents.length →
    ∃ p, i.placeOf offset = .ok p ∧ d.placeOf (start + offset) = .ok p

/-- The document behind a start tag. -/
theorem inlineOf_standsAt {d : Document} (proper : ∀ e ∈ d.embedding, e.Proper) {t : HtmlTree}
    {startTag : Extent} {before after : Text} (whole : d.contents = before ++ t.textContent ++ after)
    (stop : startTag.stop = before.length) (host : NodeId) :
    ∃ i, d.inlineOf host t startTag = .ok i ∧ i.host = some host ∧ i.StandsAt d before.length := by
  have inner : d.lineTable.position startTag.stop = Position.origin.after before := by
    rw [stop, lineTable, LineTable.position_eq (by rw [whole]; simp), whole, List.append_assoc,
      List.take_left]
  have stands {i : Document} (contents : i.contents = t.textContent)
      (embedded : ∃ file, i.embedding =
        some ⟨(d.base.after before).line, (d.base.after before).column, file⟩) :
      i.StandsAt d before.length := by
    obtain ⟨file, embedding⟩ := embedded
    refine ⟨?_, by rw [embedding]; rfl, fun offset bound => ?_⟩
    · rw [slice, Nat.add_sub_cancel_left, whole, List.append_assoc, List.drop_left, contents,
        List.take_left]
    · refine ⟨_, placeOf_eq ?_ bound, ?_⟩
      · intro e here
        rw [embedding] at here
        cases here
        exact Embedding.proper_ofPosition _ _
      · rw [contents] at bound
        have base : i.base = d.base.after before := by
          rw [Document.base, embedding]
          rfl
        have within : before.length + offset ≤ d.contents.length := by
          rw [whole, List.length_append, List.length_append]
          omega
        rw [← Int.natCast_add, placeOf_eq proper within, base, ← Position.after_append, whole,
          List.append_assoc, List.take_length_add_append, List.take_append_of_le_length bound, contents]
  unfold inlineOf
  rw [inner]
  cases embedding : d.embedding with
  | none =>
    refine ⟨_, rfl, rfl, stands rfl ⟨some d.url, ?_⟩⟩
    rw [Document.base, embedding]
  | some e =>
    dsimp only
    rw [Embedding.toOuter_eq (proper e embedding), Position.inside_after_origin]
    refine ⟨_, rfl, rfl, stands rfl ⟨some (Embedding.nameOr e.file d.url), ?_⟩⟩
    rw [Document.base, embedding]

/-- By default the raw text elements are looked for. -/
theorem holds_inlineNames (v : Node) (hasParent : Bool) :
    (Condition.onElements (.some (inlineNames.map .named))).holds v hasParent =
      v.content.elementName?.any isRawText := by
  have script : Text.lowerName ['s', 'c', 'r', 'i', 'p', 't'] = "script" := by decide +kernel
  have style : Text.lowerName ['s', 't', 'y', 'l', 'e'] = "style" := by decide +kernel
  rw [Bool.eq_iff_iff]
  cases content : v.content <;>
    simp [Condition.onElements, inlineNames, Condition.holds, Condition.holdsEvery, Condition.holdsSome, script,
      style, content, Content.isElement, Content.elementName?, isRawText_iff]

theorem isRawText_of_holds {v : Node} {hasParent : Bool}
    (holds : (Condition.onElements (.some (inlineNames.map .named))).holds v hasParent = true) :
    ∃ name, v.content.elementName? = some name ∧ isRawText name = true := by
  rw [holds_inlineNames, Option.any_eq_true] at holds
  exact holds

/-- Every document inside of an HTML document stands in it behind the start tag of its host. -/
theorem inlineDocuments_standAt {d : Document} {tree : HtmlTree} (parsed : parseHtml d.contents = .ok tree)
    (body : d.body = .html tree) (proper : ∀ e ∈ d.embedding, e.Proper) :
    ∃ inlines, d.inlineDocuments inlineNames = .ok inlines ∧
      ∀ i ∈ inlines, ∃ host t startTag endTag given, ∃ start : Nat, i.host = some host ∧
        d.node? host = some t ∧ t.value.location = some (.element startTag endTag given) ∧
        startTag.stop = start ∧ i.StandsAt d start := by
  unfold inlineDocuments
  rw [body]
  apply mapM_id_ok
  intro result member
  obtain ⟨⟨host, t⟩, found, made⟩ := List.mem_filterMap.1 member
  obtain ⟨place, _, holds⟩ := Tree.findAll_spec found
  obtain ⟨name, named, raw⟩ := isRawText_of_holds holds
  dsimp only at made
  split at made
  · next startTag endTag given located =>
    split at made
    · cases made
    · cases made
      have inTree : t ∈ tree.subtrees := List.mem_of_getElem? place
      obtain ⟨texts, before, after, whole, stop⟩ :=
        parseHtml_rawInPlace parsed t inTree name named raw _ located
      rw [← Tree.textContent_eq named texts] at whole
      obtain ⟨i, made, hosted, stands⟩ := inlineOf_standsAt proper whole stop host
      refine ⟨i, made, host, t, startTag, endTag, given, before.length, hosted, ?_, located, stop, stands⟩
      rw [node?, body]
      exact place
  · cases made

theorem inlineDocuments_standAt_unclosed :
    ∃ tree, parseHtml "<p>\n<script>a\nb</SCRIPT ><style/><style>c".toList = .ok tree ∧
      let d : Document := ⟨"u", "<p>\n<script>a\nb</SCRIPT ><style/><style>c".toList, .html tree, true,
        some ⟨2, 3, none⟩, none⟩
      ∃ inlines, d.inlineDocuments inlineNames = .ok inlines ∧
        inlines.map (·.host) = [some 6, some 8, some 9] ∧
        ∀ i ∈ inlines, ∃ host t startTag endTag given, ∃ start : Nat, i.host = some host ∧
          d.node? host = some t ∧ t.value.location = some (.element startTag endTag given) ∧
          startTag.stop = start ∧ i.StandsAt d start := by
  have known : (parseHtml "<p>\n<script>a\nb</SCRIPT ><style/><style>c".toList).toOption.map
      (fun tree => (Document.inlineDocuments ⟨"u", "<p>\n<script>a\nb</SCRIPT ><style/><style>c".toList,
        .html tree, true, some ⟨2, 3, none⟩, none⟩ inlineNames).toOption.map (·.map (·.host))) =
      some (some [some 6, some 8, some 9]) := by decide +kernel
  obtain ⟨tree, parsed, hosts⟩ := parseHtml_of_map known
  refine ⟨tree, parsed, ?_⟩
  intro d
  have proper : ∀ e ∈ d.embedding, e.Proper := by
    rintro e ⟨⟩
    exact ⟨by decide, by decide⟩
  obtain ⟨inlines, made, each⟩ := inlineDocuments_standAt (d := d) parsed rfl proper
  refine ⟨inlines, made, ?_, each⟩
  change (d.inlineDocuments inlineNames).toOption.map (·.map (·.host)) = _ at hosts
  rw [made] at hosts
  exact Option.some.inj hosts

end Document

end LocatedHtml
