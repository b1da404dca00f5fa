import LocatedHtml.Proofs.DocumentShape
import LocatedHtml.Proofs.Rebuilding.Retaking
import LocatedHtml.Proofs.Written.NormalShape
import LocatedHtml.Proofs.Written.Rendering
import LocatedHtml.Proofs.Written.WritableTree

/-!
What is written for a document is a normal form: it is read as a document of the same normal shape, for
which the same is written again.
-/

namespace LocatedHtml

/-- Texts directly in the element of the event are written as they are read. -/
def Event.Plain : Event → Prop
  | .opening name _ | .single name _ | .raw name _ _ => isVerbatim name = true → isRawText name = true
  | _ => True

/-- The name of an element can be told apart from what follows it, and texts in it are written as they
are read. -/
def PlainlyNamed (t : HtmlTree) : Prop :=
  ∀ name, t.value.content.elementName? = some name →
    (isVerbatim name = true → isRawText name = true) ∧ ∀ c ∈ name.toList, isBlank c = false

/-- The events of a tree that can be written can be written. -/
theorem events_writable {t : HtmlTree} {above : List String}
    (nodes : Everywhere (fun _ t => WritableNode t ∧ PlainlyNamed t) above t) :
    ∀ e ∈ t.events, e.Writable ∧ e.Plain := by
  induction t using Tree.induction generalizing above with
  | node v cs ih =>
    obtain ⟨writable, named⟩ := nodes.top
    have inner : ∀ e ∈ cs.flatMap Tree.events, e.Writable ∧ e.Plain := by
      intro e member
      obtain ⟨c, child, member⟩ := List.mem_flatMap.1 member
      exact ih c child (nodes.child c child) e member
    unfold WritableNode at writable
    unfold PlainlyNamed at named
    rw [Tree.events_node]
    dsimp only [Tree.value] at writable named ⊢
    cases content : v.content <;> rw [content] at writable named <;> dsimp only
    case document => exact inner
    case text value =>
      intro e member
      obtain ⟨c, _, rfl⟩ := List.mem_map.1 member
      exact ⟨trivial, trivial⟩
    case comment value =>
      rw [List.forall_mem_singleton]
      exact ⟨writable, trivial⟩
    case doctype value =>
      rw [List.forall_mem_singleton]
      exact ⟨writable, trivial⟩
    case element name attributes =>
      obtain ⟨plain, dark⟩ := named name rfl
      obtain ⟨tag, entries, rawText⟩ := writable
      split
      · exact inner
      · split
        · next void =>
          rw [List.forall_mem_singleton]
          exact ⟨⟨tag, not_isRawText_of_isVoid void, entries⟩, plain⟩
        · split
          · next raw =>
            rw [List.forall_mem_singleton]
            exact ⟨⟨raw, entries, (rawText raw).2⟩, plain⟩
          · next cooked =>
            have cooked : isRawText name = false := Bool.eq_false_iff.2 cooked
            rw [List.forall_mem_cons, List.forall_mem_append, List.forall_mem_singleton]
            exact ⟨⟨⟨tag, cooked, entries⟩, plain⟩, inner, ⟨tag, dark⟩, trivial⟩

/-- Whether texts are written as they are read shows in the events. -/
theorem plainlyWritten_of_events {t : HtmlTree} {above : List String}
    (trim : Everywhere (fun _ => Trim) above t) (plain : ∀ e ∈ t.events, e.Plain) :
    Everywhere (fun _ t => PlainlyWritten t) above t := by
  induction t using Tree.induction generalizing above with
  | node v cs ih =>
    have below (inner : ∀ e ∈ cs.flatMap Tree.events, e.Plain) :
        ∀ c ∈ cs, Everywhere (fun _ t => PlainlyWritten t) (v.content.namesBelow above) c := by
      intro c child
      apply ih c child (trim.child c child)
      exact fun e member => inner e (List.mem_flatMap.2 ⟨c, child, member⟩)
    have childless (none : cs = []) : ∀ c ∈ cs,
        Everywhere (fun _ t => PlainlyWritten t) (v.content.namesBelow above) c := by
      rw [none]
      simp
    rw [Tree.events_node] at plain
    have unnamed (other : v.content.elementName? = none) : PlainlyWritten (.node v cs) := by
      intro name named
      rw [Tree.value, other] at named
      cases named
    cases content : v.content with
    | document =>
      rw [content] at plain
      exact .of_children (unnamed (by rw [content]; rfl)) (below plain)
    | element name attributes =>
      obtain ⟨void_, raw_⟩ := trim.top.element content
      have top (escaped : isVerbatim name = true → isRawText name = true) :
          PlainlyWritten (.node v cs) := by
        intro other named
        rw [Tree.value, content] at named
        cases named
        exact ⟨escaped, raw_⟩
      rw [content] at plain
      dsimp only at plain
      split at plain
      · next injected =>
        refine .of_children (top fun verbatim => ?_) (below plain)
        rw [not_isVerbatim_of_structural (Node.structural_of_isInjected injected (by rw [content]; rfl))]
          at verbatim
        cases verbatim
      · split at plain
        · next void =>
          rw [List.forall_mem_singleton] at plain
          exact .of_children (top plain) (childless (void_ void))
        · split at plain
          · next raw =>
            apply Everywhere.of_children (top fun _ => raw)
            intro c child
            obtain ⟨u, value, rfl, text⟩ := raw_ raw c child
            apply Everywhere.leaf
            intro other named
            rw [Tree.value, text] at named
            cases named
          · rw [List.forall_mem_cons, List.forall_mem_append] at plain
            exact .of_children (top plain.1) (below plain.2.1)
    | text value | comment value | doctype value =>
      exact .of_children (unnamed (by rw [content]; rfl))
        (childless (trim.top.leaf (by rw [content]; rintro ⟨⟩) (by rw [content]; rfl)))

variable {source : Text} {tree : HtmlTree}

/-- Nodes of a document that cannot have content have none, and raw text elements hold only texts. -/
theorem parseHtml_leaves (parsed : parseHtml source = .ok tree) :
    ∀ c ∈ tree.children, Everywhere (fun _ t => LeafShaped t) [] c := by
  have writable := parseHtml_writable parsed
  have root := (parseHtml_shaped parsed).2
  obtain ⟨xs, _, rfl⟩ := parseHtml_eq_toTree parsed
  have sound := (Construction.WellPlaced.of_lexemes xs).endText source.length
  have weaker : ((xs.foldl Construction.add {}).endText source.length).Sound fun _ t =>
      t.value.content ≠ .document ∧ (t.children ≠ [] →
        ∃ name, t.value.content.elementName? = some name ∧ isVoid name = false) := by
    refine sound.imp fun above t placed => ⟨?_, placed.childless⟩
    intro document
    rw [Placed, document] at placed
    exact placed
  intro c child
  have kinds := weaker.toTree_children (fun _ => ⟨by rintro ⟨⟩, fun _ => ⟨"html", rfl, rfl⟩⟩)
    (fun _ => ⟨by rintro ⟨⟩, fun _ => ⟨"head", rfl, rfl⟩⟩)
    (fun _ => ⟨by rintro ⟨⟩, fun _ => ⟨"body", rfl, rfl⟩⟩) c child
  have inner := writable.child c child
  rw [root] at inner
  refine (kinds.and inner).imp ?_
  rintro _ t ⟨⟨inside, parent⟩, node⟩
  have childless (leaf : ∀ name, t.value.content.elementName? = some name → isVoid name = true) :
      t.children = [] := by
    by_contra some
    obtain ⟨name, named, open_⟩ := parent some
    rw [leaf name named] at open_
    cases open_
  unfold LeafShaped
  unfold WritableNode at node
  cases content : t.value.content <;> rw [content] at node inside childless <;> dsimp only
  case document => exact absurd rfl inside
  case element name attributes =>
    refine ⟨fun void => childless ?_, fun raw => (node.2.2 raw).1⟩
    rintro _ ⟨⟩
    exact void
  all_goals exact childless (by rintro _ ⟨⟩)

theorem parseHtml_trim {source : Text} {tree : HtmlTree} (parsed : parseHtml source = .ok tree) :
    Everywhere (fun _ => Trim) [] tree := by
  have root := (parseHtml_shaped parsed).2
  have leaves := parseHtml_leaves parsed
  obtain ⟨v, cs⟩ := tree
  have document : v.content = .document := root
  refine .of_children (.inl root) fun c child => ?_
  rw [document]
  exact (leaves c child).imp fun _ _ => .inr

/-- What is written for a document, where texts are written as they are read. -/
theorem writtenWith_parsed (parsed : parseHtml source = .ok tree) (plain : ∀ e ∈ tree.events, e.Plain) :
    Document.writtenWith tree [] = writtenEvents tree.events :=
  writtenWith_eq (parseHtml_shaped parsed).2 (plainlyWritten_of_events (parseHtml_trim parsed) plain)

/-- The events of a document are taken as they are. -/
theorem parseHtml_reads (parsed : parseHtml source = .ok tree) :
    ∃ last, Control.Reads (Construction.control {}) tree.events last ∧ last.Finished := by
  obtain ⟨xs, _, rfl⟩ := parseHtml_eq_toTree parsed
  exact ((Construction.WellPlaced.of_lexemes xs).endText source.length).reads_toTree

/-- Events that are taken as they are are read again where they are written. -/
theorem parseHtml_of_reads {es : List Event} {last : Control}
    (reads : Control.Reads (Construction.control {}) es last) (finished : last.Finished)
    (writable : ∀ e ∈ es, e.Writable) :
    ∃ again, parseHtml (writtenEvents es) = .ok again ∧ again.events = es := by
  obtain ⟨tokens, spells, yields⟩ := writtenEvents_yields writable
  obtain ⟨ys, cut, rfl⟩ := yields .origin
  have start : Construction.Tracks (Construction.control {}) [] {} :=
    ⟨Construction.fresh_initial, rfl, rfl⟩
  have tracks := (start.run spells reads).endText (writtenEvents es).length
  refine ⟨_, ?_, tracks.events_toTree (Construction.endText_openText _ _) finished⟩
  rw [parseHtml, lexemes, cut]
  rfl

/-- A document whose events are written is read again with the same events. -/
theorem parseHtml_writtenEvents (parsed : parseHtml source = .ok tree)
    (writable : ∀ e ∈ tree.events, e.Writable) :
    ∃ again, parseHtml (writtenEvents tree.events) = .ok again ∧ again.events = tree.events := by
  obtain ⟨last, reads, finished⟩ := parseHtml_reads parsed
  exact parseHtml_of_reads reads finished writable

/-- The events of a document whose names can be told apart and are read as they are written. -/
theorem parseHtml_events (parsed : parseHtml source = .ok tree)
    (names : ∀ name ∈ tree.elementNames, name ∉ misreadNames ∧ ∀ c ∈ name.toList, isBlank c = false) :
    ∀ e ∈ tree.events, e.Writable ∧ e.Plain := by
  have plainlyNamed : ∀ t ∈ tree.subtrees, PlainlyNamed t := by
    intro t member name named
    obtain ⟨known, dark⟩ := names name (List.mem_filterMap.2 ⟨t, member, named⟩)
    exact ⟨isRawText_of_isVerbatim known, dark⟩
  exact events_writable ((parseHtml_writable parsed).and (.of_subtrees plainlyNamed))

/-- What is written for a document is read as a document of the same normal shape, for which the same is
written. -/
theorem render_normalForm (parsed : parseHtml source = .ok tree)
    (names : ∀ name ∈ tree.elementNames, name ∉ misreadNames ∧ ∀ c ∈ name.toList, isBlank c = false)
    (url : String) (indent : Nat) :
    ∃ d t, Document.ofHtml url source none none = .ok d ∧ d.render [] indent = .ok t ∧
      ∃ again d', parseHtml t = .ok again ∧ Document.ofHtml url t none none = .ok d' ∧
        d'.render [] indent = .ok t ∧ again.normalShape = tree.normalShape := by
  have events := parseHtml_events parsed names
  have written := writtenWith_parsed parsed fun e member => (events e member).2
  obtain ⟨again, reread, same⟩ := parseHtml_writtenEvents parsed fun e member => (events e member).1
  have rewritten := writtenWith_parsed reread fun e member => (events e (same ▸ member)).2
  rw [same, ← written] at rewritten
  rw [← written] at reread
  have opened (source : Text) (tree : HtmlTree) (parsed : parseHtml source = .ok tree) :
      Document.ofHtml url source none none = .ok ⟨url, source, .html tree, false, none, none⟩ := by
    rw [Document.ofHtml, parsed]
    rfl
  refine ⟨_, Document.writtenWith tree [], opened _ _ parsed, rfl, again, _, reread,
    opened _ _ reread, congrArg Except.ok rewritten, ?_⟩
  have root := (parseHtml_shaped parsed).2
  have rootAgain := (parseHtml_shaped reread).2
  apply normalShape_eq (rootAgain.trans root.symm) (parseHtml_leaves reread) (parseHtml_leaves parsed)
  have children {t : HtmlTree} (document : t.value.content = .document) :
      t.events = t.children.flatMap Tree.events := by
    obtain ⟨v, cs⟩ := t
    have document : v.content = .document := document
    rw [Tree.events_node, document]
    rfl
  rw [← children root, ← children rootAgain, same]

theorem render_normalForm_reentered :
    ∃ tree, parseHtml "<title>a</title> </head><p>b<li>c</body><!--d--><a b='\"&'>".toList = .ok tree ∧
      tree.elementNames = ["html", "head", "title", "body", "p", "li", "a"] ∧
      ∃ d t, Document.ofHtml "u" "<title>a</title> </head><p>b<li>c</body><!--d--><a b='\"&'>".toList
          none none = .ok d ∧ d.render [] 0 = .ok t ∧
        ∃ again d', parseHtml t = .ok again ∧ Document.ofHtml "u" t none none = .ok d' ∧
          d'.render [] 0 = .ok t ∧ again.normalShape = tree.normalShape := by
  have known : (parseHtml "<title>a</title> </head><p>b<li>c</body><!--d--><a b='\"&'>".toList).toOption.map
      Tree.elementNames = some ["html", "head", "title", "body", "p", "li", "a"] := by decide +kernel
  obtain ⟨tree, parsed, names⟩ := parseHtml_of_map known
  refine ⟨tree, parsed, names, render_normalForm parsed ?_ "u" 0⟩
  rw [names]
  simp [misreadNames]
  decide

end LocatedHtml
