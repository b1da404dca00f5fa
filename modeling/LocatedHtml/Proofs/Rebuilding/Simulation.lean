import LocatedHtml.Proofs.Rebuilding.Sections
import LocatedHtml.Proofs.Written.Spelling

/-!
A construction follows the events that are spelled by its lexemes: each lexeme, and those of a raw text
element together, add the events that they spell and nothing else.
-/

namespace LocatedHtml

namespace Construction

variable {s : Construction} {c d last : Control} {es fs : List Event} {x y : Lexeme} {name : String}

namespace Tracks

theorem append (tracks : Tracks c es s) (closed : s.openText = none) (t : HtmlTree) :
    Tracks c (es ++ t.events) (s.append t) where
  fresh := tracks.fresh.append t
  control := by
    rw [← tracks.control, Construction.control, Construction.control, append_stage, append_html,
      append_head, append_body, append_names]
  emitted := by rw [emitted_append closed, tracks.emitted]

theorem withText (tracks : Tracks c es s) {openText : Option OpenText} {value : Text}
    (goesOn : pending openText = pending s.openText ++ value) :
    Tracks c (es ++ value.map Event.char) { s with openText := openText } where
  fresh := ⟨tracks.fresh.later, tracks.fresh.html, tracks.fresh.head, tracks.fresh.body,
    tracks.fresh.staged⟩
  control := tracks.control
  emitted := by
    rw [← tracks.emitted, Construction.emitted, Construction.emitted]
    dsimp only
    rw [goesOn, List.map_append, ← List.append_assoc]
    rfl

theorem placeFor (tracks : Tracks c es s) (place : Control.Section c name d) (fits : d.Fits name)
    (offset : Nat) :
    Tracks d es (s.placeFor offset name) ∧ (s.placeFor offset name).stage.hasOpened := by
  have ended := tracks.endText offset
  have closed := endText_openText s offset
  have between : (s.endText offset).betweenSections = c.between := by
    rw [betweenSections_eq, ended.control]
  have opened : Tracks d es ((s.endText offset).openSection name) ∧
      ((s.endText offset).openSection name).stage.hasOpened := by
    have stage : (s.endText offset).stage = c.stage := congrArg Control.stage ended.control
    have names : (s.endText offset).names = c.names := congrArg Control.names ended.control
    unfold Construction.openSection
    rw [between]
    cases place with
    | inside inside =>
      rw [inside, if_neg Bool.false_ne_true]
      refine ⟨ended, ?_⟩
      rw [← between, betweenSections] at inside
      cases here : (s.endText offset).stage
      case inHead => exact .inl rfl
      case inBody => exact .inr rfl
      all_goals
        rw [here] at inside
        cases inside
    | head own allows =>
      have open_ : (s.endText offset).allowsHead = true := by
        unfold Control.AllowsHead at allows
        unfold Construction.allowsHead
        rw [stage]
        cases here : c.stage <;> simp only [here] at allows ⊢
      rw [allows.between, if_pos rfl, List.contains_iff_mem.2 own, open_, Bool.and_self,
        if_pos rfl]
      have tracks := ended.openHead closed allows
      exact ⟨tracks, .inl (congrArg Control.stage tracks.control)⟩
    | body other opens =>
      have outside : (headContentNames.contains name && (s.endText offset).allowsHead) = false := by
        rw [← Bool.not_eq_true, Bool.and_eq_true, List.contains_iff_mem]
        rintro ⟨own, open_⟩
        rcases other with apart | apart
        · exact apart own
        · apply apart
          unfold Construction.allowsHead at open_
          unfold Control.AllowsHead
          have between := opens.between
          unfold Control.between at between
          rw [stage] at open_
          cases here : c.stage <;> rw [here] at between open_
          case beforeHtml | beforeHead => trivial
          case inHead => exact List.isEmpty_iff.1 between
          all_goals cases open_
      rw [opens.between, if_pos rfl, outside, if_neg Bool.false_ne_true]
      have tracks := ended.openBody closed opens
      exact ⟨tracks, .inr (congrArg Control.stage tracks.control)⟩
  have same : s.placeFor offset name = (s.endText offset).openSection name := by
    apply closeBefore_of_counts
    intro rule applies
    have names : ((s.endText offset).openSection name).names = d.names :=
      congrArg Control.names opened.1.control
    rw [names]
    exact fits.rules rule applies
  rw [same]
  exact opened

theorem events_element {e : OpenElement} (open_ : isVoid e.name = false)
    (cooked : isRawText e.name = false) :
    e.toTree.events = .opening e.name e.attributes ::
      (e.children.flatMap Tree.events ++ [.closing e.name]) := by
  unfold OpenElement.toTree
  rw [Tree.events_node]
  dsimp only
  have stays : Node.isInjected ⟨.element e.name e.attributes, some e.location⟩ true = false := rfl
  rw [stays, open_, cooked]
  rfl

theorem single (tracks : Tracks c es s) {attributes : OrderedMap Text}
    (token : x.token = .startTag name attributes false) (distinct : attributes.keys.Nodup)
    (place : Control.Section c name d) (fits : d.Fits name) (void : isVoid name = true) :
    Tracks d (es ++ [.single name attributes]) (s.add x) := by
  have there := (tracks.placeFor place fits x.start.offset).1.append (placeFor_openText s _ name)
    (OpenElement.toTree ⟨name, OrderedMap.insertAllNew [] attributes, startTagLocation x, []⟩)
  have same := OrderedMap.insertAllNew_nil distinct
  have events : (OpenElement.toTree
      ⟨name, OrderedMap.insertAllNew [] attributes, startTagLocation x, []⟩).events =
        [.single name attributes] := by
    unfold OpenElement.toTree
    rw [same, Tree.events_node]
    dsimp only
    rw [void]
    rfl
  rw [events] at there
  unfold Construction.add
  rw [token]
  dsimp only
  rw [addStartTag_ordinary fits.ordinary, addElement_eq]
  dsimp only
  rw [void, Bool.or_true, if_pos rfl]
  exact there

theorem opening (tracks : Tracks c es s) {attributes : OrderedMap Text}
    (token : x.token = .startTag name attributes false) (distinct : attributes.keys.Nodup)
    (place : Control.Section c name d) (fits : d.Fits name) (open_ : isVoid name = false) :
    Tracks { d with names := name :: d.names } (es ++ [.opening name attributes]) (s.add x) := by
  obtain ⟨there, staged⟩ := tracks.placeFor place fits x.start.offset
  have closed := placeFor_openText s x.start.offset name
  have same := OrderedMap.insertAllNew_nil distinct
  unfold Construction.add
  rw [token]
  dsimp only
  rw [addStartTag_ordinary fits.ordinary, addElement_eq]
  dsimp only
  rw [open_, Bool.or_false, if_neg Bool.false_ne_true, same]
  refine ⟨⟨there.fresh.later, there.fresh.html, there.fresh.head, there.fresh.body, fun _ => staged⟩,
    ?_, ?_⟩
  · rw [← there.control]
    rfl
  · have emitted := there.emitted
    rw [Construction.emitted, closed] at emitted
    rw [Construction.emitted]
    dsimp only
    rw [closed, ← emitted]
    simp only [unclosed, pending, Option.map_none, Option.getD_none, List.map_nil, List.append_nil,
      List.flatMap_nil, List.append_assoc]
    rfl

theorem raw (tracks : Tracks c es s) {attributes : OrderedMap Text} {value : Text}
    {texts : List Lexeme} (started : StartsRaw x name attributes) (distinct : attributes.keys.Nodup)
    (content : IsContent value texts) (ended : y.token = .endTag name)
    (place : Control.Section c name d) (fits : d.Fits name) :
    Tracks d (es ++ [.raw name attributes value]) ((x :: (texts ++ [y])).foldl add s) := by
  obtain ⟨there, staged⟩ := tracks.placeFor place fits x.start.offset
  obtain ⟨t, element, same⟩ := foldl_raw_closed staged started content ended
  have put := there.append (placeFor_openText s x.start.offset name) t
  have events : t.events = [.raw name attributes value] := by
    obtain ⟨v, cs⟩ := t
    have raw := started.raw
    have open_ := isVoid_of_isRawText raw
    have top : v.content = .element name (OrderedMap.insertAllNew [] attributes) := element.content
    have located : v.location.isSome = true := element.located
    have stays := Node.isInjected_of_located (Option.isSome_iff_ne_none.1 located) true
    have joined : Tree.joinedText cs = value := element.joined
    have same := OrderedMap.insertAllNew_nil distinct
    rw [Tree.events_node, top]
    dsimp only
    rw [stays, open_, raw, joined, same]
    rfl
  rw [same, ← events]
  exact put

theorem closing (tracks : Tracks c es s) (token : x.token = .endTag name) {outer : List String}
    (inside : c.names = name :: outer) (ordinary : name ∉ structuralNames)
    (open_ : isVoid name = false) (cooked : isRawText name = false) :
    Tracks { c with names := outer } (es ++ [.closing name]) (s.add x) := by
  have ended := tracks.endText x.start.offset
  have closed := endText_openText s x.start.offset
  have names : (s.endText x.start.offset).names = name :: outer := by
    rw [endText_names, ← inside, ← tracks.control]
    rfl
  obtain ⟨e, more, opened, rfl, above⟩ := List.map_eq_cons_iff.1 names
  rw [add_endTag_innermost token ordinary opened]
  have left : Tracks { c with names := outer }
      ((s.endText x.start.offset).stage.upTo.flatMap (s.endText x.start.offset).sectionEvents ++
        unclosed more) { s.endText x.start.offset with opened := more } := by
    refine ⟨⟨ended.fresh.later, ended.fresh.html, ended.fresh.head, ended.fresh.body, fun _ => ?_⟩,
      ?_, ?_⟩
    · apply ended.fresh.staged
      rw [opened]
      exact List.cons_ne_nil _ _
    · rw [← ended.control, ← above]
      rfl
    · rw [Construction.emitted]
      dsimp only
      rw [closed]
      exact List.append_nil _
  have put := left.append closed
    (OpenElement.toTree { e with location := e.location.withEndTag (.ofMark x.start x.stop.offset) })
  have emitted := ended.emitted
  rw [Construction.emitted, opened, closed, unclosed] at emitted
  rw [events_element (by exact open_) (by exact cooked)] at put
  have shape : es ++ [.closing e.name] = (s.endText x.start.offset).stage.upTo.flatMap
      (s.endText x.start.offset).sectionEvents ++ unclosed more ++
        .opening e.name e.attributes :: (e.children.flatMap Tree.events ++ [.closing e.name]) := by
    rw [← emitted]
    simp [pending]
  rw [shape]
  exact put

theorem leaf (tracks : Tracks c es s) (start : Mark) (stop : Nat) {content : Content} {e : Event}
    (events : ∀ location, Tree.events (.node ⟨content, location⟩ []) = [e]) :
    Tracks c (es ++ [e]) (s.addLeaf start stop content) := by
  have put := (tracks.endText start.offset).append (endText_openText s _)
    (.node ⟨content, some (.plain (.ofMark start stop))⟩ [])
  rwa [events] at put

theorem chars (tracks : Tracks c es s) {value : Text} (token : x.token = .text value)
    (nonempty : value ≠ [])
    (taken : d = c ∧ (c.between = false ∨ ∀ ch ∈ value, isBlank ch = true) ∨
      (∃ ch ∈ value, isBlank ch = false) ∧ c.OpensBody ∧ d = { c with stage := .inBody }) :
    Tracks d (es ++ value.map Event.char) (s.add x) := by
  have between : s.betweenSections = c.between := by rw [betweenSections_eq, tracks.control]
  unfold Construction.add
  rw [token]
  dsimp only
  unfold Construction.addText
  rcases taken with ⟨rfl, stays⟩ | ⟨⟨ch, member, dark⟩, opens, rfl⟩
  · have goesOn : (!value.allBlank && s.betweenSections) = false := by
      rcases stays with inside | blank
      · rw [between, inside, Bool.and_false]
      · have all : value.allBlank = true := by
          simp only [Text.allBlank, Bool.and_eq_true, Bool.not_eq_true', List.isEmpty_eq_false_iff,
            List.all_eq_true]
          exact ⟨nonempty, blank⟩
        rw [all]
        rfl
    rw [goesOn, if_neg Bool.false_ne_true]
    split
    · next o openText =>
      apply tracks.withText
      rw [openText]
      rfl
    · next openText =>
      apply tracks.withText
      rw [openText]
      rfl
  · have all : value.allBlank = false := by
      rw [← Bool.not_eq_true]
      intro all
      simp only [Text.allBlank, Bool.and_eq_true, List.all_eq_true] at all
      rw [all.2 ch member] at dark
      cases dark
    rw [all, between, opens.between, if_pos (by decide)]
    have opened := (tracks.endText x.start.offset).openBody (endText_openText s _) opens
    apply opened.withText
    rw [openBody_openText, endText_openText]
    rfl

theorem html (tracks : Tracks c es s) {attributes : OrderedMap Text}
    (token : x.token = .startTag "html" attributes false) (distinct : attributes.keys.Nodup)
    (here : c.stage = .beforeHtml) :
    Tracks { c with stage := .beforeHead, html := true } (es ++ [.opening "html" attributes])
      (s.add x) := by
  have same := OrderedMap.insertAllNew_nil distinct
  have entered := (tracks.endText x.start.offset).enter_html (endText_openText s _) here
    ⟨attributes, some (startTagLocation x)⟩
  have stage : s.stage = .beforeHtml := by rw [← here, ← tracks.control]; rfl
  unfold Construction.add
  rw [token]
  dsimp only
  rw [addStartTag, addHtml, stage, same]
  exact entered

theorem head (tracks : Tracks c es s) {attributes : OrderedMap Text}
    (token : x.token = .startTag "head" attributes false) (distinct : attributes.keys.Nodup)
    (here : c.stage = .beforeHtml ∨ c.stage = .beforeHead) :
    Tracks { c with stage := .inHead, head := true } (es ++ [.opening "head" attributes])
      (s.add x) := by
  have same := OrderedMap.insertAllNew_nil distinct
  have entered := (tracks.endText x.start.offset).enter_head (endText_openText s _) here
    ⟨attributes, some (startTagLocation x)⟩
  have stage : s.stage = c.stage := by rw [← tracks.control]; rfl
  unfold Construction.add
  rw [token]
  dsimp only
  rcases here with here | here
  · rw [addStartTag, addHead, stage, here, same]
    exact entered
  · rw [addStartTag, addHead, stage, here, same]
    exact entered

theorem body (tracks : Tracks c es s) {attributes : OrderedMap Text}
    (token : x.token = .startTag "body" attributes false) (distinct : attributes.keys.Nodup)
    (opens : c.OpensBody) :
    Tracks { c with stage := .inBody, body := true } (es ++ [.opening "body" attributes])
      (s.add x) := by
  have same := OrderedMap.insertAllNew_nil distinct
  have entered := (tracks.endText x.start.offset).enter_body (endText_openText s _) opens
    ⟨attributes, some (startTagLocation x)⟩
  have stage : s.stage = c.stage := by rw [← tracks.control]; rfl
  unfold Construction.add
  rw [token]
  dsimp only
  rw [addStartTag, addBody, stage, same]
  unfold Control.OpensBody at opens
  split at opens
  · next here =>
    rw [here]
    exact entered
  · next here =>
    rw [here]
    exact entered
  · next here =>
    rw [here]
    exact entered
  · next here =>
    rw [here]
    exact entered
  · exact opens.elim

theorem headEnd (tracks : Tracks c es s) (token : x.token = .endTag "head") (settled : c.names = [])
    (started : c.head = true) (here : c.stage = .inHead) :
    Tracks { c with stage := .afterHead } (es ++ [.closing "head"]) (s.add x) := by
  have left := (tracks.endText x.start.offset).leave_head (endText_openText s _) settled started here
    (Extent.ofMark x.start x.stop.offset)
  have stage : s.stage = .inHead := by rw [← here, ← tracks.control]; rfl
  rw [endText_head] at left
  unfold Construction.add
  rw [token]
  dsimp only
  rw [addEndTag]
  · exact left
  · exact stage

theorem bodyEnd (tracks : Tracks c es s) (token : x.token = .endTag "body") (settled : c.names = [])
    (started : c.body = true) (here : c.stage = .inBody) :
    Tracks { c with stage := .afterBody } (es ++ [.closing "body"]) (s.add x) := by
  have left := (tracks.endText x.start.offset).leave_body (endText_openText s _) settled started here
    (Extent.ofMark x.start x.stop.offset)
  have stage : s.stage = .inBody := by rw [← here, ← tracks.control]; rfl
  rw [endText_body] at left
  unfold Construction.add
  rw [token]
  dsimp only
  rw [addEndTag]
  · exact left
  · exact stage

theorem htmlEnd (tracks : Tracks c es s) (token : x.token = .endTag "html") (settled : c.names = [])
    (started : c.html = true) (here : c.stage ≠ .beforeHtml ∧ c.stage ≠ .afterHtml)
    (head : c.head = true → c.stage ≠ .inHead) (body : c.body = true → c.stage ≠ .inBody) :
    Tracks { c with stage := .afterHtml } (es ++ [.closing "html"]) (s.add x) := by
  have left := (tracks.endText x.start.offset).leave_html (endText_openText s _) settled started here
    head body (Extent.ofMark x.start x.stop.offset)
  have stage : s.stage = c.stage := by rw [← tracks.control]; rfl
  rw [← stage] at here
  rw [endText_html] at left
  unfold Construction.add
  rw [token]
  dsimp only
  unfold addEndTag
  split
  · next before => exact absurd before here.1
  · next after => exact absurd after here.2
  · exact left
  all_goals simp_all

/-- A construction follows the events that its lexemes spell. -/
theorem run {xs : List Lexeme} (spells : Spells fs (xs.map (·.token))) (tracks : Tracks c es s)
    (reads : Control.Reads c fs last) : Tracks last (es ++ fs) (xs.foldl Construction.add s) := by
  -- a lexeme is an event, but several characters are one lexeme and a raw text element has several
  generalize read : xs.map (·.token) = tokens at spells
  induction spells generalizing xs s c es with
  | nil =>
    rw [List.map_eq_nil_iff] at read
    cases reads
    rw [read, List.append_nil]
    exact tracks
  | @chars value fs tokens nonempty _ ih =>
    obtain ⟨x, xs, rfl, token, rest⟩ := List.map_eq_cons_iff.1 read
    rw [List.foldl_cons]
    obtain ⟨d, taken, more⟩ := Control.reads_chars reads
    rw [← List.append_assoc]
    exact ih (tracks.chars token nonempty taken) more rest
  | @opening name attributes fs tokens distinct _ ih =>
    obtain ⟨x, xs, rfl, token, rest⟩ := List.map_eq_cons_iff.1 read
    rw [List.foldl_cons]
    cases reads with
    | cons step more =>
      rw [List.append_cons]
      cases step with
      | opening place fits open_ => exact ih (tracks.opening token distinct place fits open_) more rest
      | html here => exact ih (tracks.html token distinct here) more rest
      | head here => exact ih (tracks.head token distinct here) more rest
      | body opens => exact ih (tracks.body token distinct opens) more rest
  | @single name attributes fs tokens distinct _ ih =>
    obtain ⟨x, xs, rfl, token, rest⟩ := List.map_eq_cons_iff.1 read
    rw [List.foldl_cons]
    cases reads with
    | cons step more =>
      rw [List.append_cons]
      cases step with
      | single place fits void => exact ih (tracks.single token distinct place fits void) more rest
  | @closing name fs tokens _ ih =>
    obtain ⟨x, xs, rfl, token, rest⟩ := List.map_eq_cons_iff.1 read
    rw [List.foldl_cons]
    cases reads with
    | cons step more =>
      rw [List.append_cons]
      cases step with
      | closing inside ordinary open_ cooked =>
        exact ih (tracks.closing token inside ordinary open_ cooked) more rest
      | htmlEnd settled started here head body =>
        exact ih (tracks.htmlEnd token settled started here head body) more rest
      | headEnd settled started here => exact ih (tracks.headEnd token settled started here) more rest
      | bodyEnd settled started here => exact ih (tracks.bodyEnd token settled started here) more rest
  | @raw name attributes values fs tokens writable _ _ ih =>
    obtain ⟨x, xs, rfl, token, behind⟩ := List.map_eq_cons_iff.1 read
    obtain ⟨texts, others, rfl, content, behind⟩ := List.map_eq_append_iff.1 behind
    obtain ⟨y, xs, rfl, ended, rest⟩ := List.map_eq_cons_iff.1 behind
    cases reads with
    | cons step more =>
      rw [List.append_cons]
      cases step with
      | raw place fits raw =>
        have started : StartsRaw x name attributes := ⟨token, raw, writable.named⟩
        have whole : x :: (texts ++ y :: xs) = (x :: (texts ++ [y])) ++ xs := by simp
        rw [whole, List.foldl_append]
        exact ih (tracks.raw started writable.distinct ⟨values, content, rfl⟩ ended place fits) more rest
  | @comment value fs tokens _ ih =>
    obtain ⟨x, xs, rfl, token, rest⟩ := List.map_eq_cons_iff.1 read
    rw [List.foldl_cons]
    cases reads with
    | cons step more =>
      rw [List.append_cons]
      cases step with
      | comment =>
        refine ih ?_ more rest
        unfold Construction.add
        rw [token]
        exact tracks.leaf _ _ fun location => Tree.events_node _ _
  | @doctype value fs tokens _ ih =>
    obtain ⟨x, xs, rfl, token, rest⟩ := List.map_eq_cons_iff.1 read
    rw [List.foldl_cons]
    cases reads with
    | cons step more =>
      rw [List.append_cons]
      cases step with
      | doctype =>
        refine ih ?_ more rest
        unfold Construction.add
        rw [token]
        exact tracks.leaf _ _ fun location => Tree.events_node _ _

end Tracks

end Construction

end LocatedHtml
