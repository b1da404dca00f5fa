import LocatedHtml.Proofs.Construction.Finished
import LocatedHtml.Proofs.Rebuilding.Simulation

/-!
The events of every document are taken as they are: each section of it is read where the section stood,
or where it comes to stand when the structural elements around it have no tags.
-/

namespace LocatedHtml

open ClosingRule

namespace Control

variable {c d : Control} {name : String} {base : List String}

theorem reads_chars_of_steps {value : Text} (steps : ∀ ch ∈ value, Step c (.char ch) c) :
    Reads c (value.map .char) c := by
  induction value with
  | nil => exact .nil
  | cons ch value ih =>
    rw [List.forall_mem_cons] at steps
    exact .cons steps.1 (ih steps.2)

theorem between_push (inside : c.between = false) (name : String) :
    ({ c with names := name :: c.names } : Control).between = false := by
  obtain ⟨stage, html, head, body, names⟩ := c
  cases stage <;> first | rfl | cases inside

theorem fits_of_placed (bounded : IsBase base)
    (ordinary : ∀ outer ∈ c.names, outer ∉ structuralNames)
    (placed : ElementPlaced (c.names ++ base) name) : c.Fits name where
  ordinary := placed.ordinary
  rules rule applies :=
    (count_eq_zero_iff bounded (rulesFor_lawful name rule applies) ordinary).2
      (placed.allowed rule applies)

/-- An element is read where a section has been opened for it, if its content is read inside of it. -/
theorem reads_element {v : Node} {cs : List HtmlTree} {attributes : OrderedMap Text}
    (content : v.content = .element name attributes) (stays : v.isInjected true = false)
    (place : Section c name d) (fits : d.Fits name)
    (inner : Reads { d with names := name :: d.names } (cs.flatMap Tree.events)
      { d with names := name :: d.names }) : Reads c (Tree.node v cs).events d := by
  rw [Tree.events_node, content]
  dsimp only
  rw [stays, if_neg Bool.false_ne_true]
  cases void : isVoid name with
  | true => exact Step.reads (.single place fits void)
  | false =>
    rw [if_neg Bool.false_ne_true]
    cases raw : isRawText name with
    | true => exact Step.reads (.raw place fits raw)
    | false =>
      rw [if_neg Bool.false_ne_true]
      refine .cons (.opening place fits void) (inner.append ?_)
      exact Step.reads (.closing rfl fits.ordinary void raw)

/-- Inside of the body or of an element whatever may stand there is read in its place. -/
theorem reads_inside {t : HtmlTree} (bounded : IsBase base)
    (ordinary : ∀ outer ∈ c.names, outer ∉ structuralNames) (inside : c.between = false)
    (placed : Everywhere Placed (c.names ++ base) t) : Reads c t.events c := by
  induction t using Tree.induction generalizing c with
  | node v cs ih =>
    have top := placed.top
    have stays := Node.isInjected_of_located top.location_ne_none true
    unfold Placed at top
    dsimp only [Tree.value] at top stays
    cases content : v.content <;> rw [content] at top
    case document => exact top.elim
    case text value =>
      rw [Tree.events_node, content]
      exact reads_chars_of_steps fun ch _ => .char inside
    case comment value =>
      rw [Tree.events_node, content]
      exact Step.reads .comment
    case doctype value =>
      rw [Tree.events_node, content]
      exact Step.reads .doctype
    case element name attributes =>
      have fits := fits_of_placed bounded ordinary top.1
      apply reads_element content stays (.inside inside) fits
      apply Reads.flatMap
      intro child member
      apply ih child member
      · exact List.forall_mem_cons.2 ⟨fits.ordinary, ordinary⟩
      · exact between_push inside name
      · have below := placed.child child member
        rwa [Tree.value, content] at below

/-- Content directly in the document or in `html` is read wherever it comes. -/
theorem reads_outside {t : HtmlTree} {above : List String} (outside : OutsideBody above)
    (headless : above.head? ≠ some "head") (placed : Placed above t) : Reads c t.events c := by
  obtain ⟨v, cs⟩ := t
  unfold Placed at placed
  dsimp only [Tree.value] at placed
  rw [Tree.events_node]
  cases content : v.content <;> rw [content] at placed
  case document => exact placed.elim
  case element => exact absurd (placed.1.outside outside).1 headless
  case text value =>
    have blank := placed.1 outside
    rw [Text.allBlank, Bool.and_eq_true, List.all_eq_true] at blank
    exact reads_chars_of_steps fun ch member => .blank (blank.2 ch member)
  case comment => exact Step.reads .comment
  case doctype => exact Step.reads .doctype

theorem reads_section_element {v : Node} {cs : List HtmlTree} {attributes : OrderedMap Text}
    (bounded : IsBase base) (content : v.content = .element name attributes)
    (placed : Everywhere Placed base (.node v cs)) (place : Section c name d) (settled : d.names = [])
    (staged : d.stage.hasOpened) : Reads c (Tree.node v cs).events d := by
  have top := placed.top
  have stays := Node.isInjected_of_located top.location_ne_none true
  unfold Placed at top
  rw [Tree.value, content] at top
  have ordinary : ∀ outer ∈ d.names, outer ∉ structuralNames := by simp [settled]
  have fits : d.Fits name := by
    apply fits_of_placed bounded ordinary
    rw [settled]
    exact top.1
  apply reads_element content stays place fits
  apply Reads.flatMap
  intro child member
  apply reads_inside bounded
  · exact List.forall_mem_cons.2 ⟨fits.ordinary, ordinary⟩
  · rcases staged with here | here
    · simp [between, here]
    · simp [between, here]
  · have below := placed.child child member
    rw [Tree.value, content, Content.namesBelow_element] at below
    rw [settled]
    exact below

theorem reads_head {ts : List HtmlTree} (settled : c.names = []) (allows : c.AllowsHead)
    (placed : ∀ t ∈ ts, Everywhere Placed Stage.inHead.above t) :
    ∃ d, Reads c (ts.flatMap Tree.events) d ∧ (d = c ∨ d = { c with stage := .inHead }) := by
  induction ts generalizing c with
  | nil => exact ⟨c, .nil, .inl rfl⟩
  | cons t ts ih =>
    rw [List.forall_mem_cons] at placed
    have outside : OutsideBody Stage.inHead.above := by
      unfold OutsideBody
      decide
    have first : ∃ d, Reads c t.events d ∧ (d = c ∨ d = { c with stage := .inHead }) := by
      obtain ⟨v, cs⟩ := t
      have top := placed.1.top
      unfold Placed at top
      dsimp only [Tree.value] at top
      cases content : v.content <;> rw [content] at top
      case document => exact top.elim
      case element name attributes =>
        refine ⟨{ c with stage := .inHead }, ?_, .inr rfl⟩
        have own := (top.1.outside outside).2
        exact reads_section_element (isBase_above .inHead) content placed.1 (.head own allows) settled
          (.inl rfl)
      case text value =>
        have blank := top.1 outside
        rw [Text.allBlank, Bool.and_eq_true, List.all_eq_true] at blank
        rw [Tree.events_node, content]
        exact ⟨c, reads_chars_of_steps fun ch member => .blank (blank.2 ch member), .inl rfl⟩
      case comment =>
        rw [Tree.events_node, content]
        exact ⟨c, Step.reads .comment, .inl rfl⟩
      case doctype =>
        rw [Tree.events_node, content]
        exact ⟨c, Step.reads .doctype, .inl rfl⟩
    obtain ⟨d, reads, reached⟩ := first
    rw [List.flatMap_cons]
    rcases reached with rfl | rfl
    · obtain ⟨last, more, ends⟩ := ih settled allows placed.2
      exact ⟨last, reads.append more, ends⟩
    · obtain ⟨last, more, ends⟩ := ih (c := { c with stage := .inHead }) settled settled placed.2
      exact ⟨last, reads.append more, .inr (by rcases ends with rfl | rfl <;> rfl)⟩

/-- Everything before the body has been left that has a tag, and the body has no start tag yet. -/
structure BeforeBody (c : Control) : Prop where
  settled : c.names = []
  bodiless : c.body = false
  opens : c.OpensBody
  html : c.html = true → c.stage ≠ .beforeHtml
  head : c.head = true → c.stage = .afterHead

/-- The body has been left if it has a tag, and `html` has not. -/
structure AfterBody (c : Control) : Prop where
  settled : c.names = []
  open_ : c.stage ≠ .afterHtml
  html : c.html = true → c.stage ≠ .beforeHtml
  head : c.head = true → 3 ≤ c.stage.rank
  body : c.body = true → c.stage = .afterBody

/-- Nothing is open that has a tag. -/
structure Finished (c : Control) : Prop where
  settled : c.names = []
  html : c.html = true → c.stage = .afterHtml
  head : c.head = true → 3 ≤ c.stage.rank
  body : c.body = true → 5 ≤ c.stage.rank

/-- The body without a tag opens in front of the first content that cannot stand before it. -/
theorem BeforeBody.inBody (before : c.BeforeBody) : AfterBody { c with stage := .inBody } where
  settled := before.settled
  open_ := by simp
  html _ := by simp
  head _ := Nat.le_succ 3
  body started := by rw [before.bodiless] at started; cases started

theorem BeforeBody.afterBody (before : c.BeforeBody) : c.AfterBody where
  settled := before.settled
  open_ here := by
    have opens := before.opens
    rw [OpensBody, here] at opens
    exact opens
  html := before.html
  head started := by rw [before.head started]; decide
  body started := by rw [before.bodiless] at started; cases started

theorem BeforeBody.inHead (before : c.BeforeBody) (allows : c.AllowsHead) :
    BeforeBody { c with stage := .inHead } := by
  have headless : c.head = false := by
    rw [← Bool.not_eq_true]
    intro started
    rw [AllowsHead, before.head started] at allows
    exact allows
  refine ⟨before.settled, before.bodiless, ⟨headless, before.settled⟩, fun _ => by simp, ?_⟩
  intro started
  dsimp only at started
  rw [headless] at started
  cases started

/-- Content of a body without a tag is read in front of the body, in the head even, as long as it may
stand there, and then in the body. -/
theorem reads_body {ts : List HtmlTree} (reached : c.BeforeBody ∨ c.stage = .inBody ∧ c.AfterBody)
    (placed : ∀ t ∈ ts, Everywhere Placed Stage.inBody.above t) :
    ∃ d, Reads c (ts.flatMap Tree.events) d ∧ d.AfterBody ∧ d.html = c.html := by
  induction ts generalizing c with
  | nil =>
    refine ⟨c, .nil, ?_, rfl⟩
    rcases reached with before | ⟨_, after⟩
    · exact before.afterBody
    · exact after
  | cons t ts ih =>
    rw [List.forall_mem_cons] at placed
    rw [List.flatMap_cons]
    have first : ∃ d, Reads c t.events d ∧ (d.BeforeBody ∨ d.stage = .inBody ∧ d.AfterBody) ∧
        d.html = c.html := by
      rcases reached with before | ⟨here, after⟩
      · obtain ⟨v, cs⟩ := t
        have top := placed.1.top
        unfold Placed at top
        dsimp only [Tree.value] at top
        cases content : v.content <;> rw [content] at top
        case document => exact top.elim
        case element name attributes =>
          by_cases own : name ∈ headContentNames ∧ c.AllowsHead
          · refine ⟨{ c with stage := .inHead }, ?_, .inl (before.inHead own.2), rfl⟩
            exact reads_section_element (isBase_above .inBody) content placed.1 (.head own.1 own.2)
              before.settled (.inl rfl)
          · refine ⟨{ c with stage := .inBody }, ?_, .inr ⟨rfl, before.inBody⟩, rfl⟩
            have other : name ∉ headContentNames ∨ ¬c.AllowsHead := not_and_or.1 own
            exact reads_section_element (isBase_above .inBody) content placed.1
              (.body other before.opens) before.settled (.inr rfl)
        case text value =>
          rw [Tree.events_node, content]
          dsimp only
          obtain ⟨rest, whole, blank, stop⟩ := Text.exists_takeWhile isBlank value
          rw [whole, List.map_append]
          have skipped := reads_chars_of_steps (c := c) fun ch member => .blank (blank ch member)
          cases rest with
          | nil => exact ⟨c, by simpa using skipped, .inl before, rfl⟩
          | cons ch rest =>
            refine ⟨{ c with stage := .inBody }, skipped.append ?_, .inr ⟨rfl, before.inBody⟩, rfl⟩
            refine .cons (.first (stop ch rfl) before.opens) ?_
            exact reads_chars_of_steps fun ch _ => .char rfl
        case comment =>
          rw [Tree.events_node, content]
          exact ⟨c, Step.reads .comment, .inl before, rfl⟩
        case doctype =>
          rw [Tree.events_node, content]
          exact ⟨c, Step.reads .doctype, .inl before, rfl⟩
      · refine ⟨c, ?_, .inr ⟨here, after⟩, rfl⟩
        apply reads_inside (isBase_above .inBody)
        · simp [after.settled]
        · rw [between, here]
        · rw [after.settled]
          exact placed.1
    obtain ⟨d, reads, later, same⟩ := first
    obtain ⟨last, more, after, stays⟩ := ih later placed.2
    exact ⟨last, reads.append more, after, stays.trans same⟩

end Control

/-- The events of a structural element are those of its content between its tags, if it has any. -/
theorem Shell.events_toTree (s : Shell) (name : String) (structural : name ∈ structuralNames)
    (cs : List HtmlTree) :
    (s.toTree name cs).events = s.starts name ++ (cs.flatMap Tree.events ++ s.ends name) := by
  have kinds := isVoid_structural structural
  have injected : Node.isInjected ⟨.element name s.attributes, s.location⟩ true = s.location.isNone := by
    simp [Node.isInjected, Content.elementName?, structural]
  rw [toTree, Tree.events_node]
  dsimp only
  rw [injected, kinds.1, kinds.2, starts, ends]
  cases s.location with
  | none => exact (List.append_nil _).symm
  | some location => rfl

namespace Construction

open Control

variable {s : Construction} {c : Control} {es : List Event}

theorem events_toTree (s : Construction) :
    s.toTree.events = Stage.all.flatMap s.closeAll.sectionEvents := by
  have document (v : Node) (cs : List HtmlTree) (content : v.content = .document) :
      (Tree.node v cs).events = cs.flatMap Tree.events := by
    rw [Tree.events_node, content]
  have html : s.closeAll.html = s.html := close_html s _
  have head : s.closeAll.head = s.head := close_head s _
  have body : s.closeAll.body = s.body := close_body s _
  rw [toTree_eq, document _ _ rfl]
  simp only [Stage.all, List.flatMap_append, List.flatMap_cons, List.flatMap_nil, sectionEvents, html, head,
    body,
    Shell.events_toTree s.html "html" (by decide),
    Shell.events_toTree s.head "head" (by decide),
    Shell.events_toTree (s.body.getD {}) "body" (by decide), edge, List.append_assoc,
    List.append_nil, List.nil_append]

/-- Content outside of head and body is read wherever it comes. -/
theorem Sound.reads_outside (sound : s.Sound Placed) (stage : Stage) (outside : ¬stage.hasOpened)
    (c : Control) : Reads c ((s.content stage).flatMap Tree.events) c := by
  apply Reads.flatMap
  intro t member
  have apart : OutsideBody stage.above ∧ stage.above.head? ≠ some "head" := by
    unfold OutsideBody
    cases stage <;> simp [Stage.hasOpened, Stage.above] at outside ⊢
  exact Control.reads_outside apart.1 apart.2 (sound.content stage t member).top

theorem Sound.reads_front (sound : s.Sound Placed) :
    ∃ c, Reads (control {}) ([.beforeHtml, .beforeHead, .inHead, .afterHead].flatMap s.sectionEvents) c ∧
      c.BeforeBody ∧ c.html = s.html.location.isSome := by
  have outside := sound.reads_outside
  simp only [List.flatMap_cons, List.flatMap_nil, List.append_nil, sectionEvents, edge, List.nil_append]
  have html : ∃ c, Reads (control {}) (s.html.starts "html") c ∧ c.names = [] ∧ c.body = false ∧
      c.head = false ∧ (c.html = s.html.location.isSome ∧ (c.html = true → c.stage ≠ .beforeHtml)) ∧
        (c.stage = .beforeHtml ∨ c.stage = .beforeHead) := by
    unfold Shell.starts
    split
    · next located =>
      exact ⟨_, Step.reads (.html rfl), rfl, rfl, rfl, ⟨located.symm, by simp⟩, .inr rfl⟩
    · next leftOut =>
      refine ⟨_, .nil, rfl, rfl, rfl, ⟨?_, by rintro ⟨⟩⟩, .inl rfl⟩
      exact (Bool.eq_false_iff.2 leftOut).symm
  obtain ⟨c, opened, settled, bodiless, headless, ⟨flag, started⟩, here⟩ := html
  have head : ∃ d, Reads c (s.head.starts "head") d ∧ d.names = [] ∧ d.body = false ∧
      d.AllowsHead ∧ (d.html = c.html ∧ (d.html = true → d.stage ≠ .beforeHtml)) ∧
        (d.head = s.head.location.isSome ∧ (d.head = true → d.stage = .inHead)) := by
    unfold Shell.starts
    split
    · next located =>
      refine ⟨_, Step.reads (.head here), settled, bodiless, settled, ⟨rfl, by simp⟩, ?_⟩
      exact ⟨located.symm, fun _ => rfl⟩
    · next leftOut =>
      refine ⟨c, .nil, settled, bodiless, ?_, ⟨rfl, started⟩, ?_, ?_⟩
      · rcases here with here | here
        · simp [AllowsHead, here]
        · simp [AllowsHead, here]
      · rw [headless]
        exact (Bool.eq_false_iff.2 leftOut).symm
      · rw [headless]
        rintro ⟨⟩
  obtain ⟨d, inHead, settled, bodiless, allows, ⟨kept, started⟩, located, headed⟩ := head
  obtain ⟨e, content, reached⟩ := Control.reads_head settled allows (sound.content .inHead)
  have ends : ∃ f, Reads e (s.head.ends "head") f ∧ f.BeforeBody ∧ f.html = c.html := by
    have same : e.names = [] ∧ e.body = false ∧ e.AllowsHead ∧
        (e.html = c.html ∧ (e.html = true → e.stage ≠ .beforeHtml)) ∧
          (e.head = s.head.location.isSome ∧ (e.head = true → e.stage = .inHead)) := by
      rcases reached with rfl | rfl
      · exact ⟨settled, bodiless, allows, ⟨kept, started⟩, located, headed⟩
      · exact ⟨settled, bodiless, settled, ⟨kept, by simp⟩, located, fun _ => rfl⟩
    obtain ⟨settled, bodiless, allows, ⟨kept, started⟩, located, headed⟩ := same
    unfold Shell.ends
    split
    · next present =>
      rw [present] at located
      have here := headed located
      refine ⟨_, Step.reads (.headEnd settled located here), ?_, kept⟩
      exact ⟨settled, bodiless, trivial, by simp, fun _ => rfl⟩
    · next leftOut =>
      rw [Bool.eq_false_iff.2 leftOut] at located
      refine ⟨e, .nil, ⟨settled, bodiless, ?_, started, ?_⟩, kept⟩
      · unfold AllowsHead at allows
        unfold OpensBody
        split at allows
        · next here => rw [here]; trivial
        · next here => rw [here]; trivial
        · next here => rw [here]; exact ⟨located, settled⟩
        · exact allows.elim
      · rw [located]
        rintro ⟨⟩
  obtain ⟨f, left, before, same⟩ := ends
  refine ⟨f, ?_, before, same.trans flag⟩
  have prolog := outside .beforeHtml (by simp [Stage.hasOpened]) (control {})
  have inHtml := outside .beforeHead (by simp [Stage.hasOpened]) c
  have between := outside .afterHead (by simp [Stage.hasOpened]) f
  exact prolog.append ((opened.append inHtml).append ((inHead.append content).append
    (left.append between)))

theorem Sound.reads_body (sound : s.Sound Placed) (before : c.BeforeBody) :
    ∃ d, Reads c (s.sectionEvents .inBody ++ (s.body.getD {}).ends "body") d ∧ d.AfterBody ∧
      d.html = c.html := by
  rw [sectionEvents, edge]
  cases located : (s.body.getD {}).location.isSome with
  | false =>
    rw [Shell.starts_none located, Shell.ends_none located, List.nil_append, List.append_nil]
    exact Control.reads_body (.inl before) (sound.content .inBody)
  | true =>
    rw [Shell.starts, Shell.ends, located, if_pos rfl, if_pos rfl]
    have inside : Reads { c with stage := .inBody, body := true }
        ((s.content .inBody).flatMap Tree.events) { c with stage := .inBody, body := true } := by
      apply Reads.flatMap
      intro t member
      apply reads_inside (isBase_above .inBody)
      · simp [before.settled]
      · rfl
      · dsimp only
        rw [before.settled]
        exact sound.content .inBody t member
    refine ⟨{ c with stage := .afterBody, body := true }, ?_, ?_, rfl⟩
    · refine Reads.append (.cons (.body before.opens) inside) (Step.reads ?_)
      exact .bodyEnd before.settled rfl rfl
    · exact ⟨before.settled, by simp, fun _ => by simp, fun _ => Nat.le_add_left 3 2, fun _ => rfl⟩

/-- The events of every document are taken as they are. -/
theorem Sound.reads_toTree (sound : s.Sound Placed) :
    ∃ last, Reads (control {}) s.toTree.events last ∧ last.Finished := by
  have closed : s.closeAll.Sound Placed := sound.close s.opened.length
  obtain ⟨c, front, before, flag⟩ := closed.reads_front
  obtain ⟨d, body, after, kept⟩ := closed.reads_body before
  have behind := closed.reads_outside .afterBody (by simp [Stage.hasOpened]) d
  have ends : ∃ e, Reads d (s.closeAll.html.ends "html") e ∧ e.Finished := by
    have flag := kept.trans flag
    unfold Shell.ends
    split
    · next located =>
      rw [located] at flag
      have here : d.stage ≠ .beforeHtml ∧ d.stage ≠ .afterHtml := ⟨after.html flag, after.open_⟩
      have head (started : d.head = true) : d.stage ≠ .inHead := by
        intro inHead
        have past := after.head started
        rw [inHead] at past
        exact absurd past (by decide)
      have left (started : d.body = true) : d.stage ≠ .inBody := by
        rw [after.body started]
        decide
      refine ⟨_, Step.reads (.htmlEnd after.settled flag here head left), ?_⟩
      exact ⟨after.settled, fun _ => rfl, fun _ => Nat.le_add_left 3 3, fun _ => Nat.le_succ 5⟩
    · next leftOut =>
      rw [Bool.eq_false_iff.2 leftOut] at flag
      refine ⟨d, .nil, after.settled, ?_, after.head, ?_⟩
      · rw [flag]
        rintro ⟨⟩
      · intro started
        rw [after.body started]
        decide
  obtain ⟨e, left, finished⟩ := ends
  have epilog := closed.reads_outside .afterHtml (by simp [Stage.hasOpened]) e
  refine ⟨e, ?_, finished⟩
  rw [events_toTree]
  have whole : Stage.all.flatMap s.closeAll.sectionEvents =
      [.beforeHtml, .beforeHead, .inHead, .afterHead].flatMap s.closeAll.sectionEvents ++
        ((s.closeAll.sectionEvents .inBody ++ (s.closeAll.body.getD {}).ends "body") ++
          ((s.closeAll.content .afterBody).flatMap Tree.events ++ (s.closeAll.html.ends "html" ++
            (s.closeAll.content .afterHtml).flatMap Tree.events))) := by
    simp only [Stage.all, List.flatMap_cons, List.flatMap_nil, List.append_nil, List.append_assoc,
      sectionEvents, edge]
  rw [whole]
  exact front.append (body.append (behind.append (left.append epilog)))

/-- When nothing is open that has a tag, the document has the events that have been taken. -/
theorem Tracks.events_toTree (tracks : Tracks c es s) (ended : s.openText = none)
    (finished : c.Finished) : s.toTree.events = es := by
  have fresh := tracks.fresh
  obtain rfl := tracks.control
  have settled : s.opened = [] := opened_eq_nil_iff.2 finished.settled
  have behind : (Stage.all.filter (s.stage.rank < ·.rank)).flatMap s.sectionEvents = [] := by
    rw [List.flatMap_eq_nil_iff]
    intro stage member
    have later : s.stage.rank < stage.rank := by simpa using (List.mem_filter.1 member).2
    have leftOut {located : Bool} (late : located = true → stage.rank ≤ s.stage.rank) :
        located = false := by
      rw [← Bool.not_eq_true]
      exact fun present => absurd (late present) (Nat.not_le_of_lt later)
    have edgeless : s.edge stage = [] := by
      cases stage with
      | beforeHtml => rfl
      | beforeHead => exact Shell.starts_none (fresh.html later) _
      | inHead => exact Shell.starts_none (fresh.head later) _
      | afterHead => exact Shell.ends_none (leftOut finished.head) _
      | inBody => exact Shell.starts_none (fresh.body later) _
      | afterBody => exact Shell.ends_none (leftOut finished.body) _
      | afterHtml =>
        apply Shell.ends_none
        apply leftOut
        intro present
        have here : s.stage = .afterHtml := finished.html present
        rw [here]
    rw [sectionEvents, edgeless, fresh.later stage later]
    rfl
  rw [Construction.events_toTree, closeAll_settled settled, Stage.all_eq s.stage, List.flatMap_append,
    behind, List.append_nil]
  have emitted := tracks.emitted
  rw [Construction.emitted, settled, ended] at emitted
  simpa [unclosed, pending] using emitted

end Construction

end LocatedHtml
