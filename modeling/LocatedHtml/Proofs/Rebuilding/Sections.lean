import LocatedHtml.Proofs.Rebuilding.Control

/-!
How a construction goes from section to section when it takes events as they are: the tags of structural
elements become events, and nothing else does.
-/

namespace LocatedHtml

open ClosingRule

namespace Shell

theorem starts_close (s : Shell) (endTag : Extent) (name : String) :
    (s.close endTag).starts name = s.starts name := by
  rw [starts, starts, close, Option.isSome_map]

theorem ends_close (s : Shell) (endTag : Extent) (name : String) :
    (s.close endTag).ends name = s.ends name := by
  rw [ends, ends, close, Option.isSome_map]

end Shell

namespace Construction

variable {s : Construction} {c : Control} {es : List Event}

/-- The construction has taken the events, going forward, and has come to the control. -/
structure Tracks (c : Control) (es : List Event) (s : Construction) : Prop where
  fresh : s.Fresh
  control : s.control = c
  emitted : s.emitted = es

theorem betweenSections_eq (s : Construction) : s.betweenSections = s.control.between := by
  have empty : s.opened.isEmpty = s.names.isEmpty := by rw [names, List.isEmpty_map]
  unfold betweenSections
  rw [empty]
  rfl

/-- Between sections no element is open. -/
theorem Fresh.settled (fresh : s.Fresh) (between : s.betweenSections = true) : s.opened = [] := by
  by_contra inside
  rcases fresh.staged inside with here | here
  · rw [betweenSections, here] at between
    exact inside (List.isEmpty_iff.1 between)
  · rw [betweenSections, here] at between
    cases between

theorem control_endText (s : Construction) (stop : Nat) : (s.endText stop).control = s.control := by
  rw [control, control, endText_stage, endText_html, endText_head, endText_body, endText_names]

theorem Tracks.endText (tracks : Tracks c es s) (stop : Nat) : Tracks c es (s.endText stop) where
  fresh := tracks.fresh.endText stop
  control := (control_endText s stop).trans tracks.control
  emitted := (emitted_endText s stop).trans tracks.emitted

/-- Entering a later stage when nothing is open. -/
theorem Tracks.enter (tracks : Tracks c es s) (stage : Stage) (settled : s.opened = [])
    (closed : s.openText = none) (html head : Shell) (body : Option Shell) (forward : s.stage.rank < stage.rank)
    (edges : ∀ earlier, earlier.rank ≤ s.stage.rank →
      edge { s with html := html, head := head, body := body } earlier = s.edge earlier)
    (fresh : (stage.rank < 1 → html.location.isSome = false) ∧
      (stage.rank < 2 → head.location.isSome = false) ∧
      (stage.rank < 4 → (body.getD {}).location.isSome = false)) :
    Tracks ⟨stage, html.location.isSome, head.location.isSome, (body.getD {}).location.isSome, []⟩
      (es ++ (s.stage.between stage).flatMap
        (edge { s with html := html, head := head, body := body }))
      { s.enter stage with html := html, head := head, body := body } := by
  have same : s.enter stage = { s with stage := stage } := by
    rw [Construction.enter, closeAll_settled settled]
  rw [same]
  have enters : Enters s { s with stage := stage, html := html, head := head, body := body } := by
    refine ⟨⟨settled, closed⟩, ?_, ⟨settled, closed⟩, forward, fun earlier before => ?_⟩
    · funext stage
      cases stage <;> rfl
    · rw [← edges earlier before]
      cases earlier <;> rfl
  refine ⟨enters.fresh tracks.fresh fresh.1 fresh.2.1 fresh.2.2, ?_, ?_⟩
  · simp only [Construction.control, Construction.names, settled, List.map_nil]
  · rw [emitted_enters tracks.fresh enters, tracks.emitted]
    rfl

/-- On the way to the body no tag of a structural element is passed over. -/
theorem Tracks.between_body (tracks : Tracks c es s) (opens : c.OpensBody) (body : Option Shell) :
    s.opened = [] ∧ s.stage.rank < Stage.inBody.rank ∧ c.body = false ∧
      (s.stage.between .inBody).flatMap (edge { s with body := body }) =
        (body.getD {}).starts "body" := by
  have fresh := tracks.fresh
  obtain rfl := tracks.control
  have settled : s.opened = [] := by
    apply fresh.settled
    rw [betweenSections_eq, opens.between]
  have stage : s.control.stage = s.stage := rfl
  unfold Control.OpensBody at opens
  rw [stage] at opens
  have html := fresh.html
  have head := fresh.head
  have nothing := fresh.body
  cases here : s.stage <;> rw [here] at opens html head nothing
  case beforeHtml =>
    refine ⟨settled, by decide, nothing (by decide), ?_⟩
    change s.html.starts "html" ++ (s.head.starts "head" ++ (s.head.ends "head" ++
      ((body.getD {}).starts "body" ++ []))) = _
    rw [Shell.starts_none (html (by decide)), Shell.starts_none (head (by decide)),
      Shell.ends_none (head (by decide)), List.append_nil]
    rfl
  case beforeHead =>
    refine ⟨settled, by decide, nothing (by decide), ?_⟩
    change s.head.starts "head" ++ (s.head.ends "head" ++ ((body.getD {}).starts "body" ++ [])) = _
    rw [Shell.starts_none (head (by decide)), Shell.ends_none (head (by decide)), List.append_nil]
    rfl
  case inHead =>
    refine ⟨settled, by decide, nothing (by decide), ?_⟩
    change s.head.ends "head" ++ ((body.getD {}).starts "body" ++ []) = _
    rw [Shell.ends_none opens.1, List.append_nil]
    rfl
  case afterHead =>
    refine ⟨settled, by decide, nothing (by decide), ?_⟩
    change (body.getD {}).starts "body" ++ [] = _
    rw [List.append_nil]
  all_goals exact opens.elim

/-- The body can be opened with the events that its own start tag brings. -/
theorem Tracks.enter_body (tracks : Tracks c es s) (closed : s.openText = none) (opens : c.OpensBody)
    (shell : Shell) :
    Tracks { c with stage := .inBody, body := shell.location.isSome } (es ++ shell.starts "body")
      { s.enter .inBody with body := some shell } := by
  obtain ⟨settled, forward, _, edges⟩ := tracks.between_body opens (some shell)
  have entered := tracks.enter .inBody settled closed s.html s.head (some shell) forward
    (by
      intro earlier before
      have apart : earlier ≠ .inBody ∧ earlier ≠ .afterBody := by
        constructor
        · rintro rfl
          omega
        · rintro rfl
          exact absurd (Nat.lt_of_le_of_lt before forward) (by decide)
      cases earlier <;> first | rfl | exact absurd rfl apart.1 | exact absurd rfl apart.2)
    ⟨fun early => absurd early (by decide), fun early => absurd early (by decide),
      fun early => absurd early (by decide)⟩
  change Tracks _ (es ++ (s.stage.between .inBody).flatMap (edge { s with body := some shell })) _
    at entered
  rw [edges] at entered
  have names : c.names = [] := by
    rw [← tracks.control]
    exact opened_eq_nil_iff.1 settled
  have html : c.html = s.html.location.isSome := by rw [← tracks.control]; rfl
  have head : c.head = s.head.location.isSome := by rw [← tracks.control]; rfl
  rw [html, head, names]
  have shells : s.enter .inBody = { s.enter .inBody with html := s.html, head := s.head } := by
    rw [Construction.enter, closeAll_settled settled]
  rw [shells]
  exact entered

theorem Tracks.openBody (tracks : Tracks c es s) (closed : s.openText = none) (opens : c.OpensBody) :
    Tracks { c with stage := .inBody } es s.openBody := by
  obtain ⟨_, forward, nothing, _⟩ := tracks.between_body opens none
  have leftOut : (s.body.getD {}).location.isSome = false := by
    rw [← nothing, ← tracks.control]
    rfl
  have entered := tracks.enter_body closed opens (s.body.getD {})
  rw [Shell.starts_none leftOut, List.append_nil, leftOut, ← nothing] at entered
  have same : s.openBody = { s.enter .inBody with body := some (s.body.getD {}) } := by
    unfold Construction.openBody
    split
    · next here =>
      rw [here] at forward
      exact absurd forward (Nat.lt_irrefl _)
    · rfl
  rw [same]
  exact entered

/-- On the way to the head no tag of a structural element is passed over. -/
theorem Tracks.enter_head (tracks : Tracks c es s) (closed : s.openText = none)
    (here : c.stage = .beforeHtml ∨ c.stage = .beforeHead) (shell : Shell) :
    Tracks { c with stage := .inHead, head := shell.location.isSome } (es ++ shell.starts "head")
      { s.enter .inHead with head := shell } := by
  have fresh := tracks.fresh
  obtain rfl := tracks.control
  have here : s.stage = .beforeHtml ∨ s.stage = .beforeHead := here
  have settled : s.opened = [] := by
    apply fresh.settled
    rcases here with here | here
    · rw [betweenSections, here]
    · rw [betweenSections, here]
  have forward : s.stage.rank < Stage.inHead.rank := by
    rcases here with here | here
    · rw [here]
      decide
    · rw [here]
      decide
  have entered := tracks.enter .inHead settled closed s.html shell s.body forward
    (by
      intro earlier before
      have bound := Nat.lt_of_le_of_lt before forward
      cases earlier <;> first | rfl | exact absurd bound (by decide))
    ⟨fun early => absurd early (by decide), fun early => absurd early (by decide), fun _ => by
      apply fresh.body
      exact Nat.lt_trans forward (by decide)⟩
  have edges : (s.stage.between .inHead).flatMap (edge { s with head := shell }) =
      shell.starts "head" := by
    rcases here with here | here
    · rw [here]
      change s.html.starts "html" ++ (shell.starts "head" ++ []) = _
      rw [Shell.starts_none (fresh.html (by rw [here]; decide)), List.append_nil]
      rfl
    · rw [here]
      exact List.append_nil _
  change Tracks _ (es ++ (s.stage.between .inHead).flatMap (edge { s with head := shell })) _ at entered
  rw [edges] at entered
  have names : s.control.names = [] := opened_eq_nil_iff.1 settled
  have shells : s.enter .inHead = { s.enter .inHead with html := s.html, body := s.body } := by
    rw [Construction.enter, closeAll_settled settled]
  rw [names, shells]
  exact entered

theorem Tracks.openHead (tracks : Tracks c es s) (closed : s.openText = none) (allows : c.AllowsHead) :
    Tracks { c with stage := .inHead } es s.openHead := by
  obtain rfl := tracks.control
  have early (here : s.stage = .beforeHtml ∨ s.stage = .beforeHead) :
      Tracks { s.control with stage := .inHead } es (s.enter .inHead) := by
    have leftOut : s.head.location.isSome = false := by
      apply tracks.fresh.head
      rcases here with here | here
      · rw [here]
        decide
      · rw [here]
        decide
    have entered := tracks.enter_head closed here s.head
    rw [Shell.starts_none leftOut, List.append_nil] at entered
    have shells : s.enter .inHead = { s.enter .inHead with head := s.head } := by
      rw [Construction.enter]
      dsimp only
      rw [closeAll, close_head]
    rw [shells]
    exact entered
  have stage : s.control.stage = s.stage := rfl
  unfold Control.AllowsHead at allows
  rw [stage] at allows
  unfold Construction.openHead
  cases here : s.stage <;> rw [here] at allows
  case beforeHtml => exact early (.inl here)
  case beforeHead => exact early (.inr here)
  case inHead =>
    have same : ({ s.control with stage := .inHead } : Control) = s.control := by
      rw [Construction.control, here]
    rw [same]
    exact tracks
  all_goals exact allows.elim

/-- The start tag of `html` comes before anything of it has been opened. -/
theorem Tracks.enter_html (tracks : Tracks c es s) (closed : s.openText = none)
    (here : c.stage = .beforeHtml) (shell : Shell) :
    Tracks { c with stage := .beforeHead, html := shell.location.isSome } (es ++ shell.starts "html")
      { s.enter .beforeHead with html := shell } := by
  have fresh := tracks.fresh
  obtain rfl := tracks.control
  have here : s.stage = .beforeHtml := here
  have settled : s.opened = [] := by
    apply fresh.settled
    rw [betweenSections, here]
  have entered := tracks.enter .beforeHead settled closed shell s.head s.body
    (by rw [here]; decide)
    (by
      intro earlier before
      rw [here] at before
      cases earlier <;> first | rfl | exact absurd before (by decide))
    ⟨fun early => absurd early (by decide), fun _ => fresh.head (by rw [here]; decide),
      fun _ => fresh.body (by rw [here]; decide)⟩
  have edges : (s.stage.between .beforeHead).flatMap (edge { s with html := shell }) =
      shell.starts "html" := by
    rw [here]
    exact List.append_nil _
  change Tracks _ (es ++ (s.stage.between .beforeHead).flatMap (edge { s with html := shell })) _
    at entered
  rw [edges] at entered
  have names : s.control.names = [] := opened_eq_nil_iff.1 settled
  have shells : s.enter .beforeHead = { s.enter .beforeHead with head := s.head, body := s.body } := by
    rw [Construction.enter, closeAll_settled settled]
  rw [names, shells]
  exact entered

theorem Tracks.leave_head (tracks : Tracks c es s) (closed : s.openText = none) (settled : c.names = [])
    (started : c.head = true) (here : c.stage = .inHead) (endTag : Extent) :
    Tracks { c with stage := .afterHead } (es ++ [.closing "head"])
      { s.enter .afterHead with head := s.head.close endTag } := by
  have fresh := tracks.fresh
  obtain rfl := tracks.control
  have here : s.stage = .inHead := here
  have started : s.head.location.isSome = true := started
  have nothing : s.opened = [] := opened_eq_nil_iff.2 settled
  have entered := tracks.enter .afterHead nothing closed s.html (s.head.close endTag) s.body
    (by rw [here]; decide)
    (by
      intro earlier before
      rw [here] at before
      cases earlier <;>
        first | rfl | exact Shell.starts_close _ _ _ | exact absurd before (by decide))
    ⟨fun early => absurd early (by decide), fun early => absurd early (by decide),
      fun _ => fresh.body (by rw [here]; decide)⟩
  have edges : (s.stage.between .afterHead).flatMap (edge { s with head := s.head.close endTag }) =
      [.closing "head"] := by
    rw [here]
    change (s.head.close endTag).ends "head" ++ [] = _
    rw [Shell.ends_close, Shell.ends, started]
    rfl
  change Tracks _ (es ++ (s.stage.between .afterHead).flatMap
    (edge { s with head := s.head.close endTag })) _ at entered
  rw [edges] at entered
  have same : (s.head.close endTag).location.isSome = s.head.location.isSome := Option.isSome_map
  have shells : s.enter .afterHead = { s.enter .afterHead with html := s.html, body := s.body } := by
    rw [Construction.enter, closeAll_settled nothing]
  rw [same, ← settled] at entered
  rw [shells]
  exact entered

theorem Tracks.leave_body (tracks : Tracks c es s) (closed : s.openText = none) (settled : c.names = [])
    (started : c.body = true) (here : c.stage = .inBody) (endTag : Extent) :
    Tracks { c with stage := .afterBody } (es ++ [.closing "body"])
      { s.enter .afterBody with body := s.body.map (·.close endTag) } := by
  obtain rfl := tracks.control
  have here : s.stage = .inBody := here
  have started : (s.body.getD {}).location.isSome = true := started
  have nothing : s.opened = [] := opened_eq_nil_iff.2 settled
  obtain ⟨shell, present⟩ : ∃ shell, s.body = some shell := by
    cases present : s.body with
    | none =>
      rw [present] at started
      cases started
    | some shell => exact ⟨shell, rfl⟩
  have body : s.body.map (·.close endTag) = some (shell.close endTag) := by rw [present]; rfl
  have whole : s.body.getD {} = shell := by rw [present]; rfl
  have entered := tracks.enter .afterBody nothing closed s.html s.head
    (some (shell.close endTag)) (by rw [here]; decide)
    (by
      intro earlier before
      rw [here] at before
      cases earlier
      case inBody =>
        change (shell.close endTag).starts "body" = (s.body.getD {}).starts "body"
        rw [whole, Shell.starts_close]
      all_goals first | rfl | exact absurd before (by decide))
    ⟨fun early => absurd early (by decide), fun early => absurd early (by decide),
      fun early => absurd early (by decide)⟩
  have edges : (s.stage.between .afterBody).flatMap
      (edge { s with body := some (shell.close endTag) }) = [.closing "body"] := by
    rw [here]
    change (shell.close endTag).ends "body" ++ [] = _
    rw [Shell.ends_close, Shell.ends, ← whole, started]
    rfl
  change Tracks _ (es ++ (s.stage.between .afterBody).flatMap
    (edge { s with body := some (shell.close endTag) })) _ at entered
  rw [edges] at entered
  have same : ((some (shell.close endTag)).getD {}).location.isSome =
      (s.body.getD {}).location.isSome := by
    rw [whole]
    exact Option.isSome_map
  have shells : s.enter .afterBody = { s.enter .afterBody with html := s.html, head := s.head } := by
    rw [Construction.enter, closeAll_settled nothing]
  rw [same, ← settled] at entered
  rw [body, shells]
  exact entered

/-- On the way behind `html` no tag but its end tag is passed over. -/
theorem Fresh.between_afterHtml (fresh : s.Fresh) (started : s.html.location.isSome = true)
    (here : s.stage ≠ .beforeHtml ∧ s.stage ≠ .afterHtml)
    (headless : s.head.location.isSome = false ∨ s.stage ≠ .inHead)
    (bodiless : (s.body.getD {}).location.isSome = false ∨ s.stage ≠ .inBody) (endTag : Extent) :
    (s.stage.between .afterHtml).flatMap (edge { s with html := s.html.close endTag }) =
      [.closing "html"] := by
  have last : (s.html.close endTag).ends "html" ++ [] = [.closing "html"] := by
    rw [Shell.ends_close, Shell.ends, started]
    rfl
  have noHead := fresh.head
  have noBody := fresh.body
  cases current : s.stage <;> rw [current] at noHead noBody headless bodiless here
  case beforeHtml => exact absurd rfl here.1
  case beforeHead =>
    change s.head.starts "head" ++ (s.head.ends "head" ++ ((s.body.getD {}).starts "body" ++
      ((s.body.getD {}).ends "body" ++ ((s.html.close endTag).ends "html" ++ [])))) = _
    rw [Shell.starts_none (noHead (by decide)), Shell.ends_none (noHead (by decide)),
      Shell.starts_none (noBody (by decide)), Shell.ends_none (noBody (by decide)), last]
    rfl
  case inHead =>
    change s.head.ends "head" ++ ((s.body.getD {}).starts "body" ++
      ((s.body.getD {}).ends "body" ++ ((s.html.close endTag).ends "html" ++ []))) = _
    rw [Shell.ends_none (headless.resolve_right (absurd rfl)), Shell.starts_none (noBody (by decide)),
      Shell.ends_none (noBody (by decide)), last]
    rfl
  case afterHead =>
    change (s.body.getD {}).starts "body" ++ ((s.body.getD {}).ends "body" ++
      ((s.html.close endTag).ends "html" ++ [])) = _
    rw [Shell.starts_none (noBody (by decide)), Shell.ends_none (noBody (by decide)), last]
    rfl
  case inBody =>
    change (s.body.getD {}).ends "body" ++ ((s.html.close endTag).ends "html" ++ []) = _
    rw [Shell.ends_none (bodiless.resolve_right (absurd rfl)), last]
    rfl
  case afterBody => exact last
  case afterHtml => exact absurd rfl here.2

/-- The end tag of an `html` that has a start tag, with nothing open in it that has one. -/
theorem Tracks.leave_html (tracks : Tracks c es s) (closed : s.openText = none) (settled : c.names = [])
    (started : c.html = true) (here : c.stage ≠ .beforeHtml ∧ c.stage ≠ .afterHtml)
    (head : c.head = true → c.stage ≠ .inHead) (body : c.body = true → c.stage ≠ .inBody)
    (endTag : Extent) :
    Tracks { c with stage := .afterHtml } (es ++ [.closing "html"])
      { s.enter .afterHtml with html := s.html.close endTag } := by
  have fresh := tracks.fresh
  obtain rfl := tracks.control
  have here : s.stage ≠ .beforeHtml ∧ s.stage ≠ .afterHtml := here
  have started : s.html.location.isSome = true := started
  have nothing : s.opened = [] := opened_eq_nil_iff.2 settled
  have forward : s.stage.rank < Stage.afterHtml.rank := by
    cases current : s.stage <;> first | decide | exact absurd current here.2
  have entered := tracks.enter .afterHtml nothing closed (s.html.close endTag) s.head s.body
    forward
    (by
      intro earlier before
      cases earlier <;>
        first
        | rfl
        | exact Shell.starts_close _ _ _
        | exact absurd (Nat.lt_of_le_of_lt before forward) (by decide))
    ⟨fun early => absurd early (by decide), fun early => absurd early (by decide),
      fun early => absurd early (by decide)⟩
  have headless : s.head.location.isSome = false ∨ s.stage ≠ .inHead := by
    cases present : s.head.location.isSome with
    | false => exact .inl rfl
    | true => exact .inr (head present)
  have bodiless : (s.body.getD {}).location.isSome = false ∨ s.stage ≠ .inBody := by
    cases present : (s.body.getD {}).location.isSome with
    | false => exact .inl rfl
    | true => exact .inr (body present)
  have edges := fresh.between_afterHtml started here headless bodiless endTag
  change Tracks _ (es ++ (s.stage.between .afterHtml).flatMap
    (edge { s with html := s.html.close endTag })) _ at entered
  rw [edges] at entered
  have same : (s.html.close endTag).location.isSome = s.html.location.isSome := Option.isSome_map
  have shells : s.enter .afterHtml = { s.enter .afterHtml with head := s.head, body := s.body } := by
    rw [Construction.enter, closeAll_settled nothing]
  rw [same, ← settled] at entered
  rw [shells]
  exact entered

end Construction

end LocatedHtml
