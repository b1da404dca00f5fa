import LocatedHtml.Proofs.Construction.RawElements
import LocatedHtml.Proofs.Construction.Stages

/-!
What a construction amounts to as events, as long as it goes forward through the stages: each lexeme
that it takes only adds events at the end.
-/

namespace LocatedHtml

namespace Shell

/-- The start tag of a structural element, if it has one. -/
def starts (s : Shell) (name : String) : List Event :=
  if s.location.isSome then [.opening name s.attributes] else []

/-- The end tag of a structural element that has a start tag. -/
def ends (s : Shell) (name : String) : List Event :=
  if s.location.isSome then [.closing name] else []

theorem starts_none {s : Shell} (leftOut : s.location.isSome = false) (name : String) :
    s.starts name = [] := by
  rw [starts, leftOut]
  rfl

theorem ends_none {s : Shell} (leftOut : s.location.isSome = false) (name : String) :
    s.ends name = [] := by
  rw [ends, leftOut]
  rfl

end Shell

/-- The tags of elements that are still open, with what they hold. -/
def unclosed : List OpenElement → List Event
  | [] => []
  | e :: outer => unclosed outer ++ .opening e.name e.attributes :: e.children.flatMap Tree.events

namespace Construction

/-- The tag of a structural element in front of the content of a stage. -/
def edge (s : Construction) : Stage → List Event
  | .beforeHtml => []
  | .beforeHead => s.html.starts "html"
  | .inHead => s.head.starts "head"
  | .afterHead => s.head.ends "head"
  | .inBody => (s.body.getD {}).starts "body"
  | .afterBody => (s.body.getD {}).ends "body"
  | .afterHtml => s.html.ends "html"

/-- The events of a stage. -/
def sectionEvents (s : Construction) (stage : Stage) : List Event :=
  s.edge stage ++ (s.content stage).flatMap Tree.events

/-- All that has been taken, as events. -/
def emitted (s : Construction) : List Event :=
  s.stage.upTo.flatMap s.sectionEvents ++ unclosed s.opened ++ (pending s.openText).map Event.char

/-- There is nothing yet of what comes in later stages. -/
structure Fresh (s : Construction) : Prop where
  later : ∀ stage, s.stage.rank < stage.rank → s.content stage = []
  html : s.stage.rank < 1 → s.html.location.isSome = false
  head : s.stage.rank < 2 → s.head.location.isSome = false
  body : s.stage.rank < 4 → (s.body.getD {}).location.isSome = false
  staged : s.opened ≠ [] → s.stage.hasOpened

theorem fresh_initial : Fresh {} where
  later stage _ := by cases stage <;> rfl
  html _ := rfl
  head _ := rfl
  body _ := rfl
  staged inside := absurd rfl inside

variable {s : Construction}

theorem edge_congr {r : Construction} (same : r.frame = s.frame) : r.edge = s.edge := by
  have html := congrArg Frame.html same
  have head := congrArg Frame.head same
  have body := congrArg Frame.body same
  simp only [frame] at html head body
  funext stage
  cases stage <;> simp only [edge, html, head, body]

theorem Fresh.append (fresh : s.Fresh) (t : HtmlTree) : (s.append t).Fresh where
  later stage after := by
    rw [append_stage] at after
    rw [content_append_other (by rintro rfl; exact Nat.lt_irrefl _ after)]
    exact fresh.later stage after
  html := by rw [append_stage, append_html]; exact fresh.html
  head := by rw [append_stage, append_head]; exact fresh.head
  body := by rw [append_stage, append_body]; exact fresh.body
  staged inside := by
    rw [append_stage]
    apply fresh.staged
    rw [ne_eq, opened_eq_nil_iff, append_names, ← opened_eq_nil_iff] at inside
    exact inside

/-- A tree that is put in comes behind everything else. -/
theorem emitted_append (settled : s.openText = none) (t : HtmlTree) :
    (s.append t).emitted = s.emitted ++ t.events := by
  have edges := edge_congr (append_frame s t)
  have nothing : (pending (none : Option OpenText)).map Event.char = [] := rfl
  rw [emitted, emitted, append_openText, settled, nothing, List.append_nil, List.append_nil,
    append_stage]
  cases opened : s.opened with
  | nil =>
    rw [append_opened opened, unclosed, List.append_nil, List.append_nil, Stage.upTo_last,
      List.flatMap_append, List.flatMap_append]
    have earlier : (Stage.all.filter (·.rank < s.stage.rank)).flatMap (s.append t).sectionEvents =
        (Stage.all.filter (·.rank < s.stage.rank)).flatMap s.sectionEvents := by
      apply List.flatMap_congr
      intro stage member
      have before : stage.rank < s.stage.rank := by simpa using (List.mem_filter.1 member).2
      rw [sectionEvents, sectionEvents, edges, content_append_other]
      rintro rfl
      exact Nat.lt_irrefl _ before
    have last : (s.append t).sectionEvents s.stage = s.sectionEvents s.stage ++ t.events := by
      rw [sectionEvents, sectionEvents, edges, content_append opened, if_pos rfl, List.flatMap_append,
        List.flatMap_singleton, List.append_assoc]
    rw [earlier, List.flatMap_singleton, List.flatMap_singleton, last, List.append_assoc]
  | cons e outer =>
    have same : (s.append t).sectionEvents = s.sectionEvents := by
      funext stage
      rw [sectionEvents, sectionEvents, edges, content_append_inside (by rw [opened]; exact List.cons_ne_nil _ _)]
    rw [same, append_inside opened]
    simp only [unclosed, List.flatMap_append, List.flatMap_singleton, List.append_assoc,
      List.cons_append]

theorem Fresh.endText (fresh : s.Fresh) (stop : Nat) : (s.endText stop).Fresh := by
  unfold Construction.endText
  split
  · exact fresh
  · exact append (s := { s with openText := none })
      ⟨fresh.later, fresh.html, fresh.head, fresh.body, fresh.staged⟩ _

theorem emitted_endText (s : Construction) (stop : Nat) : (s.endText stop).emitted = s.emitted := by
  unfold endText
  split
  · rfl
  · next o openText =>
    rw [emitted_append rfl, emitted, emitted, openText, Tree.events_node]
    simp only [pending, Option.map_none, Option.getD_none, List.map_nil, List.append_nil,
      Option.map_some, Option.getD_some]
    rfl

/-- A construction that has gone on to a later stage with the same content. -/
structure Enters (s r : Construction) : Prop where
  settled : s.opened = [] ∧ s.openText = none
  content : r.content = s.content
  nothing : r.opened = [] ∧ r.openText = none
  forward : s.stage.rank < r.stage.rank
  edges : ∀ stage, stage.rank ≤ s.stage.rank → r.edge stage = s.edge stage

/-- Going on to a later stage adds the tags that come between. -/
theorem emitted_enters {r : Construction} (fresh : s.Fresh) (enters : Enters s r) :
    r.emitted = s.emitted ++ (s.stage.between r.stage).flatMap r.edge := by
  have earlier : s.stage.upTo.flatMap r.sectionEvents = s.stage.upTo.flatMap s.sectionEvents := by
    apply List.flatMap_congr
    intro stage member
    have before : stage.rank ≤ s.stage.rank := by simpa [Stage.upTo] using (List.mem_filter.1 member).2
    rw [sectionEvents, sectionEvents, enters.edges stage before, enters.content]
  have later : (s.stage.between r.stage).flatMap r.sectionEvents =
      (s.stage.between r.stage).flatMap r.edge := by
    apply List.flatMap_congr
    intro stage member
    have after := (List.mem_filter.1 member).2
    rw [Bool.and_eq_true, decide_eq_true_eq] at after
    rw [sectionEvents, enters.content, fresh.later stage after.1, List.flatMap_nil, List.append_nil]
  rw [emitted, emitted, enters.settled.1, enters.settled.2, enters.nothing.1, enters.nothing.2,
    Stage.upTo_between (Nat.le_of_lt enters.forward), List.flatMap_append, earlier, later]
  simp [unclosed, pending]

/-- What is left of freshness in a later stage. -/
theorem Enters.fresh {r : Construction} (enters : Enters s r) (fresh : s.Fresh)
    (html : r.stage.rank < 1 → r.html.location.isSome = false)
    (head : r.stage.rank < 2 → r.head.location.isSome = false)
    (body : r.stage.rank < 4 → (r.body.getD {}).location.isSome = false) : r.Fresh where
  later stage after := by
    rw [enters.content]
    exact fresh.later stage (Nat.lt_trans enters.forward after)
  html := html
  head := head
  body := body
  staged inside := absurd enters.nothing.1 inside

end Construction

end LocatedHtml
