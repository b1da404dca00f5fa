import LocatedHtml.Proofs.ClosingRule
import LocatedHtml.Proofs.Rebuilding.Emitted

/-!
Which events a construction takes as they are: without closing, ignoring or moving anything. That depends
on no more than the stage, the tags of structural elements that have come, and the names of the open
elements.
-/

namespace LocatedHtml

open ClosingRule

/-- What decides how an event is taken. -/
structure Control where
  stage : Stage
  html : Bool
  head : Bool
  body : Bool
  names : List String

/-- What decides how a construction takes an event. -/
def Construction.control (s : Construction) : Control :=
  ⟨s.stage, s.html.location.isSome, s.head.location.isSome, (s.body.getD {}).location.isSome, s.names⟩

namespace Control

/-- Content would stand directly in the document, in `html` or in the head. -/
def between (c : Control) : Bool :=
  match c.stage with
  | .inBody => false
  | .inHead => c.names.isEmpty
  | _ => true

/-- The body can be opened without anything being closed that has a tag. -/
def OpensBody (c : Control) : Prop :=
  match c.stage with
  | .beforeHtml | .beforeHead | .afterHead => True
  | .inHead => c.head = false ∧ c.names = []
  | _ => False

/-- The head is open or can be opened, and nothing is open in it. -/
def AllowsHead (c : Control) : Prop :=
  match c.stage with
  | .beforeHtml | .beforeHead => True
  | .inHead => c.names = []
  | _ => False

/-- An element of the name goes into the place where content is put, or a section is opened for it. -/
inductive Section : Control → String → Control → Prop
  | inside {c : Control} {name : String} (inside : c.between = false) : Section c name c
  | head {c : Control} {name : String} (own : name ∈ headContentNames) (allows : c.AllowsHead) :
      Section c name { c with stage := .inHead }
  | body {c : Control} {name : String} (other : name ∉ headContentNames ∨ ¬c.AllowsHead)
      (opens : c.OpensBody) : Section c name { c with stage := .inBody }

/-- The start tag of an ordinary element of the name closes nothing. -/
structure Fits (c : Control) (name : String) : Prop where
  ordinary : name ∉ structuralNames
  rules : ∀ rule ∈ rulesFor name, rule.count c.names = 0

/-- How events are taken as they are. -/
inductive Step : Control → Event → Control → Prop
  | blank {c : Control} {ch : Char} (blank : isBlank ch = true) : Step c (.char ch) c
  | char {c : Control} {ch : Char} (inside : c.between = false) : Step c (.char ch) c
  | first {c : Control} {ch : Char} (dark : isBlank ch = false) (opens : c.OpensBody) :
      Step c (.char ch) { c with stage := .inBody }
  | comment {c : Control} {value : Text} : Step c (.comment value) c
  | doctype {c : Control} {value : Text} : Step c (.doctype value) c
  | single {c d : Control} {name : String} {attributes : OrderedMap Text}
      (place : Section c name d) (fits : d.Fits name) (void : isVoid name = true) :
      Step c (.single name attributes) d
  | raw {c d : Control} {name : String} {attributes : OrderedMap Text} {value : Text}
      (place : Section c name d) (fits : d.Fits name) (raw : isRawText name = true) :
      Step c (.raw name attributes value) d
  | opening {c d : Control} {name : String} {attributes : OrderedMap Text}
      (place : Section c name d) (fits : d.Fits name) (open_ : isVoid name = false) :
      Step c (.opening name attributes) { d with names := name :: d.names }
  | closing {c : Control} {name : String} {outer : List String} (inside : c.names = name :: outer)
      (ordinary : name ∉ structuralNames) (open_ : isVoid name = false) (cooked : isRawText name = false) :
      Step c (.closing name) { c with names := outer }
  | html {c : Control} {attributes : OrderedMap Text} (here : c.stage = .beforeHtml) :
      Step c (.opening "html" attributes) { c with stage := .beforeHead, html := true }
  | head {c : Control} {attributes : OrderedMap Text}
      (here : c.stage = .beforeHtml ∨ c.stage = .beforeHead) :
      Step c (.opening "head" attributes) { c with stage := .inHead, head := true }
  | body {c : Control} {attributes : OrderedMap Text} (opens : c.OpensBody) :
      Step c (.opening "body" attributes) { c with stage := .inBody, body := true }
  | htmlEnd {c : Control} (settled : c.names = []) (started : c.html = true)
      (here : c.stage ≠ .beforeHtml ∧ c.stage ≠ .afterHtml)
      (head : c.head = true → c.stage ≠ .inHead) (body : c.body = true → c.stage ≠ .inBody) :
      Step c (.closing "html") { c with stage := .afterHtml }
  | headEnd {c : Control} (settled : c.names = []) (started : c.head = true) (here : c.stage = .inHead) :
      Step c (.closing "head") { c with stage := .afterHead }
  | bodyEnd {c : Control} (settled : c.names = []) (started : c.body = true) (here : c.stage = .inBody) :
      Step c (.closing "body") { c with stage := .afterBody }

/-- A series of events that is taken as it is. -/
inductive Reads : Control → List Event → Control → Prop
  | nil {c : Control} : Reads c [] c
  | cons {c d last : Control} {e : Event} {es : List Event} (step : Step c e d) (more : Reads d es last) :
      Reads c (e :: es) last

variable {c d last : Control} {es fs : List Event}

theorem Step.reads {e : Event} (step : Step c e d) : Reads c [e] d := .cons step .nil

theorem Reads.append (first : Reads c es d) (second : Reads d fs last) : Reads c (es ++ fs) last := by
  induction first with
  | nil => exact second
  | cons step _ ih => exact .cons step (ih second)

/-- What is known of reading the events of each part is known of reading them all. -/
theorem Reads.flatMap {α : Type} {l : List α} {f : α → List Event} (each : ∀ a ∈ l, Reads c (f a) c) :
    Reads c (l.flatMap f) c := by
  induction l with
  | nil => exact .nil
  | cons a l ih =>
    rw [List.forall_mem_cons] at each
    rw [List.flatMap_cons]
    exact each.1.append (ih each.2)

theorem OpensBody.between (opens : c.OpensBody) : c.between = true := by
  unfold OpensBody at opens
  unfold Control.between
  split at opens
  · next here => rw [here]
  · next here => rw [here]
  · next here => rw [here]
  · next here =>
    rw [here, opens.2]
    rfl
  · exact opens.elim

theorem AllowsHead.between (allows : c.AllowsHead) : c.between = true := by
  unfold AllowsHead at allows
  unfold Control.between
  split at allows
  · next here => rw [here]
  · next here => rw [here]
  · next here =>
    rw [here, allows]
    rfl
  · exact allows.elim

/-- Characters are taken together: where the body has to be opened for them, all of them go into it. -/
theorem reads_chars {value : Text} (reads : Reads c (value.map Event.char ++ es) last) :
    (∃ d, (d = c ∧ (c.between = false ∨ ∀ ch ∈ value, isBlank ch = true) ∨
      (∃ ch ∈ value, isBlank ch = false) ∧ c.OpensBody ∧ d = { c with stage := .inBody }) ∧
        Reads d es last) := by
  induction value generalizing c with
  | nil => exact ⟨c, .inl ⟨rfl, .inr (by simp)⟩, reads⟩
  | cons ch value ih =>
    rw [List.map_cons, List.cons_append] at reads
    cases reads with
    | cons step more =>
      cases step with
      | blank blank =>
        obtain ⟨d, cases_, rest⟩ := ih more
        refine ⟨d, ?_, rest⟩
        rcases cases_ with ⟨same, inside | blanks⟩ | ⟨⟨other, member, dark⟩, opens, same⟩
        · exact .inl ⟨same, .inl inside⟩
        · refine .inl ⟨same, .inr ?_⟩
          rw [List.forall_mem_cons]
          exact ⟨blank, blanks⟩
        · exact .inr ⟨⟨other, List.mem_cons_of_mem _ member, dark⟩, opens, same⟩
      | char inside =>
        obtain ⟨d, cases_, rest⟩ := ih more
        refine ⟨d, .inl ⟨?_, .inl inside⟩, rest⟩
        rcases cases_ with ⟨same, _⟩ | ⟨_, opens, _⟩
        · exact same
        · rw [opens.between] at inside
          cases inside
      | first dark opens =>
        obtain ⟨d, cases_, rest⟩ := ih more
        refine ⟨d, .inr ⟨⟨ch, List.mem_cons_self, dark⟩, opens, ?_⟩, rest⟩
        rcases cases_ with ⟨same, _⟩ | ⟨_, again, _⟩
        · exact same
        · exact again.elim

end Control

end LocatedHtml
