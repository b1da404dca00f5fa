import LocatedHtml.Markup.Construction
import Mathlib.Data.List.Chain

/-!
What the steps of a construction leave unchanged: the sections that no content is put in, the names of
the elements that stay open, and everything else that is not content.
-/

namespace LocatedHtml

theorem isVoid_structural {name : String} (structural : name ∈ structuralNames) :
    isVoid name = false ∧ isRawText name = false := by
  rcases mem_structuralNames.1 structural with rfl | rfl | rfl <;> decide

theorem ordinary_of_isRawText {name : String} (raw : isRawText name = true) : name ∉ structuralNames := by
  intro structural
  rw [(isVoid_structural structural).2] at raw
  cases raw

theorem Location.opening_withEndTag (endTag : Extent) (location : Location) :
    (location.withEndTag endTag).opening = location.opening := by
  cases location <;> rfl

/-- No two texts stand next to each other. -/
def TextsApart (ts : List HtmlTree) : Prop :=
  ts.IsChain fun t u => t.value.content.isText = false ∨ u.value.content.isText = false

namespace Construction

/-- The content that stands directly in a stage's part of the document. -/
def content (s : Construction) : Stage → List HtmlTree
  | .beforeHtml => s.prolog
  | .beforeHead => s.beforeHead
  | .inHead => s.inHead
  | .afterHead => s.afterHead
  | .inBody => s.inBody
  | .afterBody => s.afterBody
  | .afterHtml => s.epilog

/-- The value of the text that is open. -/
def pending (openText : Option OpenText) : Text := (openText.map (·.value)).getD []

/-- The names of the open elements, innermost first. -/
def names (s : Construction) : List String := s.opened.map (·.name)

variable {s : Construction} {e : OpenElement} {outer : List OpenElement}

theorem append_inside (inside : s.opened = e :: outer) (t : HtmlTree) :
    s.append t = { s with opened := { e with children := e.children ++ [t] } :: outer } := by
  simp only [append, inside]

theorem content_append (settled : s.opened = []) (t : HtmlTree) (stage : Stage) :
    (s.append t).content stage = if stage = s.stage then s.content stage ++ [t] else s.content stage := by
  cases current : s.stage <;> cases stage <;> simp only [append, settled, current, content] <;> rfl

theorem content_append_inside (inside : s.opened ≠ []) (t : HtmlTree) (stage : Stage) :
    (s.append t).content stage = s.content stage := by
  cases opened : s.opened with
  | nil => exact absurd opened inside
  | cons e outer =>
    rw [append_inside opened]
    cases stage <;> rfl

/-- What a construction has besides content, open elements and open text. -/
structure Frame where
  stage : Stage
  html : Shell
  head : Shell
  body : Option Shell

def frame (s : Construction) : Frame := ⟨s.stage, s.html, s.head, s.body⟩

theorem append_frame (s : Construction) (t : HtmlTree) : (s.append t).frame = s.frame := by
  unfold append
  split
  · rfl
  · split <;> rfl

@[simp] theorem append_stage (s : Construction) (t : HtmlTree) : (s.append t).stage = s.stage :=
  congrArg Frame.stage (append_frame s t)

@[simp] theorem append_html (s : Construction) (t : HtmlTree) : (s.append t).html = s.html :=
  congrArg Frame.html (append_frame s t)

@[simp] theorem append_head (s : Construction) (t : HtmlTree) : (s.append t).head = s.head :=
  congrArg Frame.head (append_frame s t)

@[simp] theorem append_body (s : Construction) (t : HtmlTree) : (s.append t).body = s.body :=
  congrArg Frame.body (append_frame s t)

@[simp] theorem append_openText (s : Construction) (t : HtmlTree) :
    (s.append t).openText = s.openText := by
  unfold append
  split
  · rfl
  · split <;> rfl

@[simp] theorem append_names (s : Construction) (t : HtmlTree) : (s.append t).names = s.names := by
  unfold append names
  split
  · next inside => simp only [inside, List.map_cons]
  · split <;> rfl

theorem append_opened (settled : s.opened = []) (t : HtmlTree) : (s.append t).opened = [] := by
  cases current : s.stage <;> simp only [append, settled, current]

theorem opened_eq_nil_iff : s.opened = [] ↔ s.names = [] := by
  rw [names, List.map_eq_nil_iff]

theorem close_succ (inside : s.opened = e :: outer) (n : Nat) :
    s.close (n + 1) = (append { s with opened := outer } e.toTree).close n := by
  rw [close, inside]

theorem close_settled (settled : s.opened = []) (n : Nat) : s.close n = s := by
  cases n with
  | zero => rfl
  | succ n => rw [close, settled]

/-- A fact that holds after every append and however many elements are open holds after closing. -/
theorem close_induction {motive : Construction → Prop}
    (outward : ∀ s e outer, s.opened = e :: outer → motive s →
      motive (append { s with opened := outer } e.toTree))
    (n : Nat) (start : motive s) : motive (s.close n) := by
  induction n generalizing s with
  | zero => exact start
  | succ n ih =>
    cases opened : s.opened with
    | nil => rwa [close_settled opened]
    | cons e outer =>
      rw [close_succ opened]
      exact ih (outward s e outer opened start)

theorem close_frame (s : Construction) (n : Nat) : (s.close n).frame = s.frame := by
  apply close_induction (motive := fun r => r.frame = s.frame)
  · intro r e outer _ same
    rw [append_frame, ← same]
    rfl
  · rfl

@[simp] theorem close_stage (s : Construction) (n : Nat) : (s.close n).stage = s.stage :=
  congrArg Frame.stage (close_frame s n)

@[simp] theorem close_html (s : Construction) (n : Nat) : (s.close n).html = s.html :=
  congrArg Frame.html (close_frame s n)

@[simp] theorem close_head (s : Construction) (n : Nat) : (s.close n).head = s.head :=
  congrArg Frame.head (close_frame s n)

@[simp] theorem close_body (s : Construction) (n : Nat) : (s.close n).body = s.body :=
  congrArg Frame.body (close_frame s n)

@[simp] theorem close_openText (s : Construction) (n : Nat) : (s.close n).openText = s.openText := by
  apply close_induction (motive := fun r => r.openText = s.openText)
  · intro r e outer _ same
    rw [append_openText, ← same]
  · rfl

@[simp] theorem close_names (s : Construction) (n : Nat) : (s.close n).names = s.names.drop n := by
  induction n generalizing s with
  | zero => rfl
  | succ n ih =>
    cases opened : s.opened with
    | nil => rw [close_settled opened, names, opened, List.map_nil, List.drop_nil]
    | cons e outer =>
      rw [close_succ opened, ih, append_names]
      simp only [names, opened, List.map_cons, List.drop_succ_cons]

theorem closeAll_opened (s : Construction) : s.closeAll.opened = [] := by
  rw [opened_eq_nil_iff, closeAll, close_names, names, ← List.length_map (f := (·.name)),
    List.drop_length]

theorem closeAll_settled (settled : s.opened = []) : s.closeAll = s := by
  rw [closeAll, close_settled settled]

theorem endText_frame (s : Construction) (stop : Nat) : (s.endText stop).frame = s.frame := by
  unfold endText
  split
  · rfl
  · rw [append_frame]
    rfl

@[simp] theorem endText_stage (s : Construction) (stop : Nat) : (s.endText stop).stage = s.stage :=
  congrArg Frame.stage (endText_frame s stop)

@[simp] theorem endText_html (s : Construction) (stop : Nat) : (s.endText stop).html = s.html :=
  congrArg Frame.html (endText_frame s stop)

@[simp] theorem endText_head (s : Construction) (stop : Nat) : (s.endText stop).head = s.head :=
  congrArg Frame.head (endText_frame s stop)

@[simp] theorem endText_body (s : Construction) (stop : Nat) : (s.endText stop).body = s.body :=
  congrArg Frame.body (endText_frame s stop)

@[simp] theorem endText_names (s : Construction) (stop : Nat) : (s.endText stop).names = s.names := by
  unfold endText
  split
  · rfl
  · rw [append_names]; rfl

@[simp] theorem endText_openText (s : Construction) (stop : Nat) : (s.endText stop).openText = none := by
  unfold endText
  split
  · assumption
  · rw [append_openText]

theorem endText_of_none (none : s.openText = none) (stop : Nat) : s.endText stop = s := by
  rw [endText, none]

/-- Between sections the head or the body is opened for an element, by its name. -/
def openSection (s : Construction) (name : String) : Construction :=
  if s.betweenSections then
    if headContentNames.contains name && s.allowsHead then s.openHead else s.openBody
  else s

/-- The construction that an ordinary element of the name is put into. -/
def placeFor (s : Construction) (offset : Nat) (name : String) : Construction :=
  ((s.endText offset).openSection name).closeBefore name

theorem addElement_eq (s : Construction) (offset : Nat) (e : OpenElement) (selfClosing : Bool) :
    s.addElement offset e selfClosing =
      if selfClosing || isVoid e.name then (s.placeFor offset e.name).append e.toTree
      else { s.placeFor offset e.name with opened := e :: (s.placeFor offset e.name).opened } := rfl

theorem addStartTag_ordinary {x : Lexeme} {name : String} (ordinary : name ∉ structuralNames)
    (attributes : List (String × Text)) (selfClosing : Bool) :
    s.addStartTag x name attributes selfClosing = s.addElement x.start.offset
      ⟨name, OrderedMap.insertAllNew [] attributes, startTagLocation x, []⟩ selfClosing := by
  unfold addStartTag
  split
  · exact absurd (by decide) ordinary
  · exact absurd (by decide) ordinary
  · exact absurd (by decide) ordinary
  · rfl

theorem addEndTag_ordinary {x : Lexeme} {name : String} (ordinary : name ∉ structuralNames) :
    s.addEndTag x name =
      s.endElement x.start.offset name (Extent.ofMark x.start x.stop.offset) := by
  unfold addEndTag
  split
  · exact absurd (by decide) ordinary
  · exact absurd (by decide) ordinary
  · exact absurd (by decide) ordinary
  · exact absurd (by decide) ordinary
  · exact absurd (by decide) ordinary
  · exact absurd (by decide) ordinary
  · exact absurd (by decide) ordinary
  · rfl

/-- An end tag of an ordinary element is ignored, or it ends the innermost element of its name. -/
theorem endElement_cases (s : Construction) (offset : Nat) (name : String) (endTag : Extent) :
    s.endElement offset name endTag = s ∨
      ∃ depth e outer, ((s.endText offset).close depth).opened = e :: outer ∧ e.name = name ∧
        s.names[depth]? = some name ∧
        s.endElement offset name endTag =
          append { (s.endText offset).close depth with opened := outer }
            { e with location := e.location.withEndTag endTag }.toTree := by
  unfold endElement
  cases found : s.opened.findIdx? (·.name == name) with
  | none => exact .inl rfl
  | some depth =>
    right
    obtain ⟨bound, same, _⟩ := List.findIdx?_eq_some_iff_getElem.1 found
    have here : s.names[depth]? = some name := by
      rw [names, List.getElem?_map, List.getElem?_eq_getElem bound, Option.map_some, eq_of_beq same]
    have left : ((s.endText offset).close depth).names = s.names.drop depth := by
      rw [close_names, endText_names]
    cases inside : ((s.endText offset).close depth).opened with
    | nil =>
      rw [names, inside, List.map_nil] at left
      rw [← Nat.add_zero depth, ← List.getElem?_drop, ← left] at here
      cases here
    | cons e outer =>
      refine ⟨depth, e, outer, inside, ?_, here, by simp only [inside]⟩
      rw [names, inside, List.map_cons] at left
      rw [← Nat.add_zero depth, ← List.getElem?_drop, ← left] at here
      simpa using here

theorem endElement_innermost (offset : Nat) (endTag : Extent)
    (inside : (s.endText offset).opened = e :: outer) :
    s.endElement offset e.name endTag = append { s.endText offset with opened := outer }
      { e with location := e.location.withEndTag endTag }.toTree := by
  have first : s.opened.findIdx? (·.name == e.name) = some 0 := by
    have same := endText_names s offset
    rw [names, names, inside] at same
    cases opened : s.opened with
    | nil =>
      rw [opened] at same
      cases same
    | cons d more =>
      rw [opened, List.map_cons, List.map_cons] at same
      injection same with same
      rw [List.findIdx?_cons, if_pos (beq_iff_eq.2 same.symm)]
  unfold endElement
  rw [first]
  dsimp only [close]
  rw [inside]

theorem add_endTag_innermost {y : Lexeme} (ended : y.token = .endTag e.name)
    (ordinary : e.name ∉ structuralNames) (inside : (s.endText y.start.offset).opened = e :: outer) :
    s.add y = append { s.endText y.start.offset with opened := outer }
      { e with location := e.location.withEndTag (.ofMark y.start y.stop.offset) }.toTree := by
  rw [add, ended]
  dsimp only
  rw [addEndTag_ordinary ordinary, endElement_innermost _ _ inside]

end Construction

end LocatedHtml
