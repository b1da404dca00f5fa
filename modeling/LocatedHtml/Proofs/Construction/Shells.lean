import LocatedHtml.Proofs.Construction.Placement

/-!
What is known of the structural elements: a fact that new attributes and end tags preserve holds of all
three when it holds of those that are left out and of those that a start tag brings.
-/

namespace LocatedHtml

/-- The structural element of a name, without its content. -/
def Shell.node (name : String) (shell : Shell) : Node :=
  ⟨.element name shell.attributes, shell.location⟩

/-- What an end tag leaves true of an element is true of a structural element when it is closed. -/
theorem Shell.close_node {p : Node → Prop} {name : String} {shell : Shell} {endTag : Extent}
    (holds : p (shell.node name))
    (ended : ∀ location, p ⟨.element name shell.attributes, some location⟩ →
      p ⟨.element name shell.attributes, some (location.withEndTag endTag)⟩) :
    p ((shell.close endTag).node name) := by
  unfold Shell.node at holds ⊢
  unfold Shell.close
  cases located : shell.location with
  | none =>
    rw [located] at holds
    exact holds
  | some location =>
    rw [located] at holds
    exact ended location holds

/-- A fact about structural elements that a lexeme brings or leaves. A repeated start tag adds attributes
unless it is one of the head. -/
structure ShellFact (q : String → Shell → Prop) (x : Lexeme) : Prop where
  more : ∀ name shell attributes selfClosing, x.token = .startTag name attributes selfClosing →
    name ≠ "head" → q name shell → q name (shell.addAttributes attributes)
  started : ∀ name attributes selfClosing, x.token = .startTag name attributes selfClosing →
    q name ⟨OrderedMap.insertAllNew [] attributes, some (Construction.startTagLocation x)⟩
  ended : ∀ name shell, x.token = .endTag name → q name shell →
    q name (shell.close (Extent.ofMark x.start x.stop.offset))

namespace Construction

/-- A fact holds of the structural elements; the body, if it is not there yet, is left out so far. -/
structure Shells (q : String → Shell → Prop) (frame : Frame) : Prop where
  html : q "html" frame.html
  head : q "head" frame.head
  body : q "body" (frame.body.getD {})

variable {q : String → Shell → Prop} {s : Construction} {x : Lexeme}

theorem shells_initial (leftOut : ∀ name, q name {}) : Shells q (frame {}) :=
  ⟨leftOut "html", leftOut "head", leftOut "body"⟩

namespace Shells

theorem close (shells : Shells q s.frame) (n : Nat) : Shells q (s.close n).frame := by
  rw [close_frame]
  exact shells

theorem endText (shells : Shells q s.frame) (stop : Nat) : Shells q (s.endText stop).frame := by
  rw [endText_frame]
  exact shells

theorem append (shells : Shells q s.frame) (t : HtmlTree) : Shells q (s.append t).frame := by
  rw [append_frame]
  exact shells

theorem enter (shells : Shells q s.frame) (stage : Stage) : Shells q (s.enter stage).frame :=
  have closed := shells.close s.opened.length
  ⟨closed.html, closed.head, closed.body⟩

theorem openHead (shells : Shells q s.frame) : Shells q s.openHead.frame := by
  unfold Construction.openHead
  split
  · exact shells.enter _
  · exact shells.enter _
  · exact shells

theorem openBody (shells : Shells q s.frame) : Shells q s.openBody.frame := by
  unfold Construction.openBody
  split
  · exact shells
  · exact ⟨(shells.enter .inBody).html, (shells.enter .inBody).head, shells.body⟩

theorem placeFor (shells : Shells q s.frame) (offset : Nat) (name : String) :
    Shells q (s.placeFor offset name).frame := by
  apply closeBefore_induction (motive := fun r => Shells q r.frame) fun r n shells => shells.close n
  unfold Construction.openSection
  split
  · split
    · exact (shells.endText offset).openHead
    · exact (shells.endText offset).openBody
  · exact shells.endText offset

theorem addText (shells : Shells q s.frame) (start : Mark) (value : Text) :
    Shells q (s.addText start value).frame := by
  unfold Construction.addText
  split
  · exact (shells.endText start.offset).openBody
  · split <;> exact shells

theorem addStartTag (shells : Shells q s.frame) (fact : ShellFact q x) {name : String}
    {attributes : List (String × Text)} {selfClosing : Bool}
    (token : x.token = .startTag name attributes selfClosing) :
    Shells q (s.addStartTag x name attributes selfClosing).frame := by
  have started := fact.started name attributes selfClosing token
  have entered (stage : Stage) := (shells.endText x.start.offset).enter stage
  unfold Construction.addStartTag
  split
  · unfold addHtml
    split
    · exact ⟨started, (entered .beforeHead).head, (entered .beforeHead).body⟩
    · exact ⟨fact.more _ _ _ _ token (by decide) shells.html, shells.head, shells.body⟩
  · unfold addHead
    split
    · exact ⟨(entered .inHead).html, started, (entered .inHead).body⟩
    · exact ⟨(entered .inHead).html, started, (entered .inHead).body⟩
    · exact shells
  · unfold addBody
    split
    case h_5 =>
      refine ⟨shells.html, shells.head, ?_⟩
      have body := shells.body
      change q "body" ((s.body.map (·.addAttributes attributes)).getD {})
      change q "body" (s.body.getD {}) at body
      cases present : s.body with
      | none =>
        rw [present] at body
        exact body
      | some shell =>
        rw [present] at body
        exact fact.more _ _ _ _ token (by decide) body
    all_goals exact ⟨(entered .inBody).html, (entered .inBody).head, started⟩
  · rw [addElement_eq]
    split
    · exact (shells.placeFor x.start.offset name).append _
    · exact shells.placeFor x.start.offset name

theorem endElement (shells : Shells q s.frame) (offset : Nat) (name : String) (endTag : Extent) :
    Shells q (s.endElement offset name endTag).frame := by
  rcases endElement_cases s offset name endTag with ignored | ⟨depth, e, outer, _, _, _, ended⟩
  · rw [ignored]
    exact shells
  · rw [ended]
    exact append (s := { (s.endText offset).close depth with opened := outer })
      ((shells.endText offset).close depth) _

theorem addEndTag (shells : Shells q s.frame) (fact : ShellFact q x) {name : String}
    (token : x.token = .endTag name) : Shells q (s.addEndTag x name).frame := by
  have ended := fact.ended name
  have entered (stage : Stage) := (shells.endText x.start.offset).enter stage
  unfold Construction.addEndTag
  split
  · exact shells
  · exact shells
  · exact ⟨ended _ token shells.html, (entered .afterHtml).head, (entered .afterHtml).body⟩
  · exact ⟨(entered .afterHead).html, ended _ token shells.head, (entered .afterHead).body⟩
  · exact shells
  · refine ⟨(entered .afterBody).html, (entered .afterBody).head, ?_⟩
    have body := shells.body
    change q "body" ((s.body.map (·.close (Extent.ofMark x.start x.stop.offset))).getD {})
    change q "body" (s.body.getD {}) at body
    cases present : s.body with
    | none =>
      rw [present] at body
      exact body
    | some shell =>
      rw [present] at body
      exact ended _ token body
  · exact shells
  · exact shells.endElement _ _ _

theorem add (shells : Shells q s.frame) (fact : ShellFact q x) : Shells q (s.add x).frame := by
  have leaf (start : Mark) (stop : Nat) (content : Content) :
      Shells q (s.addLeaf start stop content).frame := (shells.endText start.offset).append _
  unfold Construction.add
  split
  · exact shells.addText _ _
  · next token => exact shells.addStartTag fact token
  · next token => exact shells.addEndTag fact token
  · exact leaf _ _ _
  · exact leaf _ _ _
  · exact leaf _ _ _
  · exact shells

theorem run {xs : List Lexeme} (leftOut : ∀ name, q name {}) (fact : ∀ x ∈ xs, ShellFact q x) :
    Shells q (xs.foldl Construction.add {}).frame := by
  have start := shells_initial leftOut
  generalize ({} : Construction) = s at start
  induction xs generalizing s with
  | nil => exact start
  | cons x xs ih =>
    exact ih (fun y member => fact y (List.mem_cons_of_mem _ member)) (s := s.add x)
      (start.add (fact x List.mem_cons_self))

end Shells

end Construction

end LocatedHtml
