import LocatedHtml.Proofs.Construction.Placement

/-!
How the stages of a construction follow one another, said once as an induction over what a lexeme can do
to content, open elements and stage, and what it means for the sections that come later.
-/

namespace LocatedHtml

/-- The place of a stage in the order of the document. -/
def Stage.rank : Stage → Nat
  | .beforeHtml => 0
  | .beforeHead => 1
  | .inHead => 2
  | .afterHead => 3
  | .inBody => 4
  | .afterBody => 5
  | .afterHtml => 6

/-- The stages in the order of the document. -/
def Stage.all : List Stage :=
  [.beforeHtml, .beforeHead, .inHead, .afterHead, .inBody, .afterBody, .afterHtml]

/-- The stages up to one. -/
def Stage.upTo (stage : Stage) : List Stage := Stage.all.filter (·.rank ≤ stage.rank)

/-- The stages behind one, up to another. -/
def Stage.between (first last : Stage) : List Stage :=
  Stage.all.filter fun stage => first.rank < stage.rank && stage.rank ≤ last.rank

theorem Stage.upTo_between {first last : Stage} (forward : first.rank ≤ last.rank) :
    last.upTo = first.upTo ++ first.between last := by
  cases first <;> cases last <;> revert forward <;> decide

theorem Stage.upTo_last (stage : Stage) :
    stage.upTo = Stage.all.filter (·.rank < stage.rank) ++ [stage] := by
  cases stage <;> rfl

theorem Stage.all_eq (stage : Stage) :
    Stage.all = stage.upTo ++ Stage.all.filter (stage.rank < ·.rank) := by
  cases stage <;> rfl

namespace Construction

/-- A construction without open elements may go on to a stage, with the body that it then has. The stages
go forward, and only the body can be entered again. -/
structure Advance (s : Construction) (stage : Stage) (body : Option Shell) : Prop where
  settled : s.opened = []
  forward : s.stage.rank < stage.rank ∨ stage = .inBody
  entered : stage = .inBody → body.isSome = true
  kept : stage ≠ .inBody → body.isSome = s.body.isSome
  left : stage = .afterBody → s.stage = .inBody

/-- What every part of a step preserves, whichever elements and text are open, every step preserves. -/
structure Stepwise (motive : Construction → Prop) : Prop where
  append : ∀ s t, motive s → motive (s.append t)
  opened : ∀ s opened, motive s → motive { s with opened := opened }
  openText : ∀ s openText, motive s → motive { s with openText := openText }
  shells : ∀ s html head body, body.isSome = s.body.isSome → motive s →
    motive { s with html := html, head := head, body := body }
  advance : ∀ s stage body, s.Advance stage body → motive s →
    motive { s with stage := stage, body := body }

variable {motive : Construction → Prop} {s : Construction}

namespace Stepwise

theorem close (steps : Stepwise motive) (n : Nat) (holds : motive s) : motive (s.close n) := by
  apply close_induction (motive := motive)
  · intro r e outer _ holds
    exact steps.append _ _ (steps.opened _ _ holds)
  · exact holds

theorem endText (steps : Stepwise motive) (stop : Nat) (holds : motive s) :
    motive (s.endText stop) := by
  unfold Construction.endText
  split
  · exact holds
  · exact steps.append _ _ (steps.openText _ _ holds)

theorem enter (steps : Stepwise motive) {stage : Stage} {body : Option Shell} (html head : Shell)
    (advance : s.closeAll.Advance stage body) (holds : motive s) :
    motive { s.enter stage with html := html, head := head, body := body } := by
  have entered := steps.advance _ stage body advance (steps.close s.opened.length holds)
  exact steps.shells { s.closeAll with stage := stage, body := body } html head body rfl entered

end Stepwise

theorem advance_forward {stage : Stage} (forward : s.stage.rank < stage.rank)
    (outside : stage ≠ .inBody) (left : stage = .afterBody → s.stage = .inBody)
    {body : Option Shell} (kept : body.isSome = s.body.isSome) : s.closeAll.Advance stage body where
  settled := closeAll_opened s
  forward := .inl (by rwa [closeAll, close_stage])
  entered inside := absurd inside outside
  kept _ := by rwa [closeAll, close_body]
  left here := by rw [closeAll, close_stage, left here]

theorem advance_inBody {body : Option Shell} (some : body.isSome = true) :
    s.closeAll.Advance .inBody body where
  settled := closeAll_opened s
  forward := .inr rfl
  entered _ := some
  kept outside := absurd rfl outside
  left here := by cases here

namespace Stepwise

theorem openHead (steps : Stepwise motive) (holds : motive s) : motive s.openHead := by
  unfold Construction.openHead
  split
  · next here =>
    exact steps.enter _ _ (advance_forward (by rw [here]; decide) (by decide) (by simp)
      (congrArg Option.isSome (close_body s _))) holds
  · next here =>
    exact steps.enter _ _ (advance_forward (by rw [here]; decide) (by decide) (by simp)
      (congrArg Option.isSome (close_body s _))) holds
  · exact holds

theorem openBody (steps : Stepwise motive) (holds : motive s) : motive s.openBody := by
  unfold Construction.openBody
  split
  · exact holds
  · exact steps.enter _ _ (advance_inBody rfl) holds

theorem placeFor (steps : Stepwise motive) (offset : Nat) (name : String) (holds : motive s) :
    motive (s.placeFor offset name) := by
  apply closeBefore_induction (motive := motive) (fun r n holds => steps.close n holds)
  unfold openSection
  split
  · split
    · exact steps.openHead (steps.endText offset holds)
    · exact steps.openBody (steps.endText offset holds)
  · exact steps.endText offset holds

/-- A stage that comes later is entered when open text has ended. -/
theorem enter_later (steps : Stepwise motive) (stop : Nat) {stage : Stage} {body : Option Shell}
    (html head : Shell) (forward : s.stage.rank < stage.rank) (outside : stage ≠ .inBody)
    (left : stage = .afterBody → s.stage = .inBody) (kept : body.isSome = s.body.isSome)
    (holds : motive s) :
    motive { (s.endText stop).enter stage with html := html, head := head, body := body } := by
  apply steps.enter html head _ (steps.endText stop holds)
  apply advance_forward _ outside
  · rwa [endText_stage]
  · rwa [endText_body]
  · rwa [endText_stage]

theorem addText (steps : Stepwise motive) (start : Mark) (value : Text) (holds : motive s) :
    motive (s.addText start value) := by
  unfold Construction.addText
  split
  · exact steps.openText _ _ (steps.openBody (steps.endText _ holds))
  · split
    · exact steps.openText _ _ holds
    · exact steps.openText _ _ holds

theorem addHtml (steps : Stepwise motive) (offset : Nat) (attributes : List (String × Text))
    (location : Location) (holds : motive s) : motive (s.addHtml offset attributes location) := by
  unfold Construction.addHtml
  split
  · next here =>
    apply steps.enter_later offset _ _ _ (by decide) (by simp) _ holds
    · rw [here]
      decide
    · rw [enter_body, endText_body]
  · exact steps.shells _ _ _ _ rfl holds

theorem addHead (steps : Stepwise motive) (offset : Nat) (attributes : List (String × Text))
    (location : Location) (holds : motive s) : motive (s.addHead offset attributes location) := by
  unfold Construction.addHead
  split
  · next here =>
    apply steps.enter_later offset _ _ _ (by decide) (by simp) _ holds
    · rw [here]
      decide
    · rw [enter_body, endText_body]
  · next here =>
    apply steps.enter_later offset _ _ _ (by decide) (by simp) _ holds
    · rw [here]
      decide
    · rw [enter_body, endText_body]
  · exact holds

theorem addBody (steps : Stepwise motive) (offset : Nat) (attributes : List (String × Text))
    (location : Location) (holds : motive s) : motive (s.addBody offset attributes location) := by
  unfold Construction.addBody
  split
  all_goals first
    | exact steps.enter _ _ (advance_inBody rfl) (steps.endText _ holds)
    | exact steps.shells _ _ _ _ (by rw [Option.isSome_map]) holds

theorem addElement (steps : Stepwise motive) (offset : Nat) (e : OpenElement) (selfClosing : Bool)
    (holds : motive s) : motive (s.addElement offset e selfClosing) := by
  rw [addElement_eq]
  have placed := steps.placeFor offset e.name holds
  split
  · exact steps.append _ _ placed
  · exact steps.opened _ _ placed

theorem addStartTag (steps : Stepwise motive) (x : Lexeme) (name : String)
    (attributes : List (String × Text)) (selfClosing : Bool) (holds : motive s) :
    motive (s.addStartTag x name attributes selfClosing) := by
  unfold Construction.addStartTag
  split
  · exact steps.addHtml _ _ _ holds
  · exact steps.addHead _ _ _ holds
  · exact steps.addBody _ _ _ holds
  · exact steps.addElement _ _ _ holds

theorem endElement (steps : Stepwise motive) (offset : Nat) (name : String) (endTag : Extent)
    (holds : motive s) : motive (s.endElement offset name endTag) := by
  rcases endElement_cases s offset name endTag with ignored | ⟨depth, e, outer, _, _, _, ended⟩
  · rw [ignored]
    exact holds
  · rw [ended]
    exact steps.append _ _ (steps.opened _ _ (steps.close depth (steps.endText _ holds)))

theorem addEndTag (steps : Stepwise motive) (x : Lexeme) (name : String) (holds : motive s) :
    motive (s.addEndTag x name) := by
  unfold Construction.addEndTag
  split
  · exact holds
  · exact holds
  · next before after =>
    apply steps.enter_later _ _ _ _ (by decide) (by simp) _ holds
    · cases here : s.stage <;> first | decide | exact absurd here after
    · rw [enter_body, endText_body]
  · next here =>
    apply steps.enter_later _ _ _ _ (by decide) (by simp) _ holds
    · rw [here]
      decide
    · rw [enter_body, endText_body]
  · exact holds
  · next here =>
    apply steps.enter_later _ _ _ _ (by decide) (fun _ => here) _ holds
    · rw [here]
      decide
    · rw [Option.isSome_map]
  · exact holds
  · exact steps.endElement _ _ _ holds

theorem add (steps : Stepwise motive) (x : Lexeme) (holds : motive s) : motive (s.add x) := by
  have leaf (start : Mark) (stop : Nat) (content : Content) : motive (s.addLeaf start stop content) :=
    steps.append _ _ (steps.endText _ holds)
  unfold Construction.add
  split
  · exact steps.addText _ _ holds
  · exact steps.addStartTag _ _ _ _ holds
  · exact steps.addEndTag _ _ holds
  · exact leaf _ _ _
  · exact leaf _ _ _
  · exact leaf _ _ _
  · exact holds

theorem run (steps : Stepwise motive) (xs : List Lexeme) (start : motive {}) :
    motive (xs.foldl Construction.add {}) := by
  generalize ({} : Construction) = s at start
  induction xs generalizing s with
  | nil => exact start
  | cons x xs ih => exact ih _ (steps.add x start)

end Stepwise

end Construction

end LocatedHtml
