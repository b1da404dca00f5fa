import LocatedHtml.Proofs.ClosingRule
import LocatedHtml.Proofs.Construction.Soundness

/-!
Where the nodes of a construction stand, whatever lexemes have been added and in whichever order: the
closing rules let every element stand where it does, only the head's own elements are outside of the
body, and text outside of the body is blank.
-/

namespace LocatedHtml

open ClosingRule

/-- The nearest element above, if there is one, is `html` or the head. -/
def OutsideBody (above : List String) : Prop := ∀ name ∈ above.head?, name = "html" ∨ name = "head"

/-- An element of the name may stand below elements of the given names. -/
structure ElementPlaced (above : List String) (name : String) : Prop where
  ordinary : name ∉ structuralNames
  outside : OutsideBody above → above.head? = some "head" ∧ name ∈ headContentNames
  allowed : Allows name above

/-- A node may stand below elements of the given names, with the children and the kind of location
that it has. -/
def Placed (above : List String) (t : HtmlTree) : Prop :=
  match t.value.content with
  | .document => False
  | .element name _ =>
    ElementPlaced above name ∧ (isVoid name = true → t.children = []) ∧
      ∃ startTag endTag given, t.value.location = some (.element startTag endTag given)
  | .text value =>
    (OutsideBody above → value.allBlank = true) ∧ t.children = [] ∧
      ∃ extent, t.value.location = some (.plain extent)
  | .comment _ | .doctype _ => t.children = [] ∧ ∃ extent, t.value.location = some (.plain extent)

theorem Placed.location_ne_none {above : List String} {t : HtmlTree} (placed : Placed above t) :
    t.value.location ≠ none := by
  intro none
  unfold Placed at placed
  rw [none] at placed
  cases content : t.value.content <;> rw [content] at placed <;> simp at placed

/-- An element that is not void may stand where it does with whatever children. -/
theorem Placed.grows {above : List String} {e : OpenElement} (open_ : isVoid e.name = false)
    (placed : Placed above e.toTree) : Grows Placed above e := by
  intro more
  obtain ⟨elementPlaced, _, located⟩ := placed
  refine ⟨elementPlaced, ?_, located⟩
  intro void
  rw [open_] at void
  cases void

theorem isBase_above (stage : Stage) : IsBase stage.above := by
  unfold IsBase
  cases stage <;> decide

theorem OpenedSound.consistent {base : List String} {opened : List OpenElement}
    (sound : OpenedSound Placed base opened) : Consistent base (opened.map (·.name)) := by
  induction opened with
  | nil => trivial
  | cons e outer ih =>
    have placed := sound.1.top
    exact ⟨placed.1.allowed, placed.1.ordinary, ih sound.2.2⟩

/-- The outermost open element of the head is one of the head's own. -/
theorem OpenedSound.outermost {opened : List OpenElement} {name : String}
    (sound : OpenedSound Placed Stage.inHead.above opened)
    (last : (opened.map (·.name)).getLast? = some name) : name ∈ headContentNames := by
  induction opened with
  | nil => cases last
  | cons e outer ih =>
    cases outer with
    | nil =>
      have placed := sound.1.top
      have outside : OutsideBody ([] ++ Stage.inHead.above) := by unfold OutsideBody; decide
      cases last
      exact (placed.1.outside outside).2
    | cons next outer => exact ih sound.2.2 (by simpa only [List.map_cons, List.getLast?_cons_cons] using last)

namespace Construction

variable {s : Construction}

theorem closeBefore_induction {motive : Construction → Prop}
    (close : ∀ s n, motive s → motive (s.close n)) (name : String) (start : motive s) :
    motive (s.closeBefore name) := by
  unfold closeBefore
  generalize rulesFor name = rules
  induction rules generalizing s with
  | nil => exact start
  | cons rule rules ih => exact ih (close _ _ start)

@[simp] theorem closeBefore_stage (s : Construction) (name : String) :
    (s.closeBefore name).stage = s.stage :=
  closeBefore_induction (motive := fun r => r.stage = s.stage)
    (fun r n same => by rw [close_stage, same]) name rfl

@[simp] theorem closeBefore_openText (s : Construction) (name : String) :
    (s.closeBefore name).openText = s.openText :=
  closeBefore_induction (motive := fun r => r.openText = s.openText)
    (fun r n same => by rw [close_openText, same]) name rfl

theorem closeBefore_names (s : Construction) (name : String) :
    (s.closeBefore name).names = remaining (rulesFor name) s.names := by
  unfold closeBefore remaining
  generalize rulesFor name = rules
  induction rules generalizing s with
  | nil => rfl
  | cons rule rules ih =>
    rw [List.foldl_cons, ih, close_names]
    rfl

theorem Sound.closeBefore {p : List String → HtmlTree → Prop} (sound : s.Sound p) (name : String) :
    (s.closeBefore name).Sound p :=
  closeBefore_induction (motive := Sound p) (fun _ n sound => sound.close n) name sound

/-- Where no rule of a name has anything to close, closing before it changes nothing. -/
theorem closeBefore_of_counts {name : String}
    (none : ∀ rule ∈ rulesFor name, rule.count s.names = 0) : s.closeBefore name = s := by
  unfold closeBefore
  generalize rulesFor name = rules at none
  induction rules with
  | nil => rfl
  | cons rule rules ih =>
    have first := none rule List.mem_cons_self
    rw [names] at first
    rw [List.foldl_cons, first, close]
    exact ih fun r member => none r (List.mem_cons_of_mem _ member)

@[simp] theorem enter_stage (s : Construction) (stage : Stage) : (s.enter stage).stage = stage := rfl

theorem enter_opened (s : Construction) (stage : Stage) : (s.enter stage).opened = [] :=
  closeAll_opened s

@[simp] theorem enter_names (s : Construction) (stage : Stage) : (s.enter stage).names = [] :=
  opened_eq_nil_iff.1 (enter_opened s stage)

@[simp] theorem enter_openText (s : Construction) (stage : Stage) :
    (s.enter stage).openText = s.openText := close_openText s _

@[simp] theorem enter_body (s : Construction) (stage : Stage) : (s.enter stage).body = s.body :=
  close_body s _

@[simp] theorem openHead_openText (s : Construction) : s.openHead.openText = s.openText := by
  unfold openHead
  split
  · exact enter_openText s _
  · exact enter_openText s _
  · rfl

@[simp] theorem openBody_openText (s : Construction) : s.openBody.openText = s.openText := by
  unfold openBody
  split
  · rfl
  · exact enter_openText s .inBody

@[simp] theorem openBody_stage (s : Construction) : s.openBody.stage = .inBody := by
  unfold openBody
  split
  · assumption
  · rfl

/-- Whether content would stand between sections is told by the stage and the open names. -/
theorem betweenSections_congr {r : Construction} (stage : r.stage = s.stage)
    (names : r.names = s.names) : r.betweenSections = s.betweenSections := by
  have empty : r.opened.isEmpty = s.opened.isEmpty := by
    have length := congrArg List.isEmpty names
    simpa only [Construction.names, List.isEmpty_map] using length
  unfold betweenSections
  rw [stage, empty]

theorem endText_betweenSections (s : Construction) (stop : Nat) :
    (s.endText stop).betweenSections = s.betweenSections :=
  betweenSections_congr (endText_stage s stop) (endText_names s stop)

@[simp] theorem openSection_openText (s : Construction) (name : String) :
    (s.openSection name).openText = s.openText := by
  unfold openSection
  split
  · split <;> simp only [openHead_openText, openBody_openText]
  · rfl

@[simp] theorem placeFor_openText (s : Construction) (offset : Nat) (name : String) :
    (s.placeFor offset name).openText = none := by
  rw [placeFor, closeBefore_openText, openSection_openText, endText_openText]

theorem openBody_names (between : s.betweenSections = true) : s.openBody.names = [] := by
  unfold openBody
  split
  · next current => simp only [betweenSections, current, Bool.false_eq_true] at between
  · exact enter_names s .inBody

theorem openBody_above (between : s.betweenSections = true) :
    s.openBody.above = ["body", "html"] := by
  rw [above, openBody_names between, openBody_stage]
  rfl

/-- A construction whose nodes are placed, and whose open text can end where it is. -/
structure WellPlaced (s : Construction) : Prop where
  sound : s.Sound Placed
  text : ∀ o, s.openText = some o → OutsideBody s.above → o.value.allBlank = true

theorem Sound.names_ordinary (sound : s.Sound Placed) : ∀ name ∈ s.names, name ∉ structuralNames :=
  sound.opened.consistent.ordinary

/-- Content is put outside of the body exactly where characters would open it. -/
theorem Sound.outsideBody_iff (sound : s.Sound Placed) :
    OutsideBody s.above ↔ s.betweenSections = true := by
  cases opened : s.opened with
  | nil =>
    rw [above, names, opened]
    cases current : s.stage <;>
      simp [betweenSections, current, opened, OutsideBody, Stage.above]
  | cons e outer =>
    have ordinary := sound.names_ordinary e.name
      (by simp only [names, opened, List.map_cons, List.mem_cons, true_or])
    have staged := sound.staged (by rw [opened]; exact List.cons_ne_nil _ _)
    have apart : ¬OutsideBody s.above := by
      intro outside
      apply ordinary
      have nearest := outside e.name (by simp only [above, names, opened]; rfl)
      rcases nearest with same | same <;> rw [same] <;> decide
    have inside : s.betweenSections = false := by
      rcases staged with current | current <;> simp [betweenSections, current, opened]
    simp only [apart, inside, Bool.false_eq_true]

theorem Sound.wellPlaced (sound : s.Sound Placed) (settled : s.openText = none) : s.WellPlaced where
  sound := sound
  text o openText := by rw [settled] at openText; cases openText

theorem wellPlaced_initial : WellPlaced {} := sound_initial.wellPlaced rfl

namespace WellPlaced

theorem endText (placed : s.WellPlaced) (stop : Nat) : (s.endText stop).Sound Placed := by
  apply placed.sound.endText
  intro o openText
  exact .leaf ⟨placed.text o openText, rfl, _, rfl⟩

theorem append (sound : s.Sound Placed) (settled : s.openText = none) {t : HtmlTree}
    (holds : Everywhere Placed s.above t) : (s.append t).WellPlaced :=
  (sound.append holds).wellPlaced (by rw [append_openText, settled])

theorem enter (placed : s.WellPlaced) (stop : Nat) (stage : Stage) :
    ((s.endText stop).enter stage).WellPlaced :=
  ((placed.endText stop).enter stage).wellPlaced
    (by rw [enter_openText, endText_openText])

/-- Placement depends on nothing but content, open elements, stage and open text. -/
theorem congr (placed : s.WellPlaced) {r : Construction} (content : r.content = s.content)
    (opened : r.opened = s.opened) (stage : r.stage = s.stage) (openText : r.openText = s.openText) :
    r.WellPlaced where
  sound := placed.sound.congr content opened stage
  text := by rw [openText, above, names, opened, stage]; exact placed.text

theorem addText (placed : s.WellPlaced) (start : Mark) (value : Text) :
    (s.addText start value).WellPlaced := by
  unfold Construction.addText
  split
  · next opens =>
    rw [Bool.and_eq_true] at opens
    have opened := (placed.endText start.offset).openBody
    have between : (s.endText start.offset).betweenSections = true := by
      rw [endText_betweenSections]
      exact opens.2
    refine ⟨opened.congr rfl rfl rfl, ?_⟩
    intro o _ outside
    change OutsideBody (s.endText start.offset).openBody.above at outside
    rw [openBody_above between] at outside
    exact absurd (outside "body" rfl) (by decide)
  · next stays =>
    rw [Bool.and_eq_true, not_and, Bool.not_eq_true'] at stays
    have blank : OutsideBody s.above → value.allBlank = true := by
      intro outside
      by_contra dark
      exact stays (by simpa using dark) (placed.sound.outsideBody_iff.1 outside)
    split
    · next o openText =>
      refine ⟨placed.sound.congr rfl rfl rfl, ?_⟩
      intro extended same outside
      cases same
      have first := placed.text o openText outside
      have second := blank outside
      simp only [Text.allBlank, Bool.and_eq_true, Bool.not_eq_true', List.isEmpty_eq_false_iff,
        List.all_append] at first second ⊢
      exact ⟨List.append_ne_nil_of_left_ne_nil first.1 _, first.2, second.2⟩
    · refine ⟨placed.sound.congr rfl rfl rfl, ?_⟩
      intro extended same outside
      cases same
      exact blank outside

theorem addLeaf (placed : s.WellPlaced) (start : Mark) (stop : Nat) {content : Content}
    (leaf : content.isComment = true ∨ ∃ value, content = .doctype value) :
    (s.addLeaf start stop content).WellPlaced := by
  apply append (placed.endText start.offset) (endText_openText s _)
  apply Everywhere.leaf
  rcases leaf with comment | ⟨value, rfl⟩
  · cases content <;> simp only [Content.isComment, Bool.false_eq_true] at comment
    exact ⟨rfl, _, rfl⟩
  · exact ⟨rfl, _, rfl⟩

theorem addHtml (placed : s.WellPlaced) (offset : Nat) (attributes : List (String × Text))
    (location : Location) : (s.addHtml offset attributes location).WellPlaced := by
  unfold Construction.addHtml
  split
  · exact (placed.enter offset .beforeHead).congr rfl rfl rfl rfl
  · exact placed.congr rfl rfl rfl rfl

theorem addHead (placed : s.WellPlaced) (offset : Nat) (attributes : List (String × Text))
    (location : Location) : (s.addHead offset attributes location).WellPlaced := by
  unfold Construction.addHead
  split
  · exact (placed.enter offset .inHead).congr rfl rfl rfl rfl
  · exact (placed.enter offset .inHead).congr rfl rfl rfl rfl
  · exact placed

theorem addBody (placed : s.WellPlaced) (offset : Nat) (attributes : List (String × Text))
    (location : Location) : (s.addBody offset attributes location).WellPlaced := by
  unfold Construction.addBody
  split
  all_goals first
    | exact (placed.enter offset .inBody).congr rfl rfl rfl rfl
    | exact placed.congr rfl rfl rfl rfl

/-- An element stands directly outside of the body only in the head, and then it is one of the head's own. -/
theorem openSection (sound : s.Sound Placed) (name : String) :
    (s.openSection name).Sound Placed ∧ (s.openSection name).stage.hasOpened ∧
      (OutsideBody (s.openSection name).above →
        (s.openSection name).stage = .inHead ∧ (s.openSection name).names = [] ∧
          name ∈ headContentNames) := by
  unfold Construction.openSection
  split
  · next between =>
    split
    · next own =>
      rw [Bool.and_eq_true, List.contains_iff_mem] at own
      have head : s.openHead.stage = .inHead ∧ s.openHead.names = [] := by
        unfold openHead
        cases current : s.stage <;>
          simp only [allowsHead, current, Bool.false_eq_true, and_false] at own <;>
          simp only [enter_stage, enter_names, current, and_self]
        simpa only [betweenSections, current, names, List.isEmpty_iff, List.map_eq_nil_iff,
          true_and] using between
      exact ⟨sound.openHead, .inl head.1, fun _ => ⟨head.1, head.2, own.1⟩⟩
    · refine ⟨sound.openBody, .inr (openBody_stage s), ?_⟩
      intro outside
      rw [openBody_above between] at outside
      exact absurd (outside "body" rfl) (by decide)
  · next inside =>
    refine ⟨sound, ?_, fun outside => absurd (sound.outsideBody_iff.1 outside) inside⟩
    cases current : s.stage <;>
      simp [betweenSections, current, Stage.hasOpened] at inside ⊢

/-- After its rules have been applied an element may stand where it is put. -/
theorem elementPlaced (sound : s.Sound Placed) (staged : s.stage.hasOpened) {name : String}
    (ordinary : name ∉ structuralNames)
    (outside : OutsideBody s.above → s.stage = .inHead ∧ s.names = [] ∧ name ∈ headContentNames) :
    ElementPlaced (s.closeBefore name).above name where
  ordinary := ordinary
  outside := by
    intro directly
    have closed := sound.closeBefore name
    have between := closed.outsideBody_iff.1 directly
    have inHead : s.stage = .inHead := by
      rcases staged with current | current
      · exact current
      · simp only [betweenSections, closeBefore_stage, current, Bool.false_eq_true] at between
    have nothing : (s.closeBefore name).names = [] := by
      simpa only [betweenSections, closeBefore_stage, inHead, List.isEmpty_iff, names,
        List.map_eq_nil_iff] using between
    refine ⟨by rw [above, nothing, closeBefore_stage, inHead]; rfl, ?_⟩
    rw [closeBefore_names] at nothing
    rcases remaining_eq_nil nothing with none | ⟨rule, applies, closed, closes, last⟩
    · refine (outside ?_).2.2
      rw [above, none, inHead]
      unfold OutsideBody
      decide
    · have opened := sound.opened
      rw [inHead] at opened
      exact absurd (opened.outermost last) ((rulesFor_lawful name rule applies).notHeads closed closes)
  allowed := by
    rw [above, closeBefore_names, closeBefore_stage]
    exact allows_remaining (isBase_above _) sound.opened.consistent name

theorem addElement (placed : s.WellPlaced) (offset : Nat) {e : OpenElement} (selfClosing : Bool)
    (ordinary : e.name ∉ structuralNames) (empty : e.children = [])
    (located : ∃ startTag endTag given, e.location = .element startTag endTag given) :
    (s.addElement offset e selfClosing).WellPlaced := by
  obtain ⟨sound, staged, outside⟩ := openSection (placed.endText offset) e.name
  have here : ElementPlaced (s.placeFor offset e.name).above e.name :=
    elementPlaced sound staged ordinary outside
  have closed : (s.placeFor offset e.name).Sound Placed := sound.closeBefore e.name
  have settled := placeFor_openText s offset e.name
  have holds : Everywhere Placed (s.placeFor offset e.name).above e.toTree := by
    obtain ⟨startTag, endTag, given, location⟩ := located
    unfold OpenElement.toTree
    rw [empty, location]
    exact .leaf ⟨here, fun _ => rfl, _, _, _, rfl⟩
  rw [addElement_eq]
  split
  · exact append closed settled holds
  · next open_ =>
    rw [Bool.or_eq_true, not_or, Bool.not_eq_true, Bool.not_eq_true] at open_
    have staged : (s.placeFor offset e.name).stage.hasOpened := by
      rw [placeFor, closeBefore_stage]
      exact staged
    exact (closed.push holds (holds.top.grows open_.2) staged).wellPlaced settled

theorem addStartTag (placed : s.WellPlaced) (x : Lexeme) (name : String)
    (attributes : List (String × Text)) (selfClosing : Bool) :
    (s.addStartTag x name attributes selfClosing).WellPlaced := by
  unfold Construction.addStartTag
  split
  · exact placed.addHtml _ _ _
  · exact placed.addHead _ _ _
  · exact placed.addBody _ _ _
  · next html head body =>
    refine placed.addElement _ selfClosing ?_ rfl ⟨_, _, _, rfl⟩
    rw [mem_structuralNames, not_or, not_or]
    exact ⟨html, head, body⟩

theorem withEndTag {above : List String} {e : OpenElement} (endTag : Extent)
    (holds : Everywhere Placed above e.toTree) :
    Everywhere Placed above { e with location := e.location.withEndTag endTag }.toTree := by
  obtain ⟨elementPlaced, void, startTag, end_, given, location⟩ := holds.top
  have location : e.location = .element startTag end_ given := Option.some.inj location
  refine .of_children ⟨elementPlaced, void, startTag, some endTag, given, ?_⟩ holds.child
  rw [location]
  rfl

theorem endElement (placed : s.WellPlaced) (offset : Nat) (name : String) (endTag : Extent) :
    (s.endElement offset name endTag).WellPlaced := by
  rcases endElement_cases s offset name endTag with ignored | ⟨depth, e, outer, inside, _, _, ended⟩
  · rw [ignored]
    exact placed
  · rw [ended]
    have sound := (placed.endText offset).close depth
    have opened := sound.opened
    rw [inside] at opened
    apply append (sound.leave_innermost inside)
    · exact (close_openText _ _).trans (endText_openText s _)
    · exact withEndTag endTag opened.1

theorem addEndTag (placed : s.WellPlaced) (x : Lexeme) (name : String) :
    (s.addEndTag x name).WellPlaced := by
  unfold Construction.addEndTag
  split
  all_goals first
    | exact placed
    | exact (placed.enter x.start.offset _).congr rfl rfl rfl rfl
    | exact placed.endElement _ _ _

theorem add (placed : s.WellPlaced) (x : Lexeme) : (s.add x).WellPlaced := by
  unfold Construction.add
  split
  · exact placed.addText _ _
  · exact placed.addStartTag _ _ _ _
  · exact placed.addEndTag _ _
  · exact placed.addLeaf _ _ (.inl rfl)
  · exact placed.addLeaf _ _ (.inl rfl)
  · exact placed.addLeaf _ _ (.inr ⟨_, rfl⟩)
  · exact placed

theorem run (placed : s.WellPlaced) (xs : List Lexeme) : (xs.foldl Construction.add s).WellPlaced := by
  induction xs generalizing s with
  | nil => exact placed
  | cons x xs ih => exact ih (placed.add x)

/-- Whatever lexemes come in whichever order, all nodes are placed. -/
theorem of_lexemes (xs : List Lexeme) : WellPlaced (xs.foldl Construction.add {}) :=
  wellPlaced_initial.run xs

end WellPlaced

end Construction

end LocatedHtml
