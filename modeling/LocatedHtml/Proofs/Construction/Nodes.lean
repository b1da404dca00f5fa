import LocatedHtml.Proofs.Construction.Placement

/-!
Facts about nodes that a lexeme can bring or end: what it brings has to have the fact wherever it may
stand, and so has the text that goes on up to it. An end tag may not take the fact from its element.
-/

namespace LocatedHtml

/-- Every node that a lexeme brings has the fact, with children if it can get some, and an element that
it ends keeps it. -/
structure NodeFact (p : List String → HtmlTree → Prop) (x : Lexeme) : Prop where
  started : ∀ above name attributes selfClosing, x.token = .startTag name attributes selfClosing →
    let e : OpenElement :=
      ⟨name, OrderedMap.insertAllNew [] attributes, Construction.startTagLocation x, []⟩
    p above e.toTree ∧ (selfClosing = false → Grows p above e)
  ended : ∀ above (e : OpenElement), x.token = .endTag e.name → p above e.toTree →
    p above { e with location := e.location.withEndTag (.ofMark x.start x.stop.offset) }.toTree
  comment : ∀ above value, x.token = .comment value →
    p above (.node ⟨.comment value, some (.plain (.ofMark x.start
      (x.start.offset + value.length + Construction.commentMarkupLength)))⟩ [])
  instruction : ∀ above value, x.token = .instruction value →
    p above (.node ⟨.comment ('?' :: value), some (.plain (.ofMark x.start x.stop.offset))⟩ [])
  declaration : ∀ above value, x.token = .declaration value →
    p above (.node ⟨.doctype value, some (.plain (.ofMark x.start x.stop.offset))⟩ [])

namespace Construction

variable {p : List String → HtmlTree → Prop} {s : Construction} {x : Lexeme}

/-- Open text that ends at an offset has the fact. -/
def TextFact (p : List String → HtmlTree → Prop) (s : Construction) (stop : Nat) : Prop :=
  ∀ o ∈ s.openText, ∀ above value, p above (.node ⟨.text value, some (.plain (.ofMark o.start stop))⟩ [])

namespace Sound

theorem endText_node (sound : s.Sound p) {stop : Nat} (text : TextFact p s stop) :
    (s.endText stop).Sound p :=
  sound.endText fun o openText => .leaf (text o openText _ o.value)

theorem enter_node (sound : s.Sound p) {stop : Nat} (text : TextFact p s stop)
    (stage : Stage) : ((s.endText stop).enter stage).Sound p :=
  (sound.endText_node text).enter stage

theorem addText_node (sound : s.Sound p) {start : Mark} (value : Text)
    (text : TextFact p s start.offset) : (s.addText start value).Sound p := by
  unfold Construction.addText
  split
  · exact ((sound.endText_node text).openBody).congr rfl rfl rfl
  · split <;> exact sound.congr rfl rfl rfl

theorem addLeaf_node (sound : s.Sound p) {start : Mark} (text : TextFact p s start.offset)
    {stop : Nat} {content : Content}
    (leaf : ∀ above, p above (.node ⟨content, some (.plain (.ofMark start stop))⟩ [])) :
    (s.addLeaf start stop content).Sound p :=
  (sound.endText_node text).append (.leaf (leaf _))

theorem addHtml_node (sound : s.Sound p) {offset : Nat} (text : TextFact p s offset)
    (attributes : List (String × Text)) (location : Location) :
    (s.addHtml offset attributes location).Sound p := by
  unfold Construction.addHtml
  split
  · exact (sound.enter_node text .beforeHead).congr rfl rfl rfl
  · exact sound.congr rfl rfl rfl

theorem addHead_node (sound : s.Sound p) {offset : Nat} (text : TextFact p s offset)
    (attributes : List (String × Text)) (location : Location) :
    (s.addHead offset attributes location).Sound p := by
  unfold Construction.addHead
  split
  · exact (sound.enter_node text .inHead).congr rfl rfl rfl
  · exact (sound.enter_node text .inHead).congr rfl rfl rfl
  · exact sound

theorem addBody_node (sound : s.Sound p) {offset : Nat} (text : TextFact p s offset)
    (attributes : List (String × Text)) (location : Location) :
    (s.addBody offset attributes location).Sound p := by
  unfold Construction.addBody
  split
  all_goals first
    | exact (sound.enter_node text .inBody).congr rfl rfl rfl
    | exact sound.congr rfl rfl rfl

theorem placeFor_node (sound : s.Sound p) {offset : Nat} (text : TextFact p s offset)
    (name : String) : (s.placeFor offset name).Sound p := by
  have opened := sound.endText_node text
  have section_ : ((s.endText offset).openSection name).Sound p := by
    unfold Construction.openSection
    split
    · split
      · exact opened.openHead
      · exact opened.openBody
    · exact opened
  exact section_.closeBefore name

theorem addElement_node (sound : s.Sound p) {offset : Nat} (text : TextFact p s offset)
    {e : OpenElement} {selfClosing : Bool} (empty : e.children = [])
    (holds : ∀ above, p above e.toTree ∧ (selfClosing = false → Grows p above e))
    (staged : (s.placeFor offset e.name).stage.hasOpened) :
    (s.addElement offset e selfClosing).Sound p := by
  have placed := sound.placeFor_node text e.name
  obtain ⟨top, grows⟩ := holds (s.placeFor offset e.name).above
  have tree : Everywhere p (s.placeFor offset e.name).above e.toTree := by
    unfold OpenElement.toTree at top ⊢
    rw [empty] at top ⊢
    exact .leaf top
  rw [addElement_eq]
  split
  · exact placed.append tree
  · next open_ =>
    rw [Bool.or_eq_true, not_or, Bool.not_eq_true, Bool.not_eq_true] at open_
    exact placed.push tree (grows open_.1) staged

theorem endElement_node (sound : s.Sound p) {offset : Nat} (text : TextFact p s offset)
    {name : String} {endTag : Extent}
    (ended : ∀ above (e : OpenElement), e.name = name → p above e.toTree →
      p above { e with location := e.location.withEndTag endTag }.toTree) :
    (s.endElement offset name endTag).Sound p := by
  rcases endElement_cases s offset name endTag with ignored | ⟨depth, e, outer, inside, named, _, same⟩
  · rw [ignored]
    exact sound
  · rw [same]
    have closed := (sound.endText_node text).close depth
    have opened := closed.opened
    rw [inside] at opened
    apply (closed.leave_innermost inside).append
    exact .of_children (ended _ e named opened.1.top) opened.1.child

theorem addEndTag_node (sound : s.Sound p) (text : TextFact p s x.start.offset)
    (fact : NodeFact p x) {name : String} (token : x.token = .endTag name) :
    (s.addEndTag x name).Sound p := by
  unfold Construction.addEndTag
  split
  all_goals first
    | exact sound
    | exact (sound.enter_node text _).congr rfl rfl rfl
    | exact sound.endElement_node text fun above e named => fact.ended above e (named ▸ token)

/-- A lexeme whose nodes have a fact preserves that all nodes have it. -/
theorem add_node (sound : s.Sound p) (placed : s.WellPlaced) (fact : NodeFact p x)
    (text : TextFact p s x.start.offset) : (s.add x).Sound p := by
  unfold Construction.add
  split
  · exact sound.addText_node _ text
  · next name attributes selfClosing token =>
    unfold Construction.addStartTag
    split
    · exact sound.addHtml_node text _ _
    · exact sound.addHead_node text _ _
    · exact sound.addBody_node text _ _
    · refine sound.addElement_node (e := ⟨name, _, _, []⟩) text rfl
        (fun above => fact.started above _ _ _ token) ?_
      rw [placeFor, closeBefore_stage]
      exact (WellPlaced.openSection (placed.endText x.start.offset) name).2.1
  · next token => exact sound.addEndTag_node text fact token
  · next token => exact sound.addLeaf_node text fun above => fact.comment above _ token
  · next token => exact sound.addLeaf_node text fun above => fact.instruction above _ token
  · next token => exact sound.addLeaf_node text fun above => fact.declaration above _ token
  · exact sound

end Sound

namespace Sound

/-- What the nodes of all lexemes have, and every text by itself, holds of all nodes. -/
theorem run {xs : List Lexeme}
    (text : ∀ above value extent, p above (.node ⟨.text value, some (.plain extent)⟩ []))
    (facts : ∀ x ∈ xs, NodeFact p x) (placed : s.WellPlaced) (sound : s.Sound p) :
    (xs.foldl Construction.add s).Sound p := by
  induction xs generalizing s with
  | nil => exact sound
  | cons x xs ih =>
    apply ih (fun y member => facts y (List.mem_cons_of_mem _ member)) (placed.add x)
    exact sound.add_node placed (facts x List.mem_cons_self) fun _ _ above value => text above value _

end Sound

/-- Text that is open in `r` began at a mark or was open before. -/
def TextFrom (start : Mark) (s r : Construction) : Prop :=
  ∀ o, r.openText = some o → o.start = start ∨ ∃ earlier, s.openText = some earlier ∧ earlier.start = o.start

theorem TextFrom.of_same {start : Mark} {r : Construction} (same : r.openText = s.openText) :
    TextFrom start s r := by
  intro o openText
  rw [same] at openText
  exact .inr ⟨o, openText, rfl⟩

theorem TextFrom.of_none {start : Mark} {r : Construction} (none : r.openText = none) :
    TextFrom start s r := by
  intro o openText
  rw [none] at openText
  cases openText

theorem enter_endText_openText (s : Construction) (stop : Nat) (stage : Stage) :
    ((s.endText stop).enter stage).openText = none := by
  rw [enter_openText, endText_openText]

theorem textFrom_addText (s : Construction) (start : Mark) (value : Text) :
    TextFrom start s (s.addText start value) := by
  unfold addText
  intro o openText
  split at openText
  · cases openText
    exact .inl rfl
  · split at openText
    · next p earlier =>
      cases openText
      exact .inr ⟨p, earlier, rfl⟩
    · cases openText
      exact .inl rfl

theorem textFrom_addStartTag (s : Construction) (x : Lexeme) (name : String)
    (attributes : List (String × Text)) (selfClosing : Bool) :
    TextFrom x.start s (s.addStartTag x name attributes selfClosing) := by
  have entered (stage : Stage) := enter_endText_openText s x.start.offset stage
  unfold addStartTag
  split
  · unfold addHtml
    split
    · exact .of_none (entered .beforeHead)
    · exact .of_same rfl
  · unfold addHead
    split
    · exact .of_none (entered .inHead)
    · exact .of_none (entered .inHead)
    · exact .of_same rfl
  · unfold addBody
    split
    all_goals first
      | exact .of_none (entered .inBody)
      | exact .of_same rfl
  · apply TextFrom.of_none
    rw [addElement_eq]
    split
    · rw [append_openText, placeFor_openText]
    · exact placeFor_openText s x.start.offset name

theorem textFrom_endElement (s : Construction) (start : Mark) (offset : Nat) (name : String)
    (endTag : Extent) : TextFrom start s (s.endElement offset name endTag) := by
  rcases endElement_cases s offset name endTag with ignored | ⟨depth, e, outer, _, _, _, same⟩
  · exact .of_same (congrArg openText ignored)
  · apply TextFrom.of_none
    rw [same, append_openText]
    exact (close_openText _ _).trans (endText_openText s offset)

theorem textFrom_addEndTag (s : Construction) (x : Lexeme) (name : String) :
    TextFrom x.start s (s.addEndTag x name) := by
  have entered (stage : Stage) := enter_endText_openText s x.start.offset stage
  unfold addEndTag
  split
  · exact .of_same rfl
  · exact .of_same rfl
  · exact .of_none (entered .afterHtml)
  · exact .of_none (entered .afterHead)
  · exact .of_same rfl
  · exact .of_none (entered .afterBody)
  · exact .of_same rfl
  · exact textFrom_endElement s x.start _ _ _

/-- Text that is open after a lexeme began with it or was open before. -/
theorem textFrom_add (s : Construction) (x : Lexeme) : TextFrom x.start s (s.add x) := by
  have leaf (stop : Nat) (content : Content) : TextFrom x.start s (s.addLeaf x.start stop content) := by
    apply TextFrom.of_none
    unfold addLeaf
    rw [append_openText, endText_openText]
  unfold Construction.add
  split
  · exact textFrom_addText s _ _
  · exact textFrom_addStartTag s x _ _ _
  · exact textFrom_addEndTag s x _
  · exact leaf _ _
  · exact leaf _ _
  · exact leaf _ _
  · exact .of_same rfl

end Construction

end LocatedHtml
