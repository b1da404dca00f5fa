import LocatedHtml.Proofs.Construction.Stages

/-!
Everything that a lexeme can do to a construction. Open text ends first. Then elements end and other
stages are entered, which brings nothing new. At last the lexeme itself is put in.
-/

namespace LocatedHtml

namespace Token

/-- The characters that a token brings. -/
def textValue : Token → Text
  | .text value => value
  | _ => []

/-- The comment or the doctype that a token brings. -/
def remark? : Token → Option Content
  | .comment value => some (.comment value)
  | .instruction value => some (.comment ('?' :: value))
  | .declaration value => some (.doctype value)
  | _ => none

/-- What opens the body again when it comes behind the end of the body or of `html`. -/
def Reopens : Token → Prop
  | .startTag name _ _ => name ∉ structuralNames
  | .text value => value.allBlank = false
  | _ => False

instance : DecidablePred Reopens
  | .startTag name _ _ => inferInstanceAs (Decidable (name ∉ structuralNames))
  | .text value => inferInstanceAs (Decidable (value.allBlank = false))
  | .endTag _ | .comment _ | .instruction _ | .declaration _ | .skipped =>
    inferInstanceAs (Decidable False)

end Token

namespace Lexeme

/-- Where the node of a comment, an instruction or a declaration ends. -/
def remarkStop (x : Lexeme) : Nat :=
  match x.token with
  | .comment value => x.start.offset + value.length + Construction.commentMarkupLength
  | _ => x.stop.offset

/-- The node of a comment, an instruction or a declaration. -/
def remark? (x : Lexeme) : Option Node :=
  x.token.remark?.map fun content => ⟨content, some (.plain (.ofMark x.start x.remarkStop))⟩

/-- The element of a start tag. -/
def element (x : Lexeme) (name : String) (attributes : List (String × Text)) : OpenElement :=
  ⟨name, OrderedMap.insertAllNew [] attributes, Construction.startTagLocation x, []⟩

end Lexeme

namespace Construction

/-- The start tags of the structural elements, by the stages that they open. -/
def Frame.tags (frame : Frame) : Stage → List Extent
  | .beforeHead => (frame.html.location.map Location.opening).toList
  | .inHead => (frame.head.location.map Location.opening).toList
  | .inBody => ((frame.body.getD {}).location.map Location.opening).toList
  | _ => []

/-- The lexeme is an end tag that leaves the body or `html`. -/
def Leaves (s : Construction) (x : Lexeme) : Prop :=
  (x.token = .endTag "body" ∧ s.stage = .inBody) ∨
    (x.token = .endTag "html" ∧ s.stage ≠ .beforeHtml ∧ s.stage ≠ .afterHtml)

instance (s : Construction) (x : Lexeme) : Decidable (s.Leaves x) :=
  inferInstanceAs (Decidable ((x.token = .endTag "body" ∧ s.stage = .inBody) ∨
    (x.token = .endTag "html" ∧ s.stage ≠ .beforeHtml ∧ s.stage ≠ .afterHtml)))

/-- Elements end and other stages are entered; one that goes straight on never goes back. -/
inductive Settles (straight : Prop) : Construction → Construction → Prop
  | done (s : Construction) : Settles straight s s
  | outward {s r : Construction} {e : OpenElement} {outer : List OpenElement}
      (inside : s.opened = e :: outer)
      (more : Settles straight (append { s with opened := outer } e.toTree) r) : Settles straight s r
  | enter {s r : Construction} {stage : Stage} {body : Option Shell}
      (advance : s.Advance stage body) (same : body.getD {} = s.body.getD {})
      (bound : stage.rank ≤ Stage.inBody.rank) (forward : straight → s.stage.rank < stage.rank)
      (more : Settles straight { s with stage := stage, body := body } r) : Settles straight s r

/-- The construction `r` is what the lexeme makes of `s`. -/
inductive Adds (straight : Prop) (x : Lexeme) (s : Construction) : Construction → Prop
  | marked (html : Shell) (body : Option Shell)
      (quiet : x.token.textValue = [] ∧ x.token.remark? = none) (same : body.isSome = s.body.isSome)
      (tags : Frame.tags ⟨s.stage, html, s.head, body⟩ = s.frame.tags) :
      Adds straight x s { s with html := html, body := body }
  | extended {o : OpenText} {value : Text} (token : x.token = .text value)
      (openText : s.openText = some o) :
      Adds straight x s { s with openText := some { o with value := o.value ++ value } }
  | begun {value : Text} (token : x.token = .text value) (closed : s.openText = none) :
      Adds straight x s { s with openText := some ⟨x.start, value⟩ }
  | resumed {r : Construction} {body : Option Shell} {value : Text} (token : x.token = .text value)
      (settles : Settles straight (s.endText x.start.offset) r) (advance : r.Advance .inBody body)
      (same : body.getD {} = r.body.getD {}) (forward : straight → r.stage.rank < Stage.inBody.rank) :
      Adds straight x s { r with stage := .inBody, body := body, openText := some ⟨x.start, value⟩ }
  | remark {v : Node} (brings : x.remark? = some v) :
      Adds straight x s ((s.endText x.start.offset).append (.node v []))
  | single {r : Construction} {name : String} {attributes : List (String × Text)} {selfClosing : Bool}
      (token : x.token = .startTag name attributes selfClosing)
      (settles : Settles straight (s.endText x.start.offset) r) (staged : r.stage.hasOpened) :
      Adds straight x s (r.append (x.element name attributes).toTree)
  | opening {r : Construction} {name : String} {attributes : List (String × Text)} {selfClosing : Bool}
      (token : x.token = .startTag name attributes selfClosing)
      (settles : Settles straight (s.endText x.start.offset) r) (staged : r.stage.hasOpened) :
      Adds straight x s { r with opened := x.element name attributes :: r.opened }
  | ending {r : Construction} {e : OpenElement} {outer : List OpenElement}
      (token : x.token = .endTag e.name) (settles : Settles straight (s.endText x.start.offset) r)
      (inside : r.opened = e :: outer) :
      Adds straight x s (append { r with opened := outer }
        { e with location := e.location.withEndTag (.ofMark x.start x.stop.offset) }.toTree)
  | entering {r : Construction} {stage : Stage} {html head : Shell} {body : Option Shell} {name : String}
      {attributes : List (String × Text)} {selfClosing : Bool}
      (token : x.token = .startTag name attributes selfClosing)
      (settles : Settles straight (s.endText x.start.offset) r) (advance : r.Advance stage body)
      (forward : r.stage.rank < stage.rank) (bound : stage.rank ≤ Stage.inBody.rank)
      (tags : Frame.tags ⟨stage, html, head, body⟩ =
        Function.update r.frame.tags stage [(startTagLocation x).opening]) :
      Adds straight x s { r with stage := stage, html := html, head := head, body := body }
  | leaving {r : Construction} {stage : Stage} {html head : Shell} {body : Option Shell} {name : String}
      (token : x.token = .endTag name) (settles : Settles straight (s.endText x.start.offset) r)
      (advance : r.Advance stage body) (forward : r.stage.rank < stage.rank)
      (late : Stage.inBody.rank < stage.rank → s.Leaves x)
      (tags : Frame.tags ⟨stage, html, head, body⟩ = r.frame.tags) :
      Adds straight x s { r with stage := stage, html := html, head := head, body := body }

variable {straight : Prop} {s r q : Construction} {x : Lexeme}

namespace Settles

theorem trans (first : Settles straight s r) (more : Settles straight r q) : Settles straight s q := by
  induction first with
  | done => exact more
  | outward inside _ ih => exact .outward inside (ih more)
  | enter advance same bound forward _ ih => exact .enter advance same bound forward (ih more)

theorem openText (settles : Settles straight s r) : r.openText = s.openText := by
  induction settles with
  | done => rfl
  | outward _ _ ih => rw [ih, append_openText]
  | enter _ _ _ _ _ ih => exact ih

/-- Only a lexeme goes past the body, not what happens before it. -/
theorem late (settles : Settles straight s r) (late : Stage.inBody.rank < r.stage.rank) :
    r.stage = s.stage := by
  induction settles with
  | done => rfl
  | outward _ _ ih => rw [ih late, append_stage]
  | enter _ _ bound _ _ ih =>
    have here := ih late
    rw [here] at late
    exact absurd bound (Nat.not_le_of_lt late)

theorem close (s : Construction) (n : Nat) : Settles straight s (s.close n) := by
  induction n generalizing s with
  | zero => exact .done s
  | succ n ih =>
    cases inside : s.opened with
    | nil => rw [close_settled inside]; exact .done s
    | cons e outer => rw [close_succ inside]; exact .outward inside (ih _)

theorem closeAll (s : Construction) : Settles straight s s.closeAll := close s _

theorem enter_inHead (forward : s.stage.rank < Stage.inHead.rank) :
    Settles straight s (s.enter .inHead) := by
  have kept : s.closeAll.body.isSome = s.body.isSome := by rw [Construction.closeAll, close_body]
  have advance := advance_forward forward (by simp) (by simp) kept
  refine (closeAll s).trans (.enter advance rfl (by decide) ?_ (.done _))
  intro
  rwa [Construction.closeAll, close_stage]

theorem openHead (s : Construction) : Settles straight s s.openHead := by
  unfold Construction.openHead
  split
  · next here => exact enter_inHead (by simp [here, Stage.rank])
  · next here => exact enter_inHead (by simp [here, Stage.rank])
  · exact .done s

theorem openBody (onward : straight → s.stage.rank ≤ Stage.inBody.rank) :
    Settles straight s s.openBody := by
  unfold Construction.openBody
  split
  · exact .done s
  · next outside =>
    refine (closeAll s).trans (.enter (advance_inBody rfl) ?_ (by decide) ?_ (.done _))
    · rw [Construction.closeAll, close_body, Option.getD_some]
    · intro straight
      have early := onward straight
      rw [Construction.closeAll, close_stage]
      cases here : s.stage <;> simp [here, Stage.rank] at early outside ⊢

theorem closeBefore (s : Construction) (name : String) : Settles straight s (s.closeBefore name) :=
  closeBefore_induction (motive := Settles straight s) (fun r n first => first.trans (close r n)) name
    (.done s)

theorem placeFor (offset : Nat) (name : String) (onward : straight → s.stage.rank ≤ Stage.inBody.rank) :
    Settles straight (s.endText offset) (s.placeFor offset name) := by
  have section_ : Settles straight (s.endText offset) ((s.endText offset).openSection name) := by
    unfold openSection
    split
    · split
      · exact openHead _
      · exact openBody (by rwa [endText_stage])
    · exact .done _
  exact section_.trans (closeBefore _ name)

end Settles

namespace Adds

theorem of_ignored (quiet : x.token.textValue = [] ∧ x.token.remark? = none) : Adds straight x s s :=
  .marked s.html s.body quiet rfl rfl

theorem addText {value : Text} (token : x.token = .text value)
    (onward : straight → x.token.Reopens → s.stage.rank ≤ Stage.inBody.rank) :
    Adds straight x s (s.addText x.start value) := by
  unfold Construction.addText
  split
  · next opens =>
    simp only [Bool.and_eq_true, Bool.not_eq_true'] at opens
    have early (holds : straight) : s.stage.rank ≤ Stage.inBody.rank := by
      apply onward holds
      rw [token]
      exact opens.1
    have outside : s.stage ≠ .inBody := by
      intro here
      simp [betweenSections, here] at opens
    have entered : (s.endText x.start.offset).openBody =
        { (s.endText x.start.offset).enter .inBody with
          body := some ((s.endText x.start.offset).body.getD {}) } := by
      unfold Construction.openBody
      split
      · next here => exact absurd ((endText_stage s _).symm.trans here) outside
      · rfl
    rw [entered]
    refine .resumed (r := (s.endText x.start.offset).closeAll) token (.closeAll _)
      (advance_inBody rfl) ?_ ?_
    · rw [closeAll, close_body, Option.getD_some]
    · intro holds
      have bound := early holds
      rw [closeAll, close_stage, endText_stage]
      cases here : s.stage <;> simp [here, Stage.rank] at bound outside ⊢
  · split
    · next o openText => exact .extended token openText
    · next closed => exact .begun token closed

/-- A start tag that opens a structural element ends what is open and enters its stage. -/
theorem enter {name : String} {attributes : List (String × Text)} {selfClosing : Bool}
    (token : x.token = .startTag name attributes selfClosing) {stage : Stage} {html head : Shell}
    {body : Option Shell} (advance : (s.endText x.start.offset).closeAll.Advance stage body)
    (forward : s.stage.rank < stage.rank) (bound : stage.rank ≤ Stage.inBody.rank)
    (tags : Frame.tags ⟨stage, html, head, body⟩ =
      Function.update s.frame.tags stage [(startTagLocation x).opening]) :
    Adds straight x s { (s.endText x.start.offset).enter stage with
      html := html, head := head, body := body } := by
  refine .entering (r := (s.endText x.start.offset).closeAll) token (.closeAll _) advance ?_ bound ?_
  · rwa [closeAll, close_stage, endText_stage]
  · rw [closeAll, close_frame, endText_frame]
    exact tags

theorem addHtml {name : String} {attributes : List (String × Text)} {selfClosing : Bool}
    (token : x.token = .startTag name attributes selfClosing) :
    Adds straight x s (s.addHtml x.start.offset attributes (startTagLocation x)) := by
  unfold Construction.addHtml
  split
  · next here =>
    have before : s.stage.rank < Stage.beforeHead.rank := by simp [here, Stage.rank]
    apply enter token (advance_forward (by rwa [endText_stage]) (by simp) (by simp) _) before
      (by decide)
    · funext stage
      cases stage <;> simp [Frame.tags, frame, Function.update, Construction.enter, closeAll]
    · rw [enter_body]
  · refine .marked _ s.body (by simp [token, Token.textValue, Token.remark?]) rfl ?_
    funext stage
    cases stage <;> rfl

theorem addHead {name : String} {attributes : List (String × Text)} {selfClosing : Bool}
    (token : x.token = .startTag name attributes selfClosing) :
    Adds straight x s (s.addHead x.start.offset attributes (startTagLocation x)) := by
  have early (before : s.stage.rank < Stage.inHead.rank) :
      Adds straight x s { (s.endText x.start.offset).enter .inHead with
        head := ⟨OrderedMap.insertAllNew [] attributes, some (startTagLocation x)⟩ } := by
    apply enter token (advance_forward (by rwa [endText_stage]) (by simp) (by simp) _) before
      (by decide)
    · funext stage
      cases stage <;> simp [Frame.tags, frame, Function.update, Construction.enter, closeAll]
    · rw [enter_body]
  unfold Construction.addHead
  split
  · next here => exact early (by simp [here, Stage.rank])
  · next here => exact early (by simp [here, Stage.rank])
  · exact .of_ignored (by simp [token, Token.textValue, Token.remark?])

theorem addBody {name : String} {attributes : List (String × Text)} {selfClosing : Bool}
    (token : x.token = .startTag name attributes selfClosing) :
    Adds straight x s (s.addBody x.start.offset attributes (startTagLocation x)) := by
  have early (before : s.stage.rank < Stage.inBody.rank) :
      Adds straight x s { (s.endText x.start.offset).enter .inBody with
        body := some ⟨OrderedMap.insertAllNew [] attributes, some (startTagLocation x)⟩ } := by
    apply enter token (advance_inBody rfl) before (by decide)
    funext stage
    cases stage <;> simp [Frame.tags, frame, Function.update, Construction.enter, closeAll]
  unfold Construction.addBody
  split
  case h_5 =>
    refine .marked s.html _ (by simp [token, Token.textValue, Token.remark?])
      (by rw [Option.isSome_map]) ?_
    funext stage
    cases stage
    case inBody => cases present : s.body <;> simp [Frame.tags, frame, present, Shell.addAttributes]
    all_goals rfl
  all_goals
    next here => exact early (by simp [here, Stage.rank])

theorem addElement (placed : s.WellPlaced) {name : String} {attributes : List (String × Text)}
    {selfClosing : Bool} (token : x.token = .startTag name attributes selfClosing)
    (onward : straight → s.stage.rank ≤ Stage.inBody.rank) :
    Adds straight x s (s.addElement x.start.offset (x.element name attributes) selfClosing) := by
  have settles : Settles straight (s.endText x.start.offset) (s.placeFor x.start.offset name) :=
    .placeFor _ _ onward
  have staged : (s.placeFor x.start.offset name).stage.hasOpened := by
    rw [Construction.placeFor, closeBefore_stage]
    exact (WellPlaced.openSection (placed.endText x.start.offset) name).2.1
  rw [addElement_eq]
  split
  · exact .single token settles staged
  · exact .opening token settles staged

theorem addStartTag (placed : s.WellPlaced) {name : String} {attributes : List (String × Text)}
    {selfClosing : Bool} (token : x.token = .startTag name attributes selfClosing)
    (onward : straight → x.token.Reopens → s.stage.rank ≤ Stage.inBody.rank) :
    Adds straight x s (s.addStartTag x name attributes selfClosing) := by
  by_cases structural : name ∈ structuralNames
  · rcases mem_structuralNames.1 structural with rfl | rfl | rfl
    · exact addHtml token
    · exact addHead token
    · exact addBody token
  · rw [addStartTag_ordinary structural]
    apply addElement placed token
    intro holds
    apply onward holds
    rw [token]
    exact structural

theorem endElement {name : String} (token : x.token = .endTag name) :
    Adds straight x s (s.endElement x.start.offset name (.ofMark x.start x.stop.offset)) := by
  rcases endElement_cases s x.start.offset name (.ofMark x.start x.stop.offset) with
    ignored | ⟨depth, e, outer, inside, named, _, ended⟩
  · rw [ignored]
    exact .of_ignored (by simp [token, Token.textValue, Token.remark?])
  · rw [ended]
    exact .ending (by rw [token, named]) (.close _ depth) inside

/-- The end tag of a structural element ends what is open and leaves its stage. -/
theorem leave {name : String} (token : x.token = .endTag name) {stage : Stage} {html head : Shell}
    {body : Option Shell} (forward : s.stage.rank < stage.rank) (outside : stage ≠ .inBody)
    (left : stage = .afterBody → s.stage = .inBody) (kept : body.isSome = s.body.isSome)
    (late : Stage.inBody.rank < stage.rank → s.Leaves x)
    (tags : Frame.tags ⟨stage, html, head, body⟩ = s.frame.tags) :
    Adds straight x s { (s.endText x.start.offset).enter stage with
      html := html, head := head, body := body } := by
  refine .leaving (r := (s.endText x.start.offset).closeAll) token (.closeAll _)
    (advance_forward ?_ outside ?_ ?_) ?_ late ?_
  · rwa [endText_stage]
  · rwa [endText_stage]
  · rwa [endText_body]
  · rwa [closeAll, close_stage, endText_stage]
  · rw [closeAll, close_frame, endText_frame]
    exact tags

theorem addEndTag {name : String} (token : x.token = .endTag name) :
    Adds straight x s (s.addEndTag x name) := by
  have ignored : Adds straight x s s := .of_ignored (by simp [token, Token.textValue, Token.remark?])
  have closed (shell : Shell) (endTag : Extent) :
      (shell.close endTag).location.map Location.opening = shell.location.map Location.opening := by
    cases present : shell.location <;> simp [Shell.close, present, Location.opening_withEndTag]
  unfold Construction.addEndTag
  split
  · exact ignored
  · exact ignored
  · next before after =>
    apply leave token _ (by simp) (by simp) (by rw [enter_body, endText_body])
    · intro
      simpa [Leaves, token] using ⟨before, after⟩
    · funext stage
      cases stage <;> simp [Frame.tags, frame, closed, Construction.enter, closeAll]
    · cases here : s.stage <;> first | decide | exact absurd here after
  · next here =>
    apply leave token _ (by simp) (by simp) (by rw [enter_body, endText_body]) (by simp [Stage.rank])
    · funext stage
      cases stage <;> simp [Frame.tags, frame, closed, Construction.enter, closeAll]
    · simp [here, Stage.rank]
  · exact ignored
  · next here =>
    apply leave token _ (by simp) (fun _ => here) (by rw [Option.isSome_map])
      (by simp [Leaves, token, here])
    · funext stage
      cases present : s.body <;> cases stage <;>
        simp [Frame.tags, frame, closed, present, Construction.enter, closeAll]
    · simp [here, Stage.rank]
  · exact ignored
  · exact endElement token

/-- Behind the body one is only where an end tag has left it, now or before. -/
theorem late (adds : Adds straight x s r) (late : Stage.inBody.rank < r.stage.rank) :
    Stage.inBody.rank < s.stage.rank ∨ s.Leaves x := by
  have settled {q : Construction} (settles : Settles straight (s.endText x.start.offset) q)
      (late : Stage.inBody.rank < q.stage.rank) : Stage.inBody.rank < s.stage.rank := by
    rwa [settles.late late, endText_stage] at late
  cases adds with
  | marked | extended | begun => exact .inl late
  | resumed => exact absurd late (Nat.lt_irrefl _)
  | remark => simpa using Or.inl late
  | single token settles => exact .inl (settled settles (by simpa using late))
  | opening token settles => exact .inl (settled settles late)
  | ending token settles => exact .inl (settled settles (by simpa using late))
  | entering token settles advance forward bound => exact absurd bound (Nat.not_le_of_lt late)
  | leaving token settles advance forward out => exact .inr (out late)

theorem add (placed : s.WellPlaced)
    (onward : straight → x.token.Reopens → s.stage.rank ≤ Stage.inBody.rank) :
    Adds straight x s (s.add x) := by
  unfold Construction.add
  split
  · next token => exact addText token onward
  · next token => exact addStartTag placed token onward
  · next token => exact addEndTag token
  · next token => exact .remark (by simp [Lexeme.remark?, Lexeme.remarkStop, Token.remark?, token])
  · next token => exact .remark (by simp [Lexeme.remark?, Lexeme.remarkStop, Token.remark?, token])
  · next token => exact .remark (by simp [Lexeme.remark?, Lexeme.remarkStop, Token.remark?, token])
  · next token => exact .of_ignored (by simp [token, Token.textValue, Token.remark?])

end Adds

end Construction

end LocatedHtml
