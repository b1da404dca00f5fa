import LocatedHtml.Proofs.Construction.Finished
import LocatedHtml.Proofs.Construction.Steps

/-!
The located nodes of a document in document order, and of a construction as it stands. Whatever a lexeme
brings is entered behind all others of its section. Where no section is entered twice it is then the last
of all, and otherwise the others only stand in another order.
-/

namespace LocatedHtml

/-- What never changes of a located node: the piece that it starts with, and its content unless it is an
element. -/
structure Entry where
  extent : Extent
  content : Option Content

/-- The entry of a node that has a place in the source. -/
def Node.toEntry (v : Node) : Option Entry :=
  v.location.map fun location =>
    ⟨location.opening, if v.content.isElement then none else some v.content⟩

/-- The entries of a tree in document order. -/
def Tree.entries (t : HtmlTree) : List Entry := t.subtrees.filterMap (·.value.toEntry)

theorem Tree.entries_node (v : Node) (cs : List HtmlTree) :
    Tree.entries (.node v cs) = v.toEntry.toList ++ cs.flatMap Tree.entries := by
  rw [entries, subtrees_node, List.filterMap_cons, List.filterMap_flatMap, Tree.value]
  cases v.toEntry <;> rfl

theorem OpenElement.entries_toTree (e : OpenElement) :
    e.toTree.entries = ⟨e.location.opening, none⟩ :: e.children.flatMap Tree.entries :=
  Tree.entries_node _ _

theorem Shell.entries_toTree (shell : Shell) (name : String) (cs : List HtmlTree) :
    (shell.toTree name cs).entries =
      (shell.location.map Location.opening).toList.map (⟨·, none⟩) ++ cs.flatMap Tree.entries := by
  rw [toTree, Tree.entries_node]
  cases shell.location <;> simp [Node.toEntry, Content.isElement]

/-- What is added in one section comes behind everything in it, and last of all if nothing is in the
sections behind. -/
theorem flatMap_stages {α : Type} {f g : Stage → List α} {here : Stage} {new : List α}
    (changed : ∀ stage, g stage = f stage ++ if stage = here then new else []) :
    (Stage.all.flatMap g).Perm (Stage.all.flatMap f ++ new) ∧
      ((∀ stage, here.rank < stage.rank → f stage = []) →
        Stage.all.flatMap g = Stage.all.flatMap f ++ new) := by
  have same (p : Stage → Bool) (other : p here = false) :
      (Stage.all.filter p).flatMap g = (Stage.all.filter p).flatMap f := by
    apply List.flatMap_congr
    intro stage member
    have apart : stage ≠ here := by
      rintro rfl
      rw [(List.mem_filter.1 member).2] at other
      cases other
    rw [changed, if_neg apart, List.append_nil]
  have before := same (·.rank < here.rank) (by simp)
  have after := same (here.rank < ·.rank) (by simp)
  have own : g here = f here ++ new := by rw [changed, if_pos rfl]
  rw [Stage.all_eq here, Stage.upTo_last]
  simp only [List.flatMap_append, List.flatMap_singleton, before, after, own, List.append_assoc]
  constructor
  · exact (List.perm_append_comm.append_left _).append_left _
  · intro empty
    have nothing : (Stage.all.filter (here.rank < ·.rank)).flatMap f = [] := by
      simp only [List.flatMap_eq_nil_iff, List.mem_filter, decide_eq_true_eq]
      exact fun stage behind => empty stage behind.2
    rw [nothing, List.append_nil, List.nil_append]

namespace Construction

/-- The entries of the section that a stage opens. -/
def entriesAt (s : Construction) (stage : Stage) : List Entry :=
  (s.frame.tags stage).map (⟨·, none⟩) ++ (s.content stage).flatMap Tree.entries ++
    if stage = s.stage then s.opened.reverse.flatMap (·.toTree.entries) else []

/-- The entries of a construction in the order in which its document has them. -/
def entries (s : Construction) : List Entry := Stage.all.flatMap s.entriesAt

/-- The entry that open text leaves when it ends at an offset. -/
def textEntry (s : Construction) (stop : Nat) : List Entry :=
  (s.openText.map fun o => ⟨.ofMark o.start stop, some (.text o.value)⟩).toList

theorem mem_textEntry {s : Construction} {stop : Nat} {a : Entry} : a ∈ s.textEntry stop ↔
    ∃ o, s.openText = some o ∧ a = ⟨.ofMark o.start stop, some (.text o.value)⟩ := by
  cases opened : s.openText <;> simp [textEntry, opened]

/-- Nothing is in the sections to come. The body can be entered again, unless the way goes straight on. -/
def EmptyAhead (straight : Prop) (s : Construction) : Prop :=
  ∀ stage, straight ∨ s.stage.rank < Stage.inBody.rank → s.stage.rank < stage.rank →
    s.frame.tags stage = [] ∧ s.content stage = []

variable {straight : Prop} {s r : Construction} {x : Lexeme} {g : List Entry}

theorem entriesAt_append (s : Construction) (t : HtmlTree) (stage : Stage) :
    (s.append t).entriesAt stage = s.entriesAt stage ++ if stage = s.stage then t.entries else [] := by
  unfold entriesAt
  rw [append_frame, append_stage]
  cases inside : s.opened with
  | nil =>
    rw [content_append inside, append_opened inside]
    split <;> simp
  | cons e outer =>
    rw [content_append_inside (by simp [inside]), append_inside inside]
    split <;> simp [OpenElement.entries_toTree]

/-- An element that ends is entered where it was open already, whatever its end tag. -/
theorem entriesAt_outward {e : OpenElement} {outer : List OpenElement} (inside : s.opened = e :: outer)
    {t : HtmlTree} (same : t.entries = e.toTree.entries) :
    (append { s with opened := outer } t).entriesAt = s.entriesAt := by
  funext stage
  have frame : frame { s with opened := outer } = s.frame := rfl
  have content : content { s with opened := outer } stage = s.content stage := by cases stage <;> rfl
  rw [entriesAt_append, entriesAt, entriesAt, inside, frame, content, same]
  split <;> simp

theorem entriesAt_push {e : OpenElement} (empty : e.children = []) (stage : Stage) :
    entriesAt { s with opened := e :: s.opened } stage =
      s.entriesAt stage ++ if stage = s.stage then [⟨e.location.opening, none⟩] else [] := by
  have frame : frame { s with opened := e :: s.opened } = s.frame := rfl
  have content : content { s with opened := e :: s.opened } stage = s.content stage := by
    cases stage <;> rfl
  have entry : e.toTree.entries = [⟨e.location.opening, none⟩] := by
    rw [OpenElement.entries_toTree, empty, List.flatMap_nil]
  rw [entriesAt, entriesAt, frame, content]
  split <;> simp [entry]

theorem entriesAt_congr (here : r.stage = s.stage ∨ s.opened = []) (opened : r.opened = s.opened)
    (tags : r.frame.tags = s.frame.tags) (content : r.content = s.content) :
    r.entriesAt = s.entriesAt := by
  funext stage
  rcases here with here | settled
  · simp [entriesAt, here, opened, tags, content]
  · simp [entriesAt, opened, settled, tags, content]

theorem tags_body {stage : Stage} {body : Option Shell} (same : body.getD {} = s.body.getD {}) :
    Frame.tags ⟨stage, s.html, s.head, body⟩ = s.frame.tags := by
  funext next
  cases next <;> simp [Frame.tags, frame, same]

theorem EmptyAhead.entriesAt (ahead : s.EmptyAhead straight) {stage : Stage}
    (onward : straight ∨ s.stage.rank < Stage.inBody.rank) (later : s.stage.rank < stage.rank) :
    s.entriesAt stage = [] := by
  obtain ⟨tags, content⟩ := ahead stage onward later
  have apart : stage ≠ s.stage := by
    rintro rfl
    omega
  rw [Construction.entriesAt, tags, content, if_neg apart]
  rfl

theorem EmptyAhead.congr (ahead : s.EmptyAhead straight) (stage : r.stage = s.stage)
    (tags : r.frame.tags = s.frame.tags)
    (content : ∀ stage, s.stage.rank < stage.rank → r.content stage = s.content stage) :
    r.EmptyAhead straight := by
  intro next onward later
  rw [stage] at onward later
  rw [tags, content next later]
  exact ahead next onward later

theorem EmptyAhead.append (ahead : s.EmptyAhead straight) (t : HtmlTree) : (s.append t).EmptyAhead straight := by
  apply ahead.congr (append_stage s t) (by rw [append_frame])
  intro stage later
  apply content_append_other
  rintro rfl
  omega

theorem EmptyAhead.enter (ahead : s.EmptyAhead straight) (content : r.content = s.content)
    (forward : s.stage.rank < r.stage.rank ∨ ¬straight ∧ r.stage = .inBody)
    (tags : ∀ stage, r.stage.rank < stage.rank → r.frame.tags stage = s.frame.tags stage) :
    r.EmptyAhead straight := by
  intro stage onward later
  rcases forward with forward | ⟨bent, back⟩
  · have earlier : straight ∨ s.stage.rank < Stage.inBody.rank := by
      rcases onward with onward | onward
      · exact .inl onward
      · right
        omega
    rw [tags stage later, content]
    exact ahead stage earlier (by omega)
  · rw [back] at onward
    rcases onward with onward | onward
    · exact absurd onward bent
    · exact absurd onward (Nat.lt_irrefl _)

/-- The entries that a construction has got, in the order in which they came. -/
structure Tracked (straight : Prop) (s : Construction) (g : List Entry) : Prop where
  perm : s.entries.Perm g
  order : straight → s.entries = g
  ahead : s.EmptyAhead straight

namespace Tracked

theorem initial : Tracked straight {} [] where
  perm := .refl _
  order _ := rfl
  ahead stage _ _ := by cases stage <;> exact ⟨rfl, rfl⟩

theorem congr (tracked : s.Tracked straight g) (entries : r.entriesAt = s.entriesAt)
    (ahead : r.EmptyAhead straight) : r.Tracked straight g where
  perm := by
    rw [Construction.entries, entries]
    exact tracked.perm
  order holds := by
    rw [Construction.entries, entries]
    exact tracked.order holds
  ahead := ahead

/-- What comes in one section behind everything in it comes last, if the sections behind have nothing. -/
theorem extend (tracked : s.Tracked straight g) {here : Stage} {new : List Entry}
    (changed : ∀ stage, r.entriesAt stage = s.entriesAt stage ++ if stage = here then new else [])
    (last : straight → ∀ stage, here.rank < stage.rank → s.entriesAt stage = [])
    (ahead : r.EmptyAhead straight) : r.Tracked straight (g ++ new) := by
  obtain ⟨perm, equal⟩ := flatMap_stages changed
  refine ⟨perm.trans (tracked.perm.append_right _), ?_, ahead⟩
  intro holds
  rw [← tracked.order holds]
  exact equal (last holds)

theorem append (tracked : s.Tracked straight g) (t : HtmlTree) :
    (s.append t).Tracked straight (g ++ t.entries) := by
  apply tracked.extend (entriesAt_append s t) _ (tracked.ahead.append t)
  exact fun holds stage later => tracked.ahead.entriesAt (.inl holds) later

theorem endText (tracked : s.Tracked straight g) (stop : Nat) :
    (s.endText stop).Tracked straight (g ++ s.textEntry stop) := by
  cases openText : s.openText with
  | none => simpa [textEntry, openText, endText_of_none openText] using tracked
  | some o =>
    have dropped : Tracked straight { s with openText := none } g :=
      ⟨tracked.perm, tracked.order, tracked.ahead⟩
    have appended := dropped.append
      (.node ⟨.text o.value, some (.plain (.ofMark o.start stop))⟩ [])
    simpa [Construction.endText, textEntry, openText, Tree.entries_node, Node.toEntry,
      Content.isElement, Location.opening] using appended

theorem settles (settles : Settles straight s r) (tracked : s.Tracked straight g) :
    r.Tracked straight g := by
  induction settles with
  | done => exact tracked
  | @outward s r e outer inside _ ih =>
    apply ih
    apply tracked.congr (entriesAt_outward inside rfl)
    have dropped : EmptyAhead straight { s with opened := outer } := tracked.ahead
    exact dropped.append _
  | @enter s r stage body advance same bound forward _ ih =>
    apply ih
    have tags : Frame.tags ⟨stage, s.html, s.head, body⟩ = s.frame.tags := tags_body same
    refine tracked.congr (entriesAt_congr (.inr advance.settled) rfl tags rfl)
      (tracked.ahead.enter rfl ?_ fun next _ => congrFun tags next)
    by_cases holds : straight
    · exact .inl (forward holds)
    · exact advance.forward.imp id (⟨holds, ·⟩)

theorem marked (tracked : s.Tracked straight g) {html : Shell} {body : Option Shell}
    (tags : Frame.tags ⟨s.stage, html, s.head, body⟩ = s.frame.tags) :
    Tracked straight { s with html := html, body := body } g :=
  tracked.congr (entriesAt_congr (.inl rfl) rfl tags rfl)
    (tracked.ahead.congr rfl tags fun _ _ => rfl)

theorem opening (tracked : s.Tracked straight g) {e : OpenElement} (empty : e.children = []) :
    Tracked straight { s with opened := e :: s.opened } (g ++ [⟨e.location.opening, none⟩]) := by
  apply tracked.extend (entriesAt_push empty) _ tracked.ahead
  exact fun holds stage later => tracked.ahead.entriesAt (.inl holds) later

theorem ending (tracked : s.Tracked straight g) {e : OpenElement} {outer : List OpenElement}
    (inside : s.opened = e :: outer) (endTag : Extent) :
    Tracked straight (Construction.append { s with opened := outer }
      { e with location := e.location.withEndTag endTag }.toTree) g := by
  have dropped : EmptyAhead straight { s with opened := outer } := tracked.ahead
  refine tracked.congr (entriesAt_outward inside ?_) (dropped.append _)
  rw [OpenElement.entries_toTree, OpenElement.entries_toTree, Location.opening_withEndTag]

theorem resumed (tracked : s.Tracked straight g) {body : Option Shell} (advance : s.Advance .inBody body)
    (same : body.getD {} = s.body.getD {}) (forward : straight → s.stage.rank < Stage.inBody.rank) :
    Tracked straight { s with stage := .inBody, body := body } g := by
  have entered : Settles straight s { s with stage := .inBody, body := body } :=
    .enter advance same (by decide) forward (.done _)
  exact tracked.settles entered

/-- A structural element that comes where nothing is ahead is alone in its section. -/
theorem entriesAt_tagged (tracked : s.Tracked straight g) {tag : Extent} (settled : s.opened = [])
    (opened : r.opened = []) (content : r.content = s.content)
    (forward : s.stage.rank < r.stage.rank) (bound : r.stage.rank ≤ Stage.inBody.rank)
    (tags : r.frame.tags = Function.update s.frame.tags r.stage [tag]) (stage : Stage) :
    r.entriesAt stage = s.entriesAt stage ++ if stage = r.stage then [⟨tag, none⟩] else [] := by
  by_cases here : stage = r.stage
  · subst here
    obtain ⟨none, empty⟩ := tracked.ahead _ (.inr (by omega)) forward
    simp [entriesAt, settled, opened, none, tags, content, empty]
  · simp [entriesAt, settled, tags, content, here]

theorem tagged (tracked : s.Tracked straight g) {tag : Extent} (settled : s.opened = [])
    (opened : r.opened = []) (content : r.content = s.content)
    (forward : s.stage.rank < r.stage.rank) (bound : r.stage.rank ≤ Stage.inBody.rank)
    (tags : r.frame.tags = Function.update s.frame.tags r.stage [tag]) :
    r.Tracked straight (g ++ [⟨tag, none⟩]) := by
  have early : s.stage.rank < Stage.inBody.rank := by omega
  have changed := tracked.entriesAt_tagged settled opened content forward bound tags
  refine tracked.extend changed ?_ (tracked.ahead.enter content (.inl forward) ?_)
  · intro _ stage later
    exact tracked.ahead.entriesAt (.inr early) (by omega)
  · intro stage later
    have apart : stage ≠ r.stage := by
      rintro rfl
      omega
    rw [tags, Function.update_of_ne apart]

theorem entering (tracked : s.Tracked straight g) {stage : Stage} {html head : Shell}
    {body : Option Shell} {tag : Extent} (advance : s.Advance stage body)
    (forward : s.stage.rank < stage.rank) (bound : stage.rank ≤ Stage.inBody.rank)
    (tags : Frame.tags ⟨stage, html, head, body⟩ = Function.update s.frame.tags stage [tag]) :
    Tracked straight { s with stage := stage, html := html, head := head, body := body }
      (g ++ [⟨tag, none⟩]) :=
  tracked.tagged advance.settled advance.settled rfl forward bound tags

theorem leaving (tracked : s.Tracked straight g) {stage : Stage} {html head : Shell}
    {body : Option Shell} (advance : s.Advance stage body) (forward : s.stage.rank < stage.rank)
    (tags : Frame.tags ⟨stage, html, head, body⟩ = s.frame.tags) :
    Tracked straight { s with stage := stage, html := html, head := head, body := body } g :=
  tracked.congr (entriesAt_congr (.inr advance.settled) rfl tags rfl)
    (tracked.ahead.enter rfl (.inl forward) fun next _ => congrFun tags next)

/-- The document of a construction has the entries of the construction. -/
theorem toTree (tracked : s.Tracked straight g) : s.toTree.entries.Perm g ∧ (straight → s.toTree.entries = g) := by
  have closed := tracked.settles (.closeAll s)
  have same : s.toTree.entries = s.closeAll.entries := by
    have frame : s.closeAll.frame = s.frame := close_frame s _
    have settled := closeAll_opened s
    rw [toTree_eq, Tree.entries_node]
    simp [Construction.entries, entriesAt, Stage.all, Shell.entries_toTree, Node.toEntry, frame, settled,
      Frame.tags]
    simp [Construction.frame]
  rw [same]
  exact ⟨closed.perm, closed.order⟩

end Tracked

end Construction

end LocatedHtml
