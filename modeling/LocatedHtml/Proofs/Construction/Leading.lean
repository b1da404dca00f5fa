import LocatedHtml.Proofs.NestedExtents
import LocatedHtml.Proofs.SourceLocations

/-!
What a node of a document comes before. A structural element that has a start tag starts before everything
in its section and in the sections behind, since these were empty when it came; and an end tag comes after
the start tag that it ends, also where the element is entered again.
-/

namespace LocatedHtml

namespace Construction

/-- A structural element starts no later than anything in its section or behind that. -/
def Led (s : Construction) : Prop :=
  ∀ here, ∀ tag ∈ s.frame.tags here, ∀ stage : Stage, here.rank ≤ stage.rank →
    ∀ a ∈ s.entriesAt stage, tag.start ≤ a.extent.start

variable {straight : Prop} {s r : Construction} {x : Lexeme} {xs : List Lexeme} {g new : List Entry} {tag : Extent}
  {here : Stage}

theorem mem_entriesAt_of_tag (member : tag ∈ s.frame.tags here) : ⟨tag, none⟩ ∈ s.entriesAt here :=
  List.mem_append_left _ (List.mem_append_left _ (List.mem_map.2 ⟨tag, member, rfl⟩))

theorem mem_entries_of_tag (member : tag ∈ s.frame.tags here) : ⟨tag, none⟩ ∈ s.entries := by
  have listed : here ∈ Stage.all := by cases here <;> decide
  exact List.mem_flatMap.2 ⟨here, listed, mem_entriesAt_of_tag member⟩

namespace Led

theorem initial : Led {} := by
  intro here tag member
  cases here <;> cases member

theorem congr (led : s.Led) (entries : r.entriesAt = s.entriesAt) (tags : r.frame.tags = s.frame.tags) :
    r.Led := by
  unfold Led
  rw [entries, tags]
  exact led

/-- What comes later than everything else may come anywhere. -/
theorem extend (led : s.Led)
    (changed : ∀ stage, r.entriesAt stage = s.entriesAt stage ++ if stage = here then new else [])
    (tags : r.frame.tags = s.frame.tags)
    (later : ∀ a ∈ s.entries, ∀ b ∈ new, a.extent.start ≤ b.extent.start) : r.Led := by
  intro first tag member stage behind a inside
  rw [tags] at member
  rw [changed, List.mem_append] at inside
  rcases inside with earlier | inside
  · exact led first tag member stage behind a earlier
  · split at inside
    · exact later _ (mem_entries_of_tag member) a inside
    · cases inside

theorem append (led : s.Led) {t : HtmlTree}
    (later : ∀ a ∈ s.entries, ∀ b ∈ t.entries, a.extent.start ≤ b.extent.start) : (s.append t).Led :=
  led.extend (entriesAt_append s t) (by rw [append_frame]) later

theorem settles (settles : Settles straight s r) (led : s.Led) : r.Led := by
  induction settles with
  | done => exact led
  | outward inside _ ih => exact ih (led.congr (entriesAt_outward inside rfl) (by rw [append_frame]; rfl))
  | @enter s r stage body advance same _ _ _ ih =>
    have tags : Frame.tags ⟨stage, s.html, s.head, body⟩ = s.frame.tags := tags_body same
    exact ih (led.congr (entriesAt_congr (.inr advance.settled) rfl tags rfl) tags)

/-- A structural element that comes where nothing is ahead starts before what is still to come. -/
theorem tagged (led : s.Led) (ahead : s.EmptyAhead straight) (early : s.stage.rank < Stage.inBody.rank)
    (forward : s.stage.rank < here.rank)
    (changed : ∀ stage, r.entriesAt stage = s.entriesAt stage ++ if stage = here then [⟨tag, none⟩] else [])
    (tags : r.frame.tags = Function.update s.frame.tags here [tag])
    (later : ∀ a ∈ s.entries, a.extent.start ≤ tag.start) : r.Led := by
  intro first other member stage behind a inside
  rw [changed, List.mem_append] at inside
  rw [tags] at member
  by_cases same : first = here
  · subst same
    rw [Function.update_self, List.mem_singleton] at member
    subst member
    -- The sections from the new element on were empty, so all that is there now is its own entry.
    rw [ahead.entriesAt (.inr early) (Nat.lt_of_lt_of_le forward behind)] at inside
    rcases inside with nothing | inside
    · cases nothing
    · split at inside
      · obtain rfl := List.mem_singleton.1 inside
        exact Int.le_refl _
      · cases inside
  · rw [Function.update_of_ne same] at member
    rcases inside with earlier | inside
    · exact led first other member stage behind a earlier
    · split at inside
      · rw [List.mem_singleton.1 inside]
        exact later _ (mem_entries_of_tag member)
      · cases inside

theorem endText (led : s.Led) (delivered : Delivered straight xs s g) (stop : Nat) : (s.endText stop).Led := by
  cases openText : s.openText with
  | none => rwa [endText_of_none openText]
  | some o =>
    have within := delivered.within
    rw [openText, reach] at within
    have dropped : Led { s with openText := none } := led
    unfold Construction.endText
    rw [openText]
    apply dropped.append
    intro a member b last
    rw [Tree.entries_node] at last
    rw [List.mem_singleton.1 last]
    exact Int.le_of_lt (within a (delivered.tracked.perm.mem_iff.1 member)).1

/-- A lexeme comes later than everything that others have delivered. -/
theorem add (led : s.Led) (delivered : Delivered straight xs s g) (behind : x.Behind xs)
    (adds : Adds straight x s r) : r.Led := by
  have ended := led.endText delivered x.start.offset
  have recorded := delivered.endBefore behind
  -- Elements that end and stages that are entered bring nothing, so the lexeme is still behind everything.
  have later {q : Construction} (settles : Settles straight (s.endText x.start.offset) q) :
      ∀ a ∈ q.entries, a.extent.start ≤ x.start.offset := by
    have within := recorded.within
    rw [endText_openText, reach, ← behind.offset] at within
    intro a member
    exact Int.le_of_lt (within a ((recorded.tracked.settles settles).perm.mem_iff.1 member)).1
  have brought {q : Construction} {new : List Entry} (settles : Settles straight (s.endText x.start.offset) q)
      (brings : Brings x new) : ∀ a ∈ q.entries, ∀ b ∈ new, a.extent.start ≤ b.extent.start := by
    intro a member b last
    rw [(brings.here b last).1]
    exact later settles a member
  cases adds with
  | marked html body quiet same tags => exact led.congr (entriesAt_congr (.inl rfl) rfl tags rfl) tags
  | extended => exact led
  | begun => exact led
  | @resumed r body value token settles advance same forward =>
    have entered : Led { r with stage := .inBody, body := body } :=
      ended.settles (settles.trans (.enter advance same (by decide) forward (.done _)))
    exact entered
  | remark brings => exact ended.append (brought (.done _) (.remark brings))
  | @single r name attributes selfClosing token settles staged =>
    have element : (x.element name attributes).toTree.entries = _ := OpenElement.entries_toTree _
    apply (ended.settles settles).append
    rw [element]
    exact brought settles (.element token)
  | opening token settles staged =>
    exact (ended.settles settles).extend (entriesAt_push rfl) rfl (brought settles (.element token))
  | ending token settles inside =>
    refine (ended.settles settles).congr (entriesAt_outward inside ?_) (by rw [append_frame]; rfl)
    rw [OpenElement.entries_toTree, OpenElement.entries_toTree, Location.opening_withEndTag]
  | @entering r stage html head body name attributes selfClosing token settles advance forward bound tags =>
    have tracked := recorded.tracked.settles settles
    have early : r.stage.rank < Stage.inBody.rank := Nat.lt_of_lt_of_le forward bound
    exact (ended.settles settles).tagged tracked.ahead early forward
      (tracked.entriesAt_tagged advance.settled advance.settled rfl forward bound tags) tags (later settles)
  | leaving token settles advance forward late tags =>
    exact (ended.settles settles).congr (entriesAt_congr (.inr advance.settled) rfl tags rfl) tags

theorem run {t : Text} (chained : Chained .origin t xs) (size : Nat) :
    ((xs.foldl Construction.add {}).endText size).Led := by
  obtain ⟨g, delivered, led⟩ := delivered_induction chained (fun bent : False => bent.elim)
    (motive := fun _ s => s.Led) initial
    fun _ _ _ _ _ delivered behind adds led => led.add delivered behind adds
  exact led.endText delivered size

end Led

end Construction

/-- A structural element that has a start tag starts no later than an offset, and no later than its end tag. -/
def Shell.ClosedBehind (offset : Nat) (shell : Shell) : Prop :=
  ∀ location ∈ shell.location, location.start ≤ offset ∧ ∀ endTag ∈ location.endTag?, location.start ≤ endTag.start

namespace Construction

variable {s : Construction} {x : Lexeme} {xs : List Lexeme} {t : HtmlTree}

theorem shellFact_closedBehind (x : Lexeme) : ShellFact (fun _ shell => shell.ClosedBehind x.start.offset) x where
  more _ _ _ _ _ _ closed := closed
  started _ _ _ _ := by
    rintro _ ⟨⟩
    exact ⟨Int.le_refl _, by rintro _ ⟨⟩⟩
  ended _ shell _ closed := by
    intro location present
    obtain ⟨before, there, rfl⟩ := Option.map_eq_some_iff.1 present
    obtain ⟨reached, _⟩ := closed before there
    rw [Location.start, Location.opening_withEndTag]
    refine ⟨reached, fun endTag ends => ?_⟩
    cases before with
    | plain extent => cases ends
    | element startTag endTag? given =>
      cases ends
      exact reached

theorem Shells.closedBehind {source : Text} (chained : Chained .origin source xs) :
    Shells (fun _ shell => shell.ClosedBehind (taken xs).length) (xs.foldl Construction.add {}).frame := by
  apply run_induction
    (motive := fun ys s => Shells (fun _ shell => shell.ClosedBehind (taken ys).length) s.frame)
  · exact shells_initial fun _ => by rintro _ ⟨⟩
  · intro before x after whole shells
    have behind := chained.behind whole
    have longer := behind.length_lt
    rw [← behind.offset] at shells longer
    rw [List.foldl_append]
    have added := shells.add (shellFact_closedBehind x)
    have later {shell : Shell} (closed : shell.ClosedBehind x.start.offset) :
        shell.ClosedBehind (taken (before ++ [x])).length := by
      intro location located
      obtain ⟨reached, ends⟩ := closed location located
      exact ⟨by omega, ends⟩
    exact ⟨later added.html, later added.head, later added.body⟩

/-- The head of the document, with what it holds. -/
def headTree (s : Construction) : HtmlTree := s.head.toTree "head" (s.closeAll.content .inHead)

/-- The body of the document, with what it holds. -/
def bodyTree (s : Construction) : HtmlTree := (s.body.getD {}).toTree "body" (s.closeAll.content .inBody)

/-- The `html` of the document, with what it holds. -/
def htmlTree (s : Construction) : HtmlTree :=
  s.html.toTree "html" (s.closeAll.content .beforeHead ++ s.headTree :: s.closeAll.content .afterHead ++
    s.bodyTree :: s.closeAll.content .afterBody)

/-- The children of `html` are the head, the body and the content of sections that come after its start tag. -/
theorem mem_children_htmlTree {c : HtmlTree} (child : c ∈ s.htmlTree.children) :
    c = s.headTree ∨ c = s.bodyTree ∨ ∃ stage : Stage, Stage.beforeHead.rank ≤ stage.rank ∧
      c ∈ s.closeAll.content stage := by
  rcases List.mem_append.1 child with child | child
  · rcases List.mem_append.1 child with before | child
    · exact .inr (.inr ⟨.beforeHead, by decide, before⟩)
    · rcases List.mem_cons.1 child with head | between
      · exact .inl head
      · exact .inr (.inr ⟨.afterHead, by decide, between⟩)
  · rcases List.mem_cons.1 child with body | after
    · exact .inr (.inl body)
    · exact .inr (.inr ⟨.afterBody, by decide, after⟩)

/-- A node of a document is the document, a structural element or in the content of a section. -/
theorem mem_subtrees_toTree (member : t ∈ s.toTree.subtrees) :
    t = s.toTree ∨ (t = s.htmlTree ∨ t = s.headTree ∨ t = s.bodyTree) ∨
      ∃ stage, ∃ c ∈ s.closeAll.content stage, t ∈ c.subtrees := by
  have below (stage : Stage) {u : HtmlTree} (inside : t ∈ u.subtrees)
      (held : u.children = s.closeAll.content stage) :
      t = u ∨ ∃ stage, ∃ c ∈ s.closeAll.content stage, t ∈ c.subtrees := by
    refine (Tree.mem_subtrees_iff.1 inside).imp id fun ⟨c, child, inner⟩ => ?_
    rw [held] at child
    exact ⟨stage, c, child, inner⟩
  rcases Tree.mem_subtrees_iff.1 member with same | ⟨c, child, inside⟩
  · exact .inl same
  right
  rw [toTree_eq] at child
  rcases List.mem_append.1 child with before | child
  · exact .inr ⟨_, c, before, inside⟩
  rcases List.mem_cons.1 child with rfl | after
  swap
  · exact .inr ⟨_, c, after, inside⟩
  change t ∈ s.htmlTree.subtrees at inside
  rcases Tree.mem_subtrees_iff.1 inside with same | ⟨c, child, inside⟩
  · exact .inl (.inl same)
  rcases mem_children_htmlTree child with rfl | rfl | ⟨stage, _, held⟩
  · exact (below .inHead inside rfl).imp (fun same => .inr (.inl same)) id
  · exact (below .inBody inside rfl).imp (fun same => .inr (.inr same)) id
  · exact .inr ⟨stage, c, held, inside⟩

end Construction

/-- A located node starts no later than its end tag and than each of its children. -/
structure Tree.Leads (t : HtmlTree) : Prop where
  closed : ∀ location ∈ t.value.location, ∀ endTag ∈ location.endTag?, location.start ≤ endTag.start
  children : ∀ location ∈ t.value.location, ∀ c ∈ t.children, ∀ inner ∈ c.value.location,
    location.start ≤ inner.start

theorem Placed.leads {above : List String} {t : HtmlTree} (placed : Placed above t)
    (other : t.isOrdinary = false) : t.Leads := by
  have leaf (alone : t.children = []) {extent : Extent} (located : t.value.location = some (.plain extent)) :
      t.Leads := by
    constructor
    · rw [located]
      rintro _ ⟨⟩ _ ⟨⟩
    · rw [alone]
      exact fun _ _ => List.forall_mem_nil _
  unfold Placed at placed
  unfold Tree.isOrdinary at other
  cases content : t.value.content <;> rw [content] at placed other
  case document => exact placed.elim
  case element name attributes =>
    exact absurd (placed.1.ordinary) (by simpa [Content.elementName?] using other)
  case text =>
    obtain ⟨_, alone, extent, located⟩ := placed
    exact leaf alone located
  all_goals
    obtain ⟨alone, extent, located⟩ := placed
    exact leaf alone located

theorem Tree.exists_entry {t : HtmlTree} {location : Location} (located : location ∈ t.value.location) :
    ∃ a ∈ t.entries, a.extent = location.opening := by
  obtain ⟨v, cs⟩ := t
  have present : v.location = some location := located
  rw [entries_node, Node.toEntry, present]
  exact ⟨_, List.mem_cons_self, rfl⟩

namespace Construction

variable {s : Construction} {tag : Extent} {here stage : Stage} {t c : HtmlTree}

namespace Led

theorem le_content (led : s.Led) (member : tag ∈ s.frame.tags here) (behind : here.rank ≤ stage.rank)
    (child : c ∈ s.closeAll.content stage) : ∀ inner ∈ c.value.location, tag.start ≤ inner.start := by
  intro inner located
  have settles : Settles False s s.closeAll := .closeAll s
  have closed := led.settles settles
  rw [← close_frame s s.opened.length] at member
  obtain ⟨a, entry, place⟩ := Tree.exists_entry located
  have started := closed here tag member stage behind a
    (List.mem_append_left _ (List.mem_append_right _ (List.mem_flatMap.2 ⟨c, child, entry⟩)))
  rwa [place] at started

theorem le_tag (led : s.Led) (member : tag ∈ s.frame.tags here) (behind : here.rank ≤ stage.rank) :
    ∀ other ∈ s.frame.tags stage, tag.start ≤ other.start :=
  fun other inside => led here tag member stage behind ⟨other, none⟩ (mem_entriesAt_of_tag inside)

/-- The nodes that are no ordinary elements start no later than their end tags and their children. -/
theorem toTree_leads (led : s.Led) (placed : s.Sound Placed) {size : Nat}
    (shells : Shells (fun _ shell => shell.ClosedBehind size) s.frame) (member : t ∈ s.toTree.subtrees)
    (other : t.isOrdinary = false) : t.Leads := by
  have closed {shell : Shell} (behind : shell.ClosedBehind size) {name : String} {cs : List HtmlTree}
      (children : ∀ location ∈ shell.location, ∀ c ∈ cs, ∀ inner ∈ c.value.location,
        location.start ≤ inner.start) : (shell.toTree name cs).Leads :=
    ⟨fun location located => (behind location located).2, children⟩
  have opening {shell : Shell} {location : Location} (located : location ∈ shell.location) :
      location.opening ∈ (shell.location.map Location.opening).toList := by
    rw [Option.mem_def.1 located]
    exact List.mem_singleton_self _
  rcases mem_subtrees_toTree member with rfl | (rfl | rfl | rfl) | ⟨stage, c, child, inside⟩
  · constructor <;> rintro _ ⟨⟩
  · apply closed shells.html
    intro location located c child inner inner_at
    have tag : location.opening ∈ s.frame.tags .beforeHead := opening located
    rcases mem_children_htmlTree child with rfl | rfl | ⟨stage, behind, held⟩
    · have behind : Stage.beforeHead.rank ≤ Stage.inHead.rank := by decide
      exact led.le_tag tag behind inner.opening (opening inner_at)
    · have behind : Stage.beforeHead.rank ≤ Stage.inBody.rank := by decide
      exact led.le_tag tag behind inner.opening (opening inner_at)
    · exact led.le_content tag behind held inner inner_at
  · apply closed shells.head
    intro location located c child
    have tag : location.opening ∈ s.frame.tags .inHead := opening located
    exact led.le_content tag (Nat.le_refl _) child
  · apply closed shells.body
    intro location located c child
    have tag : location.opening ∈ s.frame.tags .inBody := opening located
    exact led.le_content tag (Nat.le_refl _) child
  · have sound : s.closeAll.Sound Placed := placed.close s.opened.length
    obtain ⟨above, stands⟩ := (sound.content stage c child).at_subtree inside
    exact stands.leads other

end Led

end Construction

variable {source : Text} {tree : HtmlTree}

/-- The start tag of an element takes some of the source. -/
theorem Extent.lt_of_startTag {name : String} {e : Extent} (reads : IsStartTag name (e.slice source)) :
    e.start.toNat < e.stop.toNat := by
  obtain ⟨written, rest, shape, _⟩ := reads
  have length := congrArg List.length shape
  rw [slice, List.length_drop, List.length_take, List.length_append, List.length_singleton] at length
  omega

/-- Every node of a document that is located starts no later than its end tag and its children. -/
theorem parseHtml_leads (parsed : parseHtml source = .ok tree) : ∀ t ∈ tree.subtrees, t.Leads := by
  intro t member
  cases ordinary : t.isOrdinary with
  | true =>
    obtain ⟨startTag, endTag?, given, located, nest⟩ := parseHtml_nest parsed member ordinary
    obtain ⟨_, faithful⟩ := (parseHtml_everywhereFaithful parsed).at_subtree member
    have forward : startTag.start ≤ startTag.stop := by
      unfold Tree.isOrdinary at ordinary
      obtain ⟨name, named, _⟩ := (Option.any_eq_true _ _).1 ordinary
      have lt := Extent.lt_of_startTag (faithful.startTag name named _ located)
      change startTag.start.toNat < startTag.stop.toNat at lt
      omega
    constructor
    · rw [located]
      rintro _ ⟨⟩ endTag closed
      exact Int.le_trans forward (nest.closed endTag closed).1
    · rw [located]
      rintro _ ⟨⟩ c child inner inner_at
      have below : c ∈ t.descendants := List.mem_flatMap.2 ⟨c, child, Tree.mem_subtrees_self c⟩
      have behind := nest.opened c below
      rw [Node.start_eq inner_at] at behind
      exact Int.le_trans forward behind
  | false =>
    obtain ⟨xs, cut, rfl⟩ := parseHtml_eq_toTree parsed
    have chained := lexemes_chained cut
    have placed := (Construction.WellPlaced.of_lexemes xs).endText source.length
    have shells := (Construction.Shells.closedBehind chained).endText source.length
    exact (Construction.Led.run chained source.length).toTree_leads placed shells member ordinary

end LocatedHtml
