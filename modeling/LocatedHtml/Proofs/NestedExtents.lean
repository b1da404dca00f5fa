import LocatedHtml.Proofs.Construction.Spacing
import LocatedHtml.Proofs.DocumentShape

/-!
The extents of elements nest as the elements do. What an element holds lies between its tags, in order,
and two elements that have end tags lie one inside of the other just where one is below the other.
-/

namespace LocatedHtml

namespace Tree

/-- Everything below the top, in document order. -/
def descendants (t : HtmlTree) : List HtmlTree := t.children.flatMap subtrees

/-- True of an element that no structural name is the name of. -/
def isOrdinary (t : HtmlTree) : Bool :=
  t.value.content.elementName?.any fun name => !structuralNames.contains name

end Tree

/-- What is below an element lies behind its start tag and before its end tag, one child behind the other.
A comment is only known to start there. -/
structure ExtentsNest (startTag : Extent) (endTag? : Option Extent) (e : HtmlTree) : Prop where
  located : ∀ d ∈ e.descendants, d.value.location ≠ none
  opened : ∀ d ∈ e.descendants, startTag.stop ≤ d.value.start
  closed : ∀ endTag ∈ endTag?, startTag.stop ≤ endTag.start ∧ ∀ d ∈ e.descendants,
    d.value.start < endTag.start ∧ (d.value.content.isComment = false → d.value.stop ≤ endTag.start)
  apart : e.children.Pairwise fun a b => a.value.content.isComment = false → a.value.stop ≤ b.value.start

/-- The second element is below the first one and lies inside of it, or neither. -/
def NestedOrApart (u v : HtmlTree) : Prop :=
  (v ∈ u.descendants ∧ u.value.start < v.value.start ∧ v.value.stop < u.value.stop) ∨
    (v ∉ u.descendants ∧ u.value.stop ≤ v.value.start)

/-- The extents of the ordinary elements of a document nest as these do. -/
structure NestedExtents (tree : HtmlTree) : Prop where
  nested : ∀ e ∈ tree.subtrees, e.isOrdinary = true → ∃ startTag endTag? given,
    e.value.location = some (.element startTag endTag? given) ∧ ExtentsNest startTag endTag? e
  pairs : (tree.subtrees.filter fun e => e.isOrdinary && e.value.isClosed).Pairwise NestedOrApart

theorem Tree.subtrees_eq (t : HtmlTree) : t.subtrees = t :: t.descendants := by
  cases t
  exact subtrees_node _ _

theorem Tree.mem_subtrees_of_descendant {t u v : HtmlTree} (inner : u ∈ t.subtrees)
    (below : v ∈ u.descendants) : v ∈ t.subtrees := by
  apply mem_subtrees_trans _ inner
  rw [subtrees_eq]
  exact List.mem_cons_of_mem _ below

theorem Tree.isComment_of_isOrdinary {t : HtmlTree} (ordinary : t.isOrdinary = true) :
    t.value.content.isComment = false := by
  unfold isOrdinary at ordinary
  cases content : t.value.content <;> first | rfl | simp [content, Content.elementName?] at ordinary

theorem Shaped.ordinary_located {above : List String} {t : HtmlTree} (shaped : Shaped above t)
    (ordinary : t.isOrdinary = true) :
    ∃ startTag endTag given, t.value.location = some (.element startTag endTag given) := by
  unfold Tree.isOrdinary at ordinary
  cases content : t.value.content <;> simp [content, Content.elementName?] at ordinary
  rcases shaped with placed | structural
  · unfold Placed at placed
    rw [content] at placed
    exact placed.2.2
  · unfold Structural at structural
    rw [content] at structural
    rcases structural.1 with ⟨rfl, _⟩ | ⟨rfl | rfl, _⟩ <;> exact absurd ordinary (by decide)

/-- The node of a tree starts between two offsets, and it ends there too unless it is a comment. -/
structure LiesIn (lo hi : Int) (d : HtmlTree) : Prop where
  located : d.value.location ≠ none
  starts : lo ≤ d.value.start
  before : d.value.start < hi
  ends : d.value.content.isComment = false → d.value.stop ≤ hi

namespace LiesIn

variable {lo hi : Int}

theorem of_location {v : Node} {cs : List HtmlTree} {location : Location}
    (located : v.location = some location) (starts : lo ≤ location.start) (before : location.start < hi)
    (ends : v.content.isComment = false → location.stop ≤ hi) : LiesIn lo hi (.node v cs) where
  located := by rw [Tree.value, located]; exact Option.some_ne_none _
  starts := by rwa [Tree.value, Node.start_eq located]
  before := by rwa [Tree.value, Node.start_eq located]
  ends := by rwa [Tree.value, Node.stop_eq located]

theorem mono {d : HtmlTree} (lies : LiesIn lo hi d) {wider further : Int} (lower : wider ≤ lo)
    (upper : hi ≤ further) : LiesIn wider further d where
  located := lies.located
  starts := Int.le_trans lower lies.starts
  before := Int.lt_of_lt_of_le lies.before upper
  ends other := Int.le_trans (lies.ends other) upper

end LiesIn

namespace Laid

variable {lo hi : Int} {t : HtmlTree} {ts : List HtmlTree}

theorem uncons (laid : Laid lo (t :: ts) hi) : ∃ mid, Laid lo [t] mid ∧ Laid mid ts hi := by
  cases laid with
  | leaf located starts before ends more =>
    exact ⟨_, .leaf located starts before ends (.nil (Int.le_refl _)), more⟩
  | element located starts tag inner within ended more =>
    exact ⟨_, .element located starts tag inner within ended (.nil (Int.le_refl _)), more⟩

theorem bounds (laid : Laid lo ts hi) : ∀ d ∈ ts.flatMap Tree.subtrees, LiesIn lo hi d := by
  induction laid with
  | nil => exact fun d member => absurd member List.not_mem_nil
  | @leaf lo mid hi v extent ts located starts before ends more ih =>
    have room := more.le
    intro d member
    rw [List.flatMap_cons, Tree.subtrees_node, List.flatMap_nil, List.singleton_append] at member
    rcases List.mem_cons.1 member with rfl | later
    · exact (LiesIn.of_location located starts before ends).mono (Int.le_refl lo) room
    · exact (ih d later).mono (by omega) (Int.le_refl hi)
  | @element lo inside mid hi v cs ts startTag endTag? given located starts tag inner within ended more
      inner_ih more_ih =>
    have held := inner.le
    have room := more.le
    intro d member
    rw [List.flatMap_cons, Tree.subtrees_node] at member
    rcases List.mem_append.1 member with own | later
    · rcases List.mem_cons.1 own with rfl | below
      · have before : startTag.start < mid := by omega
        have ends : (Location.element startTag endTag? given).stop ≤ mid := by
          cases closed : endTag? with
          | none =>
            change startTag.stop ≤ mid
            omega
          | some endTag =>
            exact (ended endTag closed).2.2
        exact (LiesIn.of_location located starts before fun _ => ends).mono (Int.le_refl lo) room
      · exact (inner_ih d below).mono (by omega) (by omega)
    · exact (more_ih d later).mono (by omega) (Int.le_refl hi)

theorem apart (laid : Laid lo ts hi) :
    ts.Pairwise fun a b => a.value.content.isComment = false → a.value.stop ≤ b.value.start := by
  induction ts generalizing lo with
  | nil => exact .nil
  | cons t ts ih =>
    obtain ⟨mid, first, more⟩ := laid.uncons
    refine List.pairwise_cons.2 ⟨?_, ih more⟩
    intro b later other
    have ends := (first.bounds t (by simp [Tree.mem_subtrees_self])).ends other
    have starts := (more.bounds b (List.mem_flatMap.2 ⟨b, later, Tree.mem_subtrees_self b⟩)).starts
    omega

theorem nest (laid : Laid lo ts hi) : ∀ e ∈ ts.flatMap Tree.subtrees, ∀ startTag endTag? given,
    e.value.location = some (.element startTag endTag? given) → ExtentsNest startTag endTag? e := by
  induction laid with
  | nil => exact fun e member => absurd member List.not_mem_nil
  | @leaf lo mid hi v extent ts located starts before ends more ih =>
    intro e member startTag endTag? given element
    rw [List.flatMap_cons, Tree.subtrees_node, List.flatMap_nil, List.singleton_append] at member
    rcases List.mem_cons.1 member with rfl | later
    · rw [Tree.value, located] at element
      cases element
    · exact ih e later startTag endTag? given element
  | @element lo inside mid hi v cs ts startTag endTag? given located starts tag inner within ended more
      inner_ih more_ih =>
    intro e member startTag' endTag' given' element
    rw [List.flatMap_cons, Tree.subtrees_node] at member
    rcases List.mem_append.1 member with own | later
    · rcases List.mem_cons.1 own with rfl | below
      · rw [Tree.value, located] at element
        cases element
        have held := inner.le
        refine ⟨?_, ?_, ?_, inner.apart⟩
        · exact fun d below => (inner.bounds d below).located
        · exact fun d below => (inner.bounds d below).starts
        · intro endTag closed
          have tag := ended endTag closed
          refine ⟨by omega, fun d below => ?_⟩
          have lies := (inner.bounds d below).mono (Int.le_refl _) tag.1
          exact ⟨lies.before, lies.ends⟩
      · exact inner_ih e below _ _ _ element
    · exact more_ih e later _ _ _ element

theorem apart_later {mid : Int} (first : Laid lo [t] mid) (more : Laid mid ts hi) {u v : HtmlTree}
    (inner : u ∈ t.subtrees) (later : v ∈ ts.flatMap Tree.subtrees) (ordinary : u.isOrdinary = true) :
    NestedOrApart u v := by
  have bounds := first.bounds
  rw [List.flatMap_singleton] at bounds
  have starts := (more.bounds v later).starts
  right
  constructor
  · intro below
    have before := (bounds v (Tree.mem_subtrees_of_descendant inner below)).before
    omega
  · have ends := (bounds u inner).ends (Tree.isComment_of_isOrdinary ordinary)
    omega

/-- Of two elements in document order the first one, if it has an end tag, ends where the second one is
below it behind that, and else before that. -/
theorem pairs (laid : Laid lo ts hi) : (ts.flatMap Tree.subtrees).Pairwise fun u v =>
    u.isOrdinary = true → u.value.isClosed = true → v.isOrdinary = true → NestedOrApart u v := by
  induction laid with
  | nil => exact .nil
  | @leaf lo mid hi v extent ts located starts before ends more ih =>
    have first : Laid lo [.node v []] mid := .leaf located starts before ends (.nil (Int.le_refl _))
    rw [List.flatMap_cons, List.pairwise_append]
    refine ⟨?_, ih, fun u inner w later ordinary _ _ => first.apart_later more inner later ordinary⟩
    rw [Tree.subtrees_node]
    exact List.pairwise_singleton _ _
  | @element lo inside mid hi v cs ts startTag endTag? given located starts tag inner within ended more
      inner_ih more_ih =>
    have first : Laid lo [.node v cs] mid :=
      .element located starts tag inner within ended (.nil (Int.le_refl _))
    -- Two elements are in different trees, or one is the top of the other, or both are inside.
    rw [List.flatMap_cons, List.pairwise_append]
    refine ⟨?_, more_ih, fun u inner w later ordinary _ _ => first.apart_later more inner later ordinary⟩
    rw [Tree.subtrees_node, List.pairwise_cons]
    refine ⟨?_, inner_ih⟩
    intro w below _ isClosed ordinary
    obtain ⟨_, behind, before, ends⟩ := inner.bounds w below
    have ends := ends (Tree.isComment_of_isOrdinary ordinary)
    cases closed : endTag? with
    | none => simp [Tree.value, Node.isClosed, located, closed, Location.isClosed, Location.endTag?] at isClosed
    | some endTag =>
      have bound := ended endTag closed
      have start : v.start = startTag.start := Node.start_eq located
      have stop : v.stop = endTag.stop := by rw [Node.stop_eq located, closed]; rfl
      refine .inl ⟨below, ?_, ?_⟩
      · simp only [Tree.value, start] at behind ⊢
        omega
      · simp only [Tree.value, stop] at ends ⊢
        omega

end Laid

namespace Construction

variable {s : Construction}

/-- Outside of head and body there are no elements but the structural ones. -/
theorem Sound.ordinary_outside (sound : s.Sound Placed) {stage : Stage} (outside : ¬stage.hasOpened) :
    ((s.content stage).flatMap Tree.subtrees).filter Tree.isOrdinary = [] := by
  have unnamed := List.filterMap_eq_nil_iff.1 (sound.unnamed outside)
  rw [List.filter_eq_nil_iff]
  intro u member
  obtain ⟨t, inside, below⟩ := List.mem_flatMap.1 member
  have named := unnamed t inside
  have placed := (sound.content stage t inside).top
  have leaf : t.children = [] := by
    unfold Placed at placed
    cases content : t.value.content <;> rw [content] at placed named
    case document => exact placed.elim
    case element => cases named
    case text => exact placed.2.1
    all_goals exact placed.1
  have same : u = t := by
    rw [Tree.subtrees_eq, Tree.descendants, leaf, List.flatMap_nil] at below
    exact List.mem_singleton.1 below
  rw [same, Tree.isOrdinary, named]
  simp

theorem ordinary_shell (shell : Shell) {name : String} (structural : name ∈ structuralNames)
    (cs : List HtmlTree) : (shell.toTree name cs).isOrdinary = false := by
  simp [Tree.isOrdinary, Shell.toTree, Tree.value, Content.elementName?, structural]

/-- The ordinary elements of a document are those in head and body. -/
theorem Sound.ordinary_toTree (sound : s.Sound Placed) :
    s.toTree.subtrees.filter Tree.isOrdinary =
      ((s.closeAll.content .inHead ++ s.closeAll.content .inBody).flatMap Tree.subtrees).filter
        Tree.isOrdinary := by
  have closed : s.closeAll.Sound Placed := sound.close s.opened.length
  have outside (stage : Stage) := @Sound.ordinary_outside s.closeAll closed stage
  have shell (shell : Shell) {name : String} (structural : name ∈ structuralNames) (cs : List HtmlTree) :
      (shell.toTree name cs).subtrees.filter Tree.isOrdinary =
        (cs.flatMap Tree.subtrees).filter Tree.isOrdinary := by
    rw [Tree.subtrees_eq, List.filter_cons_of_neg (by simp [ordinary_shell shell structural])]
    rfl
  have html (cs) := shell s.html (by decide : "html" ∈ structuralNames) cs
  have head (cs) := shell s.head (by decide : "head" ∈ structuralNames) cs
  have body (cs) := shell (s.body.getD {}) (by decide : "body" ∈ structuralNames) cs
  have document (cs : List HtmlTree) : (Tree.node ⟨.document, none⟩ cs).isOrdinary = false := rfl
  rw [toTree_eq, Tree.subtrees_node, List.filter_cons_of_neg (by simp [document])]
  simp [List.flatMap_append, List.filter_append, html, head, body, outside, Stage.hasOpened]

end Construction

variable {source : Text} {tree : HtmlTree}

theorem parseHtml_laid (parsed : parseHtml source = .ok tree) :
    ∃ ts, Laid 0 ts source.length ∧
      tree.subtrees.filter Tree.isOrdinary = (ts.flatMap Tree.subtrees).filter Tree.isOrdinary := by
  obtain ⟨xs, cut, rfl⟩ := parseHtml_eq_toTree parsed
  have chained := lexemes_chained cut
  have sound := (Construction.WellPlaced.of_lexemes xs).endText source.length
  exact ⟨_, Construction.laid_run chained chained.length_le, sound.ordinary_toTree⟩

theorem parseHtml_nest (parsed : parseHtml source = .ok tree) {e : HtmlTree} (member : e ∈ tree.subtrees)
    (ordinary : e.isOrdinary = true) :
    ∃ startTag endTag? given,
      e.value.location = some (.element startTag endTag? given) ∧ ExtentsNest startTag endTag? e := by
  obtain ⟨ts, laid, same⟩ := parseHtml_laid parsed
  have inside : e ∈ tree.subtrees.filter Tree.isOrdinary := List.mem_filter.2 ⟨member, ordinary⟩
  rw [same] at inside
  obtain ⟨above, shaped⟩ := (parseHtml_shaped parsed).1.at_subtree member
  obtain ⟨startTag, endTag?, given, located⟩ := shaped.ordinary_located ordinary
  exact ⟨startTag, endTag?, given, located, laid.nest e (List.mem_of_mem_filter inside) _ _ _ located⟩

/-- The extents of the ordinary elements of a document nest as these do. -/
theorem parseHtml_nestedExtents (parsed : parseHtml source = .ok tree) : NestedExtents tree := by
  obtain ⟨ts, laid, same⟩ := parseHtml_laid parsed
  constructor
  · exact fun e member ordinary => parseHtml_nest parsed member ordinary
  · have pairs := (laid.pairs.filter Tree.isOrdinary).filter fun e => e.value.isClosed
    rw [← same, List.filter_filter] at pairs
    have both : (fun e : HtmlTree => e.value.isClosed && e.isOrdinary) =
        fun e => e.isOrdinary && e.value.isClosed := funext fun e => Bool.and_comm _ _
    rw [both] at pairs
    apply pairs.imp_of_mem
    intro u v first second nested
    obtain ⟨ordinary, isClosed⟩ := Bool.and_eq_true_iff.1 (List.mem_filter.1 first).2
    exact nested ordinary isClosed (Bool.and_eq_true_iff.1 (List.mem_filter.1 second).2).1

theorem parseHtml_nestedExtents_implied :
    ∃ tree, parseHtml "<div><p>a<b>c<p>d</i></div>e</body><ul><li>f</ul>".toList = .ok tree ∧
      tree.elementNames = ["html", "head", "body", "div", "p", "b", "p", "ul", "li"] ∧
      NestedExtents tree := by
  have known :
      (parseHtml "<div><p>a<b>c<p>d</i></div>e</body><ul><li>f</ul>".toList).toOption.map
        Tree.elementNames =
      some ["html", "head", "body", "div", "p", "b", "p", "ul", "li"] := by decide +kernel
  obtain ⟨tree, parsed, names⟩ := parseHtml_of_map known
  exact ⟨tree, parsed, names, parseHtml_nestedExtents parsed⟩

end LocatedHtml
