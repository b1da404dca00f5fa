import LocatedHtml.Proofs.Construction.Deliveries
import LocatedHtml.Proofs.DocumentShape
import LocatedHtml.Proofs.SourceLocations

/-!
No content is lost or doubled on its way into a document. Its texts, put in the order of the source, are
the characters that the lexemes bring, and so are its comments and doctypes. A text without markup and
references is the piece of source at its place.
-/

namespace LocatedHtml

/-- True of a comment and of a doctype. -/
def Content.isRemark : Content → Bool
  | .comment _ | .doctype _ => true
  | _ => false

/-- Nodes in the order in which they start in the source. -/
def inSourceOrder (nodes : List Node) : List Node := nodes.mergeSort fun u v => u.start ≤ v.start

/-- The document of a source has all content that the lexemes bring, each piece once. -/
structure ContentKept (source : Text) (xs : List Lexeme) (tree : HtmlTree) : Prop where
  texts : (inSourceOrder (tree.nodes.filter (·.content.isText))).flatMap (·.content.textValue) =
    xs.flatMap (·.token.textValue)
  remarks : (inSourceOrder (tree.nodes.filter (·.content.isRemark))).map (·.content) =
    xs.filterMap (·.token.remark?)
  apart : (inSourceOrder (tree.nodes.filter (·.location.isSome))).Pairwise (·.start < ·.start)
  verbatim : ∀ v ∈ tree.nodes, ∀ value, v.content = .text value →
    ∃ extent, v.location = some (.plain extent) ∧
      ('<' ∉ extent.slice source → '&' ∉ extent.slice source → value = extent.slice source)

theorem pairwise_inSourceOrder (nodes : List Node) :
    (inSourceOrder nodes).Pairwise fun u v => u.start ≤ v.start := by
  have sorted : (inSourceOrder nodes).Pairwise fun u v => decide (u.start ≤ v.start) = true := by
    apply List.pairwise_mergeSort
    · simp only [decide_eq_true_eq]
      intros
      omega
    · simp only [Bool.or_eq_true, decide_eq_true_eq]
      omega
  exact sorted.imp fun le => of_decide_eq_true le

theorem Tree.entries_eq (t : HtmlTree) : t.entries = t.nodes.filterMap Node.toEntry := by
  rw [entries, nodes, List.filterMap_map]
  rfl

theorem Node.toEntry_start {v : Node} {a : Entry} (entry : v.toEntry = some a) : v.start = a.extent.start := by
  obtain ⟨location, located, rfl⟩ := Option.map_eq_some_iff.1 entry
  exact start_eq located

theorem Node.toEntry_text {v : Node} {value : Text} {extent : Extent} (content : v.content = .text value)
    (located : v.location = some (.plain extent)) : v.toEntry = some ⟨extent, some (.text value)⟩ := by
  rw [toEntry, located, content]
  rfl

/-- Entries that stand one behind the other are told apart by where they start. -/
theorem eq_of_same_start {g : List Entry} (sorted : g.Pairwise fun a b => a.Within b.extent.start)
    {a b : Entry} (first : a ∈ g) (second : b ∈ g) (same : a.extent.start = b.extent.start) : a = b := by
  have starts : (g.map (·.extent.start)).Nodup := by
    rw [List.Nodup, List.pairwise_map]
    exact sorted.imp fun within => Int.ne_of_lt within.1
  exact List.inj_on_of_nodup_map starts first second same

/-- Nodes of a kind in the order of the source have their entries in the order in which they came. -/
theorem entries_inSourceOrder {t : HtmlTree} {g : List Entry} (perm : t.entries.Perm g)
    (sorted : g.Pairwise fun a b => a.Within b.extent.start) {p : Node → Bool} {q : Entry → Bool}
    (kind : ∀ v ∈ t.nodes, p v = v.toEntry.any q) :
    (inSourceOrder (t.nodes.filter p)).filterMap Node.toEntry = g.filter q := by
  have same : (t.nodes.filter p).filterMap Node.toEntry = t.entries.filter q := by
    rw [Tree.entries_eq, List.filterMap_filter, List.filter_filterMap]
    apply List.filterMap_congr
    intro v member
    rw [kind v member]
    cases v.toEntry with
    | none => simp
    | some a => by_cases holds : q a = true <;> simp [holds, Option.filter]
  have reordered : ((inSourceOrder (t.nodes.filter p)).filterMap Node.toEntry).Perm (g.filter q) := by
    refine ((List.mergeSort_perm _ _).filterMap _).trans ?_
    rw [same]
    exact perm.filter q
  have inOrder : ((inSourceOrder (t.nodes.filter p)).filterMap Node.toEntry).Pairwise
      fun a b => a.extent.start ≤ b.extent.start := by
    rw [List.pairwise_filterMap]
    apply (pairwise_inSourceOrder _).imp
    intro u v le a entry b later
    rw [← Node.toEntry_start entry, ← Node.toEntry_start later]
    exact le
  have before : (g.filter q).Pairwise fun a b => a.extent.start ≤ b.extent.start :=
    (sorted.filter q).imp fun within => Int.le_of_lt within.1
  refine List.Perm.eq_of_pairwise ?_ inOrder before reordered
  intro a b first second le ge
  have inside : a ∈ g.filter q := reordered.mem_iff.1 first
  exact eq_of_same_start sorted (List.mem_of_mem_filter inside) (List.mem_of_mem_filter second)
    (Int.le_antisymm le ge)

/-- The nodes of a kind are those whose entries have it, if all of that kind have a place. -/
theorem kind_toEntry {p : Content → Bool} (leaf : ∀ content, p content = true → content.isElement = false)
    {v : Node} (located : p v.content = true → v.location ≠ none) :
    p v.content = v.toEntry.any fun a => a.content.any p := by
  cases location : v.location with
  | none =>
    have other : p v.content = false := by
      rw [← Bool.not_eq_true]
      exact fun holds => located holds location
    simp [Node.toEntry, location, other]
  | some location_ =>
    by_cases element : v.content.isElement = true
    · have other : p v.content = false := by
        rw [← Bool.not_eq_true]
        intro holds
        rw [leaf _ holds] at element
        cases element
      simp [Node.toEntry, location, element, other]
    · simp [Node.toEntry, location, element]

theorem Shaped.leaf_located {above : List String} {t : HtmlTree} (shaped : Shaped above t)
    (leaf : t.value.content.isText = true ∨ t.value.content.isRemark = true) :
    ∃ extent, t.value.location = some (.plain extent) := by
  rcases shaped with placed | structural
  · unfold Placed at placed
    cases content : t.value.content <;> rw [content] at placed leaf
    case text => exact placed.2.2
    case comment => exact placed.2
    case doctype => exact placed.2
    all_goals simp [Content.isText, Content.isRemark] at leaf
  · unfold Structural at structural
    cases content : t.value.content <;> rw [content] at structural leaf
    case text => exact structural.elim
    case comment => exact structural.elim
    case doctype => exact structural.elim
    all_goals simp [Content.isText, Content.isRemark] at leaf

theorem flatMap_entries {nodes : List Node}
    (same : ∀ v ∈ nodes, ∃ a, v.toEntry = some a ∧ a.text = v.content.textValue) :
    (nodes.filterMap Node.toEntry).flatMap Entry.text = nodes.flatMap (·.content.textValue) := by
  induction nodes with
  | nil => rfl
  | cons v nodes ih =>
    obtain ⟨⟨a, entry, text⟩, rest⟩ := List.forall_mem_cons.1 same
    rw [List.filterMap_cons_some entry, List.flatMap_cons, List.flatMap_cons, text, ih rest]

theorem flatMap_text_filter (g : List Entry) :
    (g.filter fun a => a.content.any Content.isText).flatMap Entry.text = g.flatMap Entry.text := by
  induction g with
  | nil => rfl
  | cons a g ih =>
    rw [List.filter_cons, List.flatMap_cons]
    split
    · rw [List.flatMap_cons, ih]
    · next other =>
      have nothing : a.text = [] := by
        unfold Entry.text
        split
        · next value content =>
          rw [content] at other
          exact absurd rfl other
        · rfl
      rw [ih, nothing, List.nil_append]

theorem filterMap_remark_filter (g : List Entry) :
    (g.filter fun a => a.content.any Content.isRemark).filterMap Entry.remark? =
      g.filterMap Entry.remark? := by
  rw [List.filterMap_filter]
  apply List.filterMap_congr
  intro a _
  split
  · rfl
  · next other =>
    unfold Entry.remark?
    split
    · next value content =>
      rw [content] at other
      exact absurd rfl other
    · next value content =>
      rw [content] at other
      exact absurd rfl other
    · rfl

variable {source : Text} {tree : HtmlTree} {xs ys : List Lexeme} {g : List Entry}

theorem slice_between {before piece : Text} (after : Text) {e : Extent}
    (whole : source = before ++ piece ++ after)
    (start : e.start = before.length) (stop : e.stop = (before ++ piece).length) :
    e.slice source = piece := by
  rw [Extent.slice, start, stop, Int.toNat_natCast, Int.toNat_natCast, whole, List.take_left,
    List.drop_left]

/-- Lexemes in which neither markup nor a reference stands bring what they take. -/
theorem textValue_eq_taken (verbatim : ∀ y ∈ ys, '<' ∉ y.raw → '&' ∉ y.raw → y.token = .text y.raw)
    (unmarked : '<' ∉ taken ys) (plain : '&' ∉ taken ys) :
    ys.flatMap (·.token.textValue) = taken ys := by
  apply List.flatMap_congr
  intro y member
  have inside (c : Char) (absent : c ∉ taken ys) : c ∉ y.raw :=
    fun here => absent (List.mem_flatMap.2 ⟨y, member, here⟩)
  rw [verbatim y member (inside _ unmarked) (inside _ plain)]
  rfl

/-- A text that has been recorded is the piece of source at its place, unless markup or a reference
stands in that. -/
theorem Construction.Recorded.verbatim {straight : Prop}
    (recorded : Construction.Recorded straight xs source.length tree g) (cut : lexemes source = .ok xs)
    {a : Entry} (member : a ∈ g) {value : Text} (content : a.content = some (.text value))
    (unmarked : '<' ∉ a.extent.slice source) (plain : '&' ∉ a.extent.slice source) :
    value = a.extent.slice source := by
  have verbatim := lexemesFrom_verbatim cut
  obtain ⟨rest, whole, covered⟩ := lexemes_covers cut
  rcases recorded.gathered a member value content with
    ⟨before, ys, after, rfl, start, stop, rfl⟩ | ⟨before, ys, rfl, nonempty, start, stop, rfl⟩
  · have slice : a.extent.slice source = taken ys := by
      apply slice_between (taken after ++ rest) _ start
      · rw [stop, taken_append]
      · rw [whole, taken_append, taken_append, List.append_assoc]
    rw [slice] at unmarked plain ⊢
    apply textValue_eq_taken _ unmarked plain
    exact fun y inside => verbatim y (by simp [inside])
  · have slice : a.extent.slice source = taken ys ++ rest := by
      apply slice_between [] _ start
      · rw [stop, whole, taken_append, List.append_assoc]
      · rw [whole, taken_append, List.append_nil, List.append_assoc]
    rw [slice, List.mem_append, not_or] at unmarked plain
    have nothing : rest = [] := by
      rcases covered with nothing | ⟨x, last, bracket⟩
      · exact nothing
      · rw [List.getLast?_append_of_ne_nil _ nonempty] at last
        exact absurd (List.mem_flatMap.2 ⟨x, List.mem_of_getLast? last, bracket⟩) unmarked.1
    rw [slice, nothing, List.append_nil]
    apply textValue_eq_taken _ unmarked.1 plain.1
    exact fun y inside => verbatim y (by simp [inside])

theorem mem_inSourceOrder {nodes : List Node} {p : Node → Bool} {v : Node}
    (member : v ∈ inSourceOrder (nodes.filter p)) : v ∈ nodes ∧ p v = true :=
  List.mem_filter.1 (List.mem_mergeSort.1 member)

/-- The nodes of a kind all have a place, the extent that they take. -/
def Tree.AllPlain (t : HtmlTree) (p : Content → Bool) : Prop :=
  ∀ v ∈ t.nodes, p v.content = true → ∃ extent, v.location = some (.plain extent)

namespace Construction.Recorded

variable {straight : Prop} {size : Nat}

theorem entries_of_kind (recorded : Construction.Recorded straight xs size tree g) {p : Content → Bool}
    (leaf : ∀ content, p content = true → content.isElement = false) (plain : tree.AllPlain p) :
    (inSourceOrder (tree.nodes.filter fun v => p v.content)).filterMap Node.toEntry =
      g.filter fun a => a.content.any p := by
  apply entries_inSourceOrder recorded.perm recorded.sorted
  intro v member
  apply kind_toEntry leaf
  intro holds none
  obtain ⟨extent, located⟩ := plain v member holds
  rw [none] at located
  cases located

theorem texts_inSourceOrder (recorded : Construction.Recorded straight xs size tree g)
    (plain : tree.AllPlain Content.isText) :
    (inSourceOrder (tree.nodes.filter (·.content.isText))).flatMap (·.content.textValue) =
      xs.flatMap (·.token.textValue) := by
  have leaf : ∀ content : Content, content.isText = true → content.isElement = false := by
    intro content text
    cases content <;> first | rfl | cases text
  rw [← recorded.texts, ← flatMap_text_filter, ← recorded.entries_of_kind leaf plain]
  symm
  apply flatMap_entries
  intro v member
  obtain ⟨inside, text⟩ := mem_inSourceOrder member
  obtain ⟨extent, located⟩ := plain v inside text
  cases content : v.content <;> simp [content, Content.isText] at text
  exact ⟨_, Node.toEntry_text content located, rfl⟩

theorem remarks_inSourceOrder (recorded : Construction.Recorded straight xs size tree g)
    (plain : tree.AllPlain Content.isRemark) :
    (inSourceOrder (tree.nodes.filter (·.content.isRemark))).map (·.content) =
      xs.filterMap (·.token.remark?) := by
  have leaf : ∀ content : Content, content.isRemark = true → content.isElement = false := by
    intro content remark
    cases content <;> first | rfl | cases remark
  rw [← recorded.remarks, ← filterMap_remark_filter, ← recorded.entries_of_kind leaf plain,
    List.filterMap_filterMap, ← List.filterMap_eq_map]
  apply List.filterMap_congr
  intro v member
  obtain ⟨inside, remark⟩ := mem_inSourceOrder member
  obtain ⟨extent, located⟩ := plain v inside remark
  cases content : v.content <;> simp [content, Content.isRemark] at remark
  all_goals simp [Node.toEntry, located, content, Content.isElement, Entry.remark?]

theorem starts_apart (recorded : Construction.Recorded straight xs size tree g) :
    (inSourceOrder (tree.nodes.filter (·.location.isSome))).Pairwise (·.start < ·.start) := by
  have all : (inSourceOrder (tree.nodes.filter (·.location.isSome))).filterMap Node.toEntry = g := by
    rw [entries_inSourceOrder recorded.perm recorded.sorted (q := fun _ => true), List.filter_true]
    intro v _
    cases location : v.location <;> simp [Node.toEntry, location]
  have entry {v : Node} (member : v ∈ inSourceOrder (tree.nodes.filter (·.location.isSome))) :
      ∃ a, v.toEntry = some a := by
    obtain ⟨location, located⟩ := Option.isSome_iff_exists.1 (mem_inSourceOrder member).2
    exact ⟨_, by rw [Node.toEntry, located]; rfl⟩
  have sorted := recorded.sorted
  rw [← all, List.pairwise_filterMap] at sorted
  apply sorted.imp_of_mem
  intro u v first second apart
  obtain ⟨a, u_at⟩ := entry first
  obtain ⟨b, v_at⟩ := entry second
  rw [Node.toEntry_start u_at, Node.toEntry_start v_at]
  exact (apart a u_at b v_at).1

end Construction.Recorded

theorem parseHtml_allPlain (parsed : parseHtml source = .ok tree) :
    tree.AllPlain Content.isText ∧ tree.AllPlain Content.isRemark := by
  have shaped {v : Node} (member : v ∈ tree.nodes) :
      ∃ above t, t.value = v ∧ Shaped above t := by
    obtain ⟨t, inside, rfl⟩ := List.mem_map.1 member
    obtain ⟨above, shaped⟩ := (parseHtml_shaped parsed).1.at_subtree inside
    exact ⟨above, t, rfl, shaped⟩
  constructor
  · intro v member text
    obtain ⟨above, t, rfl, shaped⟩ := shaped member
    exact shaped.leaf_located (.inl text)
  · intro v member remark
    obtain ⟨above, t, rfl, shaped⟩ := shaped member
    exact shaped.leaf_located (.inr remark)

/-- No content of a source is lost or doubled in its document. -/
theorem parseHtml_contentKept (parsed : parseHtml source = .ok tree) :
    ∃ xs, lexemes source = .ok xs ∧ ContentKept source xs tree := by
  obtain ⟨xs, cut, _⟩ := parseHtml_eq_toTree parsed
  obtain ⟨g, recorded⟩ : ∃ g, Construction.Recorded False xs source.length tree g :=
    parseHtml_recorded parsed cut False.elim
  obtain ⟨texts, remarks⟩ := parseHtml_allPlain parsed
  refine ⟨xs, cut, recorded.texts_inSourceOrder texts, recorded.remarks_inSourceOrder remarks,
    recorded.starts_apart, ?_⟩
  intro v member value content
  obtain ⟨extent, located⟩ := texts v member (by rw [content]; rfl)
  refine ⟨extent, located, ?_⟩
  have inside : ⟨extent, some (.text value)⟩ ∈ g := by
    rw [← recorded.perm.mem_iff, Tree.entries_eq]
    exact List.mem_filterMap.2 ⟨v, member, Node.toEntry_text content located⟩
  exact recorded.verbatim cut inside rfl

theorem parseHtml_contentKept_reentered :
    ∃ tree, parseHtml "<!doctype html> a</i>b<?c><p>d</html> <!--e-->&lt;".toList = .ok tree ∧
      tree.elementNames = ["html", "head", "body", "p"] ∧
      ∃ xs, lexemes "<!doctype html> a</i>b<?c><p>d</html> <!--e-->&lt;".toList = .ok xs ∧
        ContentKept "<!doctype html> a</i>b<?c><p>d</html> <!--e-->&lt;".toList xs tree := by
  have known :
      (parseHtml "<!doctype html> a</i>b<?c><p>d</html> <!--e-->&lt;".toList).toOption.map
        Tree.elementNames = some ["html", "head", "body", "p"] := by decide +kernel
  obtain ⟨tree, parsed, names⟩ := parseHtml_of_map known
  exact ⟨tree, parsed, names, parseHtml_contentKept parsed⟩

end LocatedHtml
