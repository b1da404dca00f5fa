import LocatedHtml.Proofs.Construction.Separation
import LocatedHtml.Proofs.ContentKept

/-!
In the document of a source that is never opened again, document order is the order of the source, and
texts that could be one are one.
-/

namespace LocatedHtml

/-- Nothing that would open the body again comes behind an end tag that leaves the body or `html`. -/
def NeverReopened (xs : List Lexeme) : Prop :=
  ∀ before x after, xs = before ++ x :: after → (before.foldl Construction.add {}).Leaves x →
    ∀ y ∈ after, ¬y.token.Reopens

theorem neverReopened_iff {xs : List Lexeme} :
    NeverReopened xs ↔ ∀ i : Fin xs.length, ((xs.take i).foldl Construction.add {}).Leaves xs[i] →
      ∀ y ∈ xs.drop (i + 1), ¬y.token.Reopens := by
  constructor
  · intro never i leaves
    apply never (xs.take i) xs[i] _ _ leaves
    simp
  · rintro all before x after rfl leaves
    have here := all ⟨before.length, by simp⟩
    simp only [Fin.getElem_fin, List.take_left, List.drop_length_add_append] at here
    simpa using here (by simpa using leaves)

instance (xs : List Lexeme) : Decidable (NeverReopened xs) := decidable_of_iff' _ neverReopened_iff

/-- Located nodes start one behind the other, no text reaches into the next node, and no two texts stand
side by side. -/
structure InDocumentOrder (tree : HtmlTree) : Prop where
  starts : (tree.nodes.filter (·.location.isSome)).Pairwise fun u v => u.start < v.start
  texts : (tree.nodes.filter (·.location.isSome)).Pairwise fun u v =>
    u.content.isText = true → u.stop ≤ v.start
  apart : ∀ t ∈ tree.subtrees, TextsApart t.children

variable {source : Text} {tree : HtmlTree} {xs : List Lexeme}

/-- Past the body there is an end tag that has left it. -/
theorem exists_leaves (late : Stage.inBody.rank < (xs.foldl Construction.add {}).stage.rank) :
    ∃ before x after, xs = before ++ x :: after ∧ (before.foldl Construction.add {}).Leaves x := by
  induction xs using List.reverseRecOn with
  | nil => exact absurd late (by decide)
  | append_singleton front x ih =>
    have whole : front ++ [x] = front ++ x :: [] := rfl
    have adds : Construction.Adds False x (front.foldl Construction.add {})
      ((front ++ [x]).foldl Construction.add {}) := Construction.adds_next False.elim whole
    rcases adds.late late with earlier | leaves
    · obtain ⟨before, y, after, rfl, leaves⟩ := ih earlier
      exact ⟨before, y, after ++ [x], by simp, leaves⟩
    · exact ⟨front, x, [], rfl, leaves⟩

theorem NeverReopened.goesStraight (never : NeverReopened xs) : Construction.GoesStraight xs := by
  intro before x after whole reopens
  by_contra late
  obtain ⟨first, y, between, rfl, leaves⟩ := exists_leaves (Nat.lt_of_not_le late)
  rw [List.append_assoc, List.cons_append] at whole
  exact never first y (between ++ x :: after) whole leaves x (by simp) reopens

theorem Construction.Recorded.nodes_pairwise {size : Nat} {g : List Entry}
    (recorded : Construction.Recorded True xs size tree g) :
    (tree.nodes.filter (·.location.isSome)).Pairwise fun u v =>
      ∀ a, u.toEntry = some a → ∀ b, v.toEntry = some b → a.Within b.extent.start := by
  have sorted := recorded.sorted
  rw [← recorded.order trivial, Tree.entries_eq, List.pairwise_filterMap] at sorted
  exact sorted.filter _

/-- Where the body is never opened again, document order is the order of the source. -/
theorem parseHtml_inDocumentOrder (parsed : parseHtml source = .ok tree) (cut : lexemes source = .ok xs)
    (never : NeverReopened xs) : InDocumentOrder tree := by
  have straight := never.goesStraight
  obtain ⟨g, recorded⟩ : ∃ g, Construction.Recorded True xs source.length tree g :=
    parseHtml_recorded parsed cut fun _ => straight
  have plain := (parseHtml_allPlain parsed).1
  have ordered := recorded.nodes_pairwise
  have entry {v : Node} (member : v ∈ tree.nodes.filter (·.location.isSome)) :
      v ∈ tree.nodes ∧ ∃ a, v.toEntry = some a := by
    obtain ⟨inside, some_⟩ := List.mem_filter.1 member
    obtain ⟨location, located⟩ := Option.isSome_iff_exists.1 some_
    exact ⟨inside, _, by rw [Node.toEntry, located]; rfl⟩
  refine ⟨?_, ?_, ?_⟩
  · apply ordered.imp_of_mem
    intro u v first second before
    obtain ⟨_, a, u_at⟩ := entry first
    obtain ⟨_, b, v_at⟩ := entry second
    rw [Node.toEntry_start u_at, Node.toEntry_start v_at]
    exact (before a u_at b v_at).1
  · apply ordered.imp_of_mem
    intro u v first second before text
    obtain ⟨inside, _⟩ := entry first
    obtain ⟨_, b, v_at⟩ := entry second
    obtain ⟨extent, located⟩ := plain u inside text
    cases content : u.content <;> simp [content, Content.isText] at text
    have within := before _ (Node.toEntry_text content located) b v_at
    rw [Node.stop_eq located, Node.toEntry_start v_at]
    exact within.2 ⟨_, rfl⟩
  · obtain ⟨ys, same, rfl⟩ := parseHtml_eq_toTree parsed
    rw [cut] at same
    cases same
    obtain ⟨separated, ends⟩ := Construction.Separated.run (lexemes_chained cut) straight
    exact (separated.endText ends source.length).toTree

theorem parseHtml_inDocumentOrder_closed :
    ∃ tree xs, parseHtml "<title>a</title> b<p>c<li>d</body> <!--e--></html>".toList = .ok tree ∧
      lexemes "<title>a</title> b<p>c<li>d</body> <!--e--></html>".toList = .ok xs ∧
      NeverReopened xs ∧ tree.elementNames = ["html", "head", "title", "body", "p", "li"] ∧
      InDocumentOrder tree := by
  have known :
      (parseHtml "<title>a</title> b<p>c<li>d</body> <!--e--></html>".toList).toOption.map
        Tree.elementNames = some ["html", "head", "title", "body", "p", "li"] := by decide +kernel
  have closed : ∀ xs ∈ (lexemes "<title>a</title> b<p>c<li>d</body> <!--e--></html>".toList).toOption,
      NeverReopened xs := by decide +kernel
  obtain ⟨tree, parsed, names⟩ := parseHtml_of_map known
  obtain ⟨xs, cut, _⟩ := parseHtml_eq_toTree parsed
  have never := closed xs (by rw [cut]; rfl)
  exact ⟨tree, xs, parsed, cut, never, names, parseHtml_inDocumentOrder parsed cut never⟩

end LocatedHtml
