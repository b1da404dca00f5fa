import LocatedHtml.Proofs.Construction.Finished

/-!
The closing rules are kept everywhere: in the open elements of every construction, and by every element
of a document, however the lexemes of its source follow one another.
-/

namespace LocatedHtml

open ClosingRule

/-- An element may stand below elements of the given names; nothing is asked of other nodes. -/
def NameAllowed (above : List String) (t : HtmlTree) : Prop :=
  ∀ name, t.value.content.elementName? = some name → Allows name above

theorem nameAllowed_of_placed {above : List String} {t : HtmlTree} (placed : Placed above t) :
    NameAllowed above t := by
  intro name named
  unfold Placed at placed
  cases content : t.value.content <;> rw [content] at placed named <;> cases named
  exact placed.1.allowed

theorem allows_structural {name : String} (structural : name ∈ structuralNames)
    (above : List String) : Allows name above := by
  have free : rulesFor name = [] := by
    rcases mem_structuralNames.1 structural with rfl | rfl | rfl <;> decide
  unfold Allows
  rw [free]
  simp

namespace Construction

variable {s : Construction}

theorem closeBefore_of_allows (sound : s.Sound Placed) {name : String} (allows : Allows name s.above) :
    s.closeBefore name = s := by
  apply closeBefore_of_counts
  intro rule applies
  exact (count_eq_zero_iff (isBase_above s.stage) (rulesFor_lawful name rule applies)
    sound.names_ordinary).2 (allows rule applies)

/-- Closing before a start tag again closes nothing more. -/
theorem closeBefore_closeBefore (sound : s.Sound Placed) (name : String) :
    (s.closeBefore name).closeBefore name = s.closeBefore name := by
  apply closeBefore_of_allows (sound.closeBefore name)
  rw [above, closeBefore_names, closeBefore_stage]
  exact allows_remaining (isBase_above _) sound.opened.consistent name

theorem toTree_allowed (sound : s.Sound Placed) : Everywhere NameAllowed [] s.toTree := by
  have weaker : s.Sound NameAllowed := by
    refine ⟨fun stage t member => ?_, ?_, sound.staged⟩
    · exact (sound.content stage t member).imp fun _ _ => nameAllowed_of_placed
    · exact sound.opened.imp fun _ _ => nameAllowed_of_placed
  apply weaker.toTree
  · intro cs name named
    cases named
  all_goals
    intro cs name named
    cases named
    exact allows_structural (by decide) _

end Construction

/-- In every construction the open elements are the path to the place where content is put, closing
before a start tag is idempotent, and every element of a document is where its rules let it stand. -/
theorem implied_ends_enforced :
    (∀ (xs : List Lexeme) (t : HtmlTree), let s := xs.foldl Construction.add {}
      (s.openPath = [] ∨
        (s.openPath.head?.bind fun node => node.content.elementName?) = some "html") ∧
      s.openPath.reverse.filterMap (·.content.elementName?) = s.above ∧
      Inserted t s.openPath s.soFar (s.append t).soFar ∧ s.toTree = s.openBody.soFar) ∧
    (∀ (xs : List Lexeme) (name : String), let s := xs.foldl Construction.add {}
      (s.closeBefore name).closeBefore name = s.closeBefore name) ∧
    ∀ (source : Text) (tree : HtmlTree), parseHtml source = .ok tree →
      ∀ place ∈ tree.places [], ∀ name, place.2.value.content.elementName? = some name →
        ∀ rule ∈ rulesFor name, rule.Respects (place.1.filterMap (·.content.elementName?)) := by
  refine ⟨?_, ?_, ?_⟩
  · intro xs t s
    have sound : s.Sound Placed := (Construction.WellPlaced.of_lexemes xs).sound
    have ordered : s.Ordered := Construction.ordered_stepwise.run xs Construction.ordered_initial
    exact ⟨Construction.openPath_cases sound, Construction.openPath_names s,
      Construction.openPath_inserted sound ordered t, Construction.toTree_eq_soFar ordered⟩
  · intro xs name s
    exact Construction.closeBefore_closeBefore (Construction.WellPlaced.of_lexemes xs).sound name
  · intro source tree parsed place member name named
    obtain ⟨xs, _, rfl⟩ := parseHtml_eq_toTree parsed
    have sound := (Construction.WellPlaced.of_lexemes xs).endText source.length
    exact (Construction.toTree_allowed sound).at_place rfl member name named

theorem implied_ends_enforced_in_list :
    ∃ tree, parseHtml "<ul><li>a<p>b<li>c".toList = .ok tree ∧
      tree.elementNames = ["html", "head", "body", "ul", "li", "p", "li"] ∧
      ∀ place ∈ tree.places [], ∀ name, place.2.value.content.elementName? = some name →
        ∀ rule ∈ rulesFor name, rule.Respects (place.1.filterMap (·.content.elementName?)) := by
  have known : (parseHtml "<ul><li>a<p>b<li>c".toList).toOption.map Tree.elementNames =
      some ["html", "head", "body", "ul", "li", "p", "li"] := by decide +kernel
  obtain ⟨tree, parsed, names⟩ := parseHtml_of_map known
  exact ⟨tree, parsed, names, implied_ends_enforced.2.2 _ tree parsed⟩

end LocatedHtml
