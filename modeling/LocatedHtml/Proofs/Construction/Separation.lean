import LocatedHtml.Proofs.Construction.Deliveries

/-!
No two texts stand side by side in a construction that goes straight on: text is put only where no text
is last. This is so because text goes on until something else is put in its place, and because nothing
stands yet where a later section begins.
-/

namespace LocatedHtml

/-- The last of some trees, if there is one, is no text. -/
def EndsApart (row : List HtmlTree) : Prop := ∀ t ∈ row.getLast?, t.value.content.isText = false

/-- No two texts stand side by side, there and below. -/
def SeparatedRow (row : List HtmlTree) : Prop :=
  TextsApart row ∧ ∀ t ∈ row, ∀ u ∈ t.subtrees, TextsApart u.children

theorem endsApart_nil : EndsApart [] := by
  rintro _ ⟨⟩

theorem endsApart_concat {v : Node} {cs : List HtmlTree} (other : v.content.isText = false)
    (row : List HtmlTree) : EndsApart (row ++ [.node v cs]) := by
  intro u last
  rw [List.getLast?_concat] at last
  cases last
  exact other

theorem TextsApart.append {row others : List HtmlTree} (left : TextsApart row) (right : TextsApart others)
    (between : EndsApart row ∨ ∀ t ∈ others.head?, t.value.content.isText = false) :
    TextsApart (row ++ others) := by
  refine List.isChain_append.2 ⟨left, right, ?_⟩
  intro a last b first
  exact between.imp (· a last) (· b first)

theorem textsApart_singleton (t : HtmlTree) : TextsApart [t] := .singleton t

namespace SeparatedRow

theorem nil : SeparatedRow [] := ⟨.nil, List.forall_mem_nil _⟩

theorem append {row others : List HtmlTree} (left : SeparatedRow row) (right : SeparatedRow others)
    (between : EndsApart row ∨ ∀ t ∈ others.head?, t.value.content.isText = false) :
    SeparatedRow (row ++ others) :=
  ⟨left.1.append right.1 between, List.forall_mem_append.2 ⟨left.2, right.2⟩⟩

theorem singleton {v : Node} {cs : List HtmlTree} (row : SeparatedRow cs) : SeparatedRow [.node v cs] := by
  refine ⟨textsApart_singleton _, ?_⟩
  intro t member u below
  rw [List.mem_singleton.1 member] at below
  rcases Tree.mem_subtrees_node.1 below with rfl | ⟨c, child, inside⟩
  · exact row.1
  · exact row.2 c child u inside

theorem concat {row : List HtmlTree} (separated : SeparatedRow row) {v : Node} {cs : List HtmlTree}
    (inner : SeparatedRow cs) (between : EndsApart row ∨ v.content.isText = false) :
    SeparatedRow (row ++ [.node v cs]) := by
  apply separated.append (.singleton inner)
  refine between.imp id ?_
  rintro other _ ⟨⟩
  exact other

end SeparatedRow

namespace Construction

/-- The row of trees that the next one is put behind. -/
def tip (s : Construction) : List HtmlTree :=
  match s.opened with
  | e :: _ => e.children
  | [] => s.content s.stage

/-- No two texts stand side by side anywhere in a construction. -/
structure Separated (s : Construction) : Prop where
  content : ∀ stage, SeparatedRow (s.content stage)
  opened : ∀ e ∈ s.opened, SeparatedRow e.children

variable {s r : Construction} {x : Lexeme} {xs : List Lexeme} {g : List Entry}

theorem tip_append (s : Construction) (t : HtmlTree) : (s.append t).tip = s.tip ++ [t] := by
  cases inside : s.opened with
  | nil =>
    simp [tip, append_opened inside, content_append inside, inside]
  | cons e outer =>
    rw [append_inside inside]
    simp [tip, inside]

namespace Separated

theorem initial : Separated {} where
  content stage := by cases stage <;> exact .nil
  opened _ member := absurd member List.not_mem_nil

theorem append (separated : s.Separated) {v : Node} {cs : List HtmlTree} (inner : SeparatedRow cs)
    (between : EndsApart s.tip ∨ v.content.isText = false) : (s.append (.node v cs)).Separated := by
  cases inside : s.opened with
  | nil =>
    rw [tip, inside] at between
    refine ⟨?_, by simp [append_opened inside]⟩
    intro stage
    rw [content_append inside]
    split
    · next here =>
      subst here
      exact (separated.content _).concat inner between
    · exact separated.content stage
  | cons e outer =>
    have opened := separated.opened
    rw [tip, inside] at between
    rw [inside, List.forall_mem_cons] at opened
    rw [append_inside inside]
    exact ⟨separated.content, List.forall_mem_cons.2 ⟨opened.1.concat inner between, opened.2⟩⟩

/-- An element that ends is put behind what the one around it holds. -/
theorem outward (separated : s.Separated) {e : OpenElement} {outer : List OpenElement}
    (inside : s.opened = e :: outer) {v : Node} (element : v.content.isText = false) :
    (Construction.append { s with opened := outer } (.node v e.children)).Separated := by
  have opened := separated.opened
  rw [inside, List.forall_mem_cons] at opened
  have dropped : Separated { s with opened := outer } := ⟨separated.content, opened.2⟩
  exact dropped.append opened.1 (.inr element)

theorem settles {straight : Prop} (settles : Settles straight s r) (separated : s.Separated) :
    r.Separated := by
  induction settles with
  | done => exact separated
  | outward inside _ ih => exact ih (separated.outward inside rfl)
  | enter _ _ _ _ _ ih => exact ih ⟨separated.content, separated.opened⟩

theorem endText (separated : s.Separated) (ends : EndsApart s.tip) (stop : Nat) :
    (s.endText stop).Separated := by
  unfold Construction.endText
  split
  · exact separated
  · have dropped : Separated { s with openText := none } := ⟨separated.content, separated.opened⟩
    exact dropped.append .nil (.inl ends)

/-- A lexeme keeps texts apart, and behind it no text is last where the next node is put. -/
theorem add (separated : s.Separated) (ends : EndsApart s.tip) (tracked : s.Tracked True g)
    (adds : Adds True x s r) : r.Separated ∧ EndsApart r.tip := by
  have ended := separated.endText ends x.start.offset
  have recorded := tracked.endText x.start.offset
  -- Where a later section begins there is nothing yet.
  have begins {r q : Construction} (settles : Settles True (s.endText x.start.offset) r)
      (content : q.content = r.content) (settled : q.opened = [])
      (forward : r.stage.rank < q.stage.rank) : q.Separated ∧ EndsApart q.tip := by
    have row := ended.settles settles
    have empty := ((recorded.settles settles).ahead q.stage (.inl trivial) forward).2
    refine ⟨⟨by rw [content]; exact row.content, by simp [settled]⟩, ?_⟩
    simp only [tip, settled, content, empty]
    exact endsApart_nil
  cases adds with
  | marked => exact ⟨⟨separated.content, separated.opened⟩, ends⟩
  | extended => exact ⟨⟨separated.content, separated.opened⟩, ends⟩
  | begun => exact ⟨⟨separated.content, separated.opened⟩, ends⟩
  | resumed token settles advance same forward =>
    exact begins settles rfl advance.settled (forward trivial)
  | @remark v brings =>
    have other : v.content.isText = false := by
      obtain ⟨content, remark, rfl⟩ := Option.map_eq_some_iff.1 brings
      cases token : x.token <;> simp [token, Token.remark?] at remark
      all_goals
        subst remark
        rfl
    rw [tip_append]
    exact ⟨ended.append .nil (.inr other), endsApart_concat other _⟩
  | single token settles staged =>
    rw [tip_append]
    exact ⟨(ended.settles settles).append .nil (.inr rfl), endsApart_concat rfl _⟩
  | opening token settles staged =>
    have row := ended.settles settles
    exact ⟨⟨row.content, List.forall_mem_cons.2 ⟨.nil, row.opened⟩⟩, endsApart_nil⟩
  | ending token settles inside =>
    rw [tip_append]
    exact ⟨(ended.settles settles).outward inside rfl, endsApart_concat rfl _⟩
  | entering token settles advance forward bound tags =>
    exact begins settles rfl advance.settled forward
  | leaving token settles advance forward late tags =>
    exact begins settles rfl advance.settled forward

theorem run {t : Text} (chained : Chained .origin t xs) (straight : GoesStraight xs) :
    (xs.foldl Construction.add {}).Separated ∧ EndsApart (xs.foldl Construction.add {}).tip := by
  obtain ⟨_, _, separated⟩ := delivered_induction chained (fun _ : True => straight)
    (motive := fun _ s => s.Separated ∧ EndsApart s.tip) ⟨initial, endsApart_nil⟩
    fun _ _ _ _ _ delivered _ adds holds => holds.1.add holds.2 delivered.tracked adds
  exact separated

theorem toTree (separated : s.Separated) : ∀ t ∈ s.toTree.subtrees, TextsApart t.children := by
  have closed := separated.settles (@Settles.closeAll True s)
  have row := closed.content
  have inside (shell : Shell) (name : String) {left right cs : List HtmlTree} (before : SeparatedRow left)
      (inner : SeparatedRow cs) (after : SeparatedRow right) :
      SeparatedRow (left ++ shell.toTree name cs :: right) := by
    rw [List.append_cons]
    exact (before.concat inner (.inr rfl)).append after (.inl (endsApart_concat rfl _))
  have head := inside s.head "head" (row .beforeHead) (row .inHead) (row .afterHead)
  have html := inside (s.body.getD {}) "body" head (row .inBody) (row .afterBody)
  have document := inside s.html "html" (row .beforeHtml) html (row .afterHtml)
  rw [toTree_eq]
  exact document.singleton.2 _ List.mem_cons_self

end Separated

end Construction

end LocatedHtml
