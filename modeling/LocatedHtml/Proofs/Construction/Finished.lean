import LocatedHtml.Proofs.Construction.Nodes
import LocatedHtml.Proofs.Construction.OpenPath
import LocatedHtml.Proofs.Construction.Shells

/-!
The document of a source, which a construction gives when all lexemes have been added and everything
that is open has ended.
-/

namespace LocatedHtml

/-- The offset at which a node starts; a node without a place has none to tell. -/
def Node.start (v : Node) : Int := (v.location.map Location.start).getD 0

/-- The offset after the last tag of an element, or after another node. -/
def Node.stop (v : Node) : Int := (v.location.map Location.stop).getD 0

theorem Node.start_eq {v : Node} {location : Location} (located : v.location = some location) :
    v.start = location.start := by rw [start, located, Option.map_some, Option.getD_some]

theorem Node.stop_eq {v : Node} {location : Location} (located : v.location = some location) :
    v.stop = location.stop := by rw [stop, located, Option.map_some, Option.getD_some]

/-- The nodes of a tree in document order. -/
def Tree.nodes (t : HtmlTree) : List Node := t.subtrees.map Tree.value

/-- The names of all elements of a tree in document order. -/
def Tree.elementNames (t : HtmlTree) : List String :=
  t.subtrees.filterMap (·.value.content.elementName?)

namespace Construction

variable {p : List String → HtmlTree → Prop} {s : Construction}

theorem toTree_eq (s : Construction) :
    s.toTree = .node ⟨.document, none⟩ (s.closeAll.content .beforeHtml ++
      s.html.toTree "html" (s.closeAll.content .beforeHead ++
        s.head.toTree "head" (s.closeAll.content .inHead) :: s.closeAll.content .afterHead ++
        (s.body.getD {}).toTree "body" (s.closeAll.content .inBody) ::
          s.closeAll.content .afterBody) :: s.closeAll.content .afterHtml) := by
  unfold toTree closeAll
  simp only [close_html, close_head, close_body]
  rfl

/-- What holds throughout a construction and of the structural elements holds everywhere below the
document. -/
theorem Sound.toTree_children (sound : s.Sound p)
    (html : ∀ cs, p [] (s.html.toTree "html" cs)) (head : ∀ cs, p ["html"] (s.head.toTree "head" cs))
    (body : ∀ cs, p ["html"] ((s.body.getD {}).toTree "body" cs)) :
    ∀ c ∈ s.toTree.children, Everywhere p [] c := by
  have content := (sound.close s.opened.length).content
  have inHead : Everywhere p ["html"] (s.head.toTree "head" s.closeAll.inHead) :=
    .node (head _) (content .inHead)
  have inBody : Everywhere p ["html"] ((s.body.getD {}).toTree "body" s.closeAll.inBody) :=
    .node (body _) (content .inBody)
  rw [toTree_eq]
  intro c member
  rcases List.mem_append.1 member with before | member
  · exact content .beforeHtml c before
  · rcases List.mem_cons.1 member with rfl | after
    · apply Everywhere.node (html _)
      intro c member
      rcases List.mem_append.1 member with member | member
      · rcases List.mem_append.1 member with before | member
        · exact content .beforeHead c before
        · rcases List.mem_cons.1 member with rfl | between
          · exact inHead
          · exact content .afterHead c between
      · rcases List.mem_cons.1 member with rfl | after
        · exact inBody
        · exact content .afterBody c after
    · exact content .afterHtml c after

/-- What also holds of the document holds everywhere in it. -/
theorem Sound.toTree (sound : s.Sound p)
    (document : ∀ cs, p [] (.node ⟨.document, none⟩ cs))
    (html : ∀ cs, p [] (s.html.toTree "html" cs)) (head : ∀ cs, p ["html"] (s.head.toTree "head" cs))
    (body : ∀ cs, p ["html"] ((s.body.getD {}).toTree "body" cs)) : Everywhere p [] s.toTree := by
  have below := sound.toTree_children html head body
  rw [toTree_eq] at below ⊢
  exact .node (document _) below

/-- What all lexemes bring and leave, and every text by itself, is true of all nodes of their document. -/
theorem documentOf_nodes {q : Node → Prop} {xs : List Lexeme} (size : Nat) (document : q ⟨.document, none⟩)
    (leftOut : ∀ name, q ⟨.element name [], none⟩)
    (text : ∀ value extent, q ⟨.text value, some (.plain extent)⟩)
    (nodes : ∀ x ∈ xs, NodeFact (fun _ t => q t.value) x)
    (shells : ∀ x ∈ xs, ShellFact (fun name shell => name ∈ structuralNames → q (shell.node name)) x) :
    ∀ t ∈ (documentOf xs size).subtrees, q t.value := by
  have sound := Sound.run (p := fun _ t => q t.value) (fun _ => text) nodes wellPlaced_initial sound_initial
  have last : (xs.foldl Construction.add {}).TextFact (fun _ t => q t.value) size :=
    fun _ _ _ value => text value _
  have shells := (Shells.run (fun name _ => leftOut name) shells).endText size
  have all := (sound.endText_node last).toTree (fun _ => document) (fun _ => shells.html (by decide))
    (fun _ => shells.head (by decide)) fun _ => shells.body (by decide)
  intro t member
  obtain ⟨_, holds⟩ := all.at_subtree member
  exact holds

end Construction

/-- The construction whose document is the one of a source. -/
theorem parseHtml_eq_toTree {source : Text} {tree : HtmlTree} (parsed : parseHtml source = .ok tree) :
    ∃ xs, lexemes source = .ok xs ∧
      tree = ((xs.foldl Construction.add {}).endText source.length).toTree := by
  unfold parseHtml at parsed
  cases cut : lexemes source with
  | error e =>
    rw [cut] at parsed
    cases parsed
  | ok xs =>
    rw [cut] at parsed
    cases parsed
    exact ⟨xs, rfl, rfl⟩

/-- A source is read whenever something is known of its document. -/
theorem parseHtml_of_map {α : Type} {source : Text} {f : HtmlTree → α} {value : α}
    (known : (parseHtml source).toOption.map f = some value) :
    ∃ tree, parseHtml source = .ok tree ∧ f tree = value := by
  cases read : parseHtml source with
  | error e =>
    rw [read] at known
    cases known
  | ok tree =>
    rw [read] at known
    exact ⟨tree, rfl, Option.some.inj known⟩

end LocatedHtml
