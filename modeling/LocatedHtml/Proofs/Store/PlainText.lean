import LocatedHtml.Proofs.Forest.Filling
import LocatedHtml.Proofs.Store.Copies

/-!
A document without inline documents. It is written through a copy, so the store only grows, and what is
written is the text of the document by itself.
-/

namespace LocatedHtml

open NumberedTree

variable {s : Store} {n : DocumentId} {e : StoredDocument} {t : NumberedTree}

theorem StoredDocument.root?_eq {d : StoredDocument} {root : NodeId} (body : d.body = .html root) :
    d.root? = some root := by
  rw [root?, body]

namespace StoreCopying

/-- The trees are copied from the one of the document on, which is planted first. -/
theorem copy_start (stored : s.documents[n]? = some e) (body : e.body = .html t.topId)
    (place : s.forest.rootOf? t.topId = some t) :
    Copying.Later ⟨s.forest.plant t.toHtml, [(t.topId, s.forest.next)]⟩ ((start s).copy n).1.nodes ∧
      ((((start s).copy n).1.documents[((start s).copy n).2]?).bind (·.root?) = some s.forest.next) := by
  have first : Copying.copyBody ⟨s.forest, []⟩ e.body =
      (⟨s.forest.plant t.toHtml, [(t.topId, s.forest.next)]⟩, .html s.forest.next) := by
    rw [body, Copying.copyBody, Copying.copy]
    dsimp only
    rw [place]
    dsimp only
    rw [idxOf_topId]
    rfl
  have none : (start s).copied.lookup n = none := rfl
  have here : (start s).documents[n]? = some e := stored
  unfold StoreCopying.copy
  rw [none, here]
  refine ⟨?_, ?_⟩
  · have later := Copying.later_copyHost (Copying.copyBody ⟨s.forest, []⟩ e.body).1 e.host
    rw [first] at later
    change Copying.Later _ (Copying.copyHost (Copying.copyBody ⟨s.forest, []⟩ e.body).1 e.host).1
    rwa [first]
  · dsimp only
    rw [List.getElem?_concat_length, Option.bind_some]
    exact StoredDocument.root?_eq (congrArg Prod.snd first)

end StoreCopying

namespace Store

/-- A stored document has the contents and the tree of a document. -/
structure Shows (s : Store) (e : StoredDocument) (d : Document) : Prop where
  contents : e.contents = d.contents
  body : e.body = .text ∧ d.body = .text ∨
    ∃ t, e.body = .html t.topId ∧ s.forest.rootOf? t.topId = some t ∧ d.body = .html t.toHtml

theorem Shows.plainText_ok {d : Document} (shows : s.Shows e d) (indent : Nat) :
    ∃ text, d.plainText indent = .ok text := by
  unfold Document.plainText
  rcases shows.body with ⟨_, same⟩ | ⟨_, _, _, same⟩ <;> exact ⟨_, by rw [same]⟩

theorem writtenWith_nil (t : HtmlTree) :
    Document.writtenWith t [] = (Tree.node t.value (t.children.flatMap Tree.spliced)).innerHtml := by
  cases t
  simp only [Document.writtenWith, List.foldl_nil, Forest.removeInjected_plant]
  rfl

theorem write_eq {root : NodeId} {text : Text} (html : (s.documents[n]?).bind (·.root?) = some root)
    (text_ : ((s.forest.removeInjected root).1.html? root).map Tree.innerHtml = some text) :
    s.write n = (⟨(s.forest.removeInjected root).1, s.documents⟩, text) := by
  unfold Store.write
  rw [html]
  dsimp only
  rw [text_]
  rfl

/-- A document is written as it would be by itself, and everything is left as it was. -/
theorem plainText_eq {d : Document} (bounded : s.forest.Bounded) (stored : s.documents[n]? = some e)
    (shows : s.Shows e d) (indent : Nat) :
    (s.plainText n indent).2 = d.plainText indent ∧ s.Grown (s.plainText n indent).1 := by
  unfold Store.plainText Document.plainText
  rw [stored]
  dsimp only
  rcases shows.body with ⟨text, same⟩ | ⟨t, html, place, same⟩
  · rw [text, same, shows.contents]
    exact ⟨rfl, .refl s⟩
  · rw [html, same]
    obtain ⟨later, root⟩ := StoreCopying.copy_start stored html place
    obtain ⟨l, base, tree, _, _, holds⟩ := later.grown.layout bounded
    have spliced := holds.html?_removeInjected_nil
    rw [base, tree] at spliced
    have written := write_eq (s := ((StoreCopying.start s).copy n).1.store) root
      (by rw [StoreCopying.store, spliced, Option.map_some])
    dsimp only
    rw [written, writtenWith_nil]
    refine ⟨rfl, ?_, (StoreCopying.later_copy (StoreCopying.start s) n).documents⟩
    exact ((Forest.Grown.plant s.forest t.toHtml).trans later.grown).removeInjected bounded (Nat.le_refl _)

end Store

end LocatedHtml
