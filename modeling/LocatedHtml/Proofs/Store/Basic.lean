import LocatedHtml.Document.Store
import LocatedHtml.Proofs.Forest.Copies

/-!
Stores that are built by adding documents, and what stays when a store grows.
-/

namespace LocatedHtml

open NumberedTree

namespace Store

/-- A store as documents are added to it: the tree of a document is one of the forest, and its host is a
node of the forest outside of that tree. -/
structure WellFormed (s : Store) : Prop where
  numbered : s.forest.Numbered
  tree : ∀ {n : DocumentId} {d : StoredDocument} {root : NodeId}, s.documents[n]? = some d →
    d.body = .html root → ∃ t ∈ s.forest.roots, t.topId = root
  hosted : ∀ {n : DocumentId} {d : StoredDocument} {host : NodeId}, s.documents[n]? = some d →
    d.host = some host → ∃ t, s.forest.rootOf? host = some t ∧ d.body ≠ .html t.topId

theorem WellFormed.rootOf?_eq {s : Store} (formed : s.WellFormed) {n : DocumentId} {d : StoredDocument}
    {root : NodeId} (stored : s.documents[n]? = some d) (html : d.body = .html root) :
    ∃ t, s.forest.rootOf? root = some t ∧ t.topId = root := by
  obtain ⟨t, member, rfl⟩ := formed.tree stored html
  exact ⟨t, formed.numbered.rootOf?_eq member (List.mem_map_of_mem (Tree.mem_subtrees_self t)), rfl⟩

/-- Everything in the one store is in the other one as it was. -/
structure Grown (s s' : Store) : Prop where
  forest : s.forest.Grown s'.forest
  documents : ∃ more, s'.documents = s.documents ++ more

namespace Grown

variable {s s' s'' : Store}

theorem refl (s : Store) : Grown s s := ⟨.refl _, [], (List.append_nil _).symm⟩

theorem trans (first : Grown s s') (second : Grown s' s'') : Grown s s'' := by
  obtain ⟨more, here⟩ := first.documents
  obtain ⟨others, there⟩ := second.documents
  exact ⟨first.forest.trans second.forest, more ++ others, by rw [there, here, List.append_assoc]⟩

theorem documents_eq (grown : Grown s s') {n : DocumentId} (old : n < s.documents.length) :
    s'.documents[n]? = s.documents[n]? := by
  obtain ⟨more, here⟩ := grown.documents
  rw [here, List.getElem?_append_left old]

theorem stored (grown : Grown s s') {n : DocumentId} {d : StoredDocument}
    (stored : s.documents[n]? = some d) : s'.documents[n]? = some d := by
  rw [grown.documents_eq (List.getElem?_eq_some_iff.1 stored).1, stored]

end Grown

/-- A document is put behind the others. -/
theorem WellFormed.concat {s : Store} (formed : s.WellFormed) {f : Forest} (grown : s.forest.Grown f)
    (numbered : f.Numbered) {e : StoredDocument}
    (tree : ∀ root, e.body = .html root → ∃ t ∈ f.roots, t.topId = root)
    (hosted : ∀ host, e.host = some host → ∃ t, f.rootOf? host = some t ∧ e.body ≠ .html t.topId) :
    WellFormed ⟨f, s.documents ++ [e]⟩ := by
  have split {n : DocumentId} {d : StoredDocument} (stored : (s.documents ++ [e])[n]? = some d) :
      s.documents[n]? = some d ∨ d = e := by
    rw [List.getElem?_append] at stored
    split at stored
    · exact .inl stored
    · exact .inr (List.mem_singleton.1 (List.mem_of_getElem? stored))
  refine ⟨numbered, fun stored html => ?_, fun stored host => ?_⟩
  · rcases split stored with old | rfl
    · obtain ⟨t, member, top⟩ := formed.tree old html
      obtain ⟨more, roots, _⟩ := grown.roots
      exact ⟨t, by rw [roots]; exact List.mem_append_left more member, top⟩
    · exact tree _ html
  · rcases split stored with old | rfl
    · obtain ⟨t, place, other⟩ := formed.hosted old host
      exact ⟨t, grown.rootOf?_eq place, other⟩
    · exact hosted _ host

/-- A store stays well formed when a document is added whose host is in it. -/
theorem WellFormed.add {s : Store} (formed : s.WellFormed) (d : Document) {host : Option NodeId}
    (inside : ∀ n, host = some n → ∃ t, s.forest.rootOf? n = some t) : (s.add d host).WellFormed := by
  unfold Store.add
  cases d.body with
  | unknown | text =>
    refine formed.concat (.refl _) formed.numbered (fun _ html => by cases html) fun n here => ?_
    obtain ⟨t, place⟩ := inside n here
    exact ⟨t, place, StoredBody.noConfusion⟩
  | html tree =>
    have grown := Forest.Grown.plant s.forest tree
    have numbered := formed.numbered.plant tree
    refine formed.concat grown numbered (fun root html => ?_) fun n here => ?_
    · obtain rfl := StoredBody.html.inj html
      exact ⟨_, List.mem_append_right _ List.mem_cons_self, topId_number _ tree⟩
    · obtain ⟨t, place⟩ := inside n here
      refine ⟨t, grown.rootOf?_eq place, fun same => ?_⟩
      have top := formed.numbered.bounded t (Forest.rootOf?_eq_some place).1 t (Tree.mem_subtrees_self t)
      exact Nat.ne_of_gt top (StoredBody.html.inj same)

end Store

end LocatedHtml
