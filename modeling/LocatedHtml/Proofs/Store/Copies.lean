import LocatedHtml.Proofs.Store.Basic

/-!
Copies of documents that are made together. The copy of a document is the document with the copies of
its tree and its host in place of these, and no document is changed.
-/

namespace LocatedHtml

open NumberedTree

/-- The one document is the copy of the other. -/
structure CloneOf (f : Forest) (c : Copying) (d e : StoredDocument) : Prop where
  same : e = { d with body := e.body, host := e.host }
  body : (∀ root, d.body ≠ .html root) → e.body = d.body
  tree : ∀ root, d.body = .html root → ∃ root', e.body = .html root' ∧ Copying.Leads f c root root'
  unhosted : d.host = none → e.host = none
  host : ∀ host, d.host = some host → ∃ host', e.host = some host' ∧ Copying.Leads f c host host'

theorem CloneOf.later {f : Forest} {c c' : Copying} {d e : StoredDocument} (clone : CloneOf f c d e)
    (later : Copying.Later c c') : CloneOf f c' d e where
  same := clone.same
  body := clone.body
  tree root html := by
    obtain ⟨root', body, leads⟩ := clone.tree root html
    exact ⟨root', body, leads.later later⟩
  unhosted := clone.unhosted
  host host hosted := by
    obtain ⟨host', here, leads⟩ := clone.host host hosted
    exact ⟨host', here, leads.later later⟩

namespace CloneOf

variable {f : Forest} {c : Copying} {d e : StoredDocument}

theorem text (clone : CloneOf f c d e) (body : d.body = .text) : e.body = .text :=
  (clone.body (by rw [body]; exact fun _ => StoredBody.noConfusion)).trans body

theorem description_eq (clone : CloneOf f c d e) (g g' : Forest) :
    (e.toDocument g).description = (d.toDocument g').description := by
  rw [clone.same]
  cases body : d.body with
  | unknown | text =>
    have same := clone.body (by rw [body]; exact fun _ => StoredBody.noConfusion)
    simp only [StoredDocument.toDocument, Document.description, same, body]
  | html root =>
    obtain ⟨root', same, _⟩ := clone.tree root body
    simp only [StoredDocument.toDocument, Document.description, body, same]

end CloneOf

namespace Copying

variable {f : Forest} {c : Copying}

theorem later_copyBody (c : Copying) (body : StoredBody) : Later c (c.copyBody body).1 := by
  cases body with
  | html root => exact later_copy c root
  | unknown => exact .refl c
  | text => exact .refl c

theorem later_copyHost (c : Copying) (host : Option NodeId) : Later c (c.copyHost host).1 := by
  cases host with
  | some host => exact later_copy c host
  | none => exact .refl c

theorem later_copyDocument (c : Copying) (d : StoredDocument) : Later c (c.copyDocument d).1 :=
  (later_copyBody c d.body).trans (later_copyHost _ d.host)

theorem CopiesOf.copyBody (copies : CopiesOf f c) (numbered : f.Numbered) {body : StoredBody}
    (trees : ∀ root, body = .html root → ∃ t, f.rootOf? root = some t) :
    CopiesOf f (c.copyBody body).1 ∧ ((∀ root, body ≠ .html root) → (c.copyBody body).2 = body) ∧
      ∀ root, body = .html root →
        ∃ root', (c.copyBody body).2 = .html root' ∧ Leads f (c.copyBody body).1 root root' := by
  cases body with
  | unknown => exact ⟨copies, fun _ => rfl, fun root none => by cases none⟩
  | text => exact ⟨copies, fun _ => rfl, fun root none => by cases none⟩
  | html root =>
    obtain ⟨t, place⟩ := trees root rfl
    obtain ⟨copies, leads⟩ := copies.copy numbered place
    refine ⟨copies, fun other => absurd rfl (other root), fun _ same => ?_⟩
    cases same
    exact ⟨_, rfl, leads⟩

theorem CopiesOf.copyHost (copies : CopiesOf f c) (numbered : f.Numbered) {o : Option NodeId}
    (hosts : ∀ host, o = some host → ∃ t, f.rootOf? host = some t) :
    CopiesOf f (c.copyHost o).1 ∧ (o = none → (c.copyHost o).2 = none) ∧
      ∀ host, o = some host →
        ∃ host', (c.copyHost o).2 = some host' ∧ Leads f (c.copyHost o).1 host host' := by
  cases o with
  | none => exact ⟨copies, fun _ => rfl, fun host none => by cases none⟩
  | some host =>
    obtain ⟨t, place⟩ := hosts host rfl
    obtain ⟨copies, leads⟩ := copies.copy numbered place
    refine ⟨copies, fun none => (by cases none), fun _ same => ?_⟩
    cases same
    exact ⟨_, rfl, leads⟩

theorem CopiesOf.copyDocument (copies : CopiesOf f c) (numbered : f.Numbered) {d : StoredDocument}
    (trees : ∀ root, d.body = .html root → ∃ t, f.rootOf? root = some t)
    (hosts : ∀ host, d.host = some host → ∃ t, f.rootOf? host = some t) :
    CopiesOf f (c.copyDocument d).1 ∧ CloneOf f (c.copyDocument d).1 d (c.copyDocument d).2 := by
  obtain ⟨copies, body, tree⟩ := copies.copyBody numbered trees
  obtain ⟨copies, unhosted, host⟩ := copies.copyHost numbered hosts
  refine ⟨copies, rfl, body, fun root html => ?_, unhosted, host⟩
  obtain ⟨root', same, leads⟩ := tree root html
  exact ⟨root', same, leads.later (later_copyHost _ d.host)⟩

end Copying

namespace StoreCopying

variable {s : Store} {c c' : StoreCopying} {n : DocumentId} {d : StoredDocument}

/-- More has been copied. -/
structure Later (c c' : StoreCopying) : Prop where
  nodes : Copying.Later c.nodes c'.nodes
  documents : ∃ more, c'.documents = c.documents ++ more

theorem Later.refl (c : StoreCopying) : Later c c := ⟨.refl _, [], (List.append_nil _).symm⟩

theorem Later.trans {c'' : StoreCopying} (first : Later c c') (second : Later c' c'') : Later c c'' := by
  obtain ⟨more, here⟩ := first.documents
  obtain ⟨others, there⟩ := second.documents
  exact ⟨first.nodes.trans second.nodes, more ++ others, by rw [there, here, List.append_assoc]⟩

theorem Later.store (later : Later c c') : c.store.Grown c'.store := ⟨later.nodes.grown, later.documents⟩

theorem later_copy (c : StoreCopying) (n : DocumentId) : Later c (c.copy n).1 := by
  unfold StoreCopying.copy
  split
  · exact .refl c
  · split
    · exact .refl c
    · exact ⟨Copying.later_copyDocument _ _, _, rfl⟩

theorem later_copyAll (c : StoreCopying) (ns : List DocumentId) : Later c (c.copyAll ns).1 := by
  induction ns generalizing c with
  | nil => exact .refl c
  | cons n ns ih => exact (later_copy c n).trans (ih _)

/-- The documents of the given numbers, one in the store and one copied, are document and copy. -/
def Clones (s : Store) (c : StoreCopying) (n m : DocumentId) : Prop :=
  ∃ d e, s.documents[n]? = some d ∧ c.documents[m]? = some e ∧ CloneOf s.forest c.nodes d e

theorem Clones.later {m : DocumentId} (clones : Clones s c n m) (later : Later c c') : Clones s c' n m := by
  obtain ⟨d, e, stored, copied, clone⟩ := clones
  exact ⟨d, e, stored, later.store.stored copied, clone.later later.nodes⟩

/-- Copies of documents of a store and of the trees they need. -/
structure CopiesOf (s : Store) (c : StoreCopying) : Prop where
  nodes : Copying.CopiesOf s.forest c.nodes
  documents : ∃ more, c.documents = s.documents ++ more
  copied : ∀ {n m}, c.copied.lookup n = some m → Clones s c n m

theorem copiesOf_initial (s : Store) : CopiesOf s (start s) where
  nodes := Copying.copiesOf_initial s.forest
  documents := ⟨[], (List.append_nil _).symm⟩
  copied none := by cases none

theorem CopiesOf.store (copies : CopiesOf s c) : s.Grown c.store := ⟨copies.nodes.grown, copies.documents⟩

theorem CopiesOf.copy (copies : CopiesOf s c) (formed : s.WellFormed) (stored : s.documents[n]? = some d) :
    CopiesOf s (c.copy n).1 ∧ Clones s (c.copy n).1 n (c.copy n).2 := by
  have later := later_copy c n
  have here : c.documents[n]? = some d := copies.store.stored stored
  unfold StoreCopying.copy at later ⊢
  cases copied : c.copied.lookup n with
  | some m => exact ⟨copies, copies.copied copied⟩
  | none =>
    rw [copied, here] at later
    rw [here]
    dsimp only at later ⊢
    have hosts (host : NodeId) (hosted : d.host = some host) : ∃ t, s.forest.rootOf? host = some t := by
      obtain ⟨t, place, _⟩ := formed.hosted stored hosted
      exact ⟨t, place⟩
    have trees (root : NodeId) (html : d.body = .html root) : ∃ t, s.forest.rootOf? root = some t := by
      obtain ⟨t, place, _⟩ := formed.rootOf?_eq stored html
      exact ⟨t, place⟩
    obtain ⟨nodes, clone⟩ := copies.nodes.copyDocument formed.numbered trees hosts
    have clones : Clones s ⟨(c.nodes.copyDocument d).1, c.documents ++ [(c.nodes.copyDocument d).2],
        (n, c.documents.length) :: c.copied⟩ n c.documents.length :=
      ⟨d, _, stored, List.getElem?_concat_length, clone⟩
    refine ⟨⟨nodes, (copies.store.trans later.store).documents, fun copied => ?_⟩, clones⟩
    dsimp only at copied
    rcases Copying.lookup_copied copied with ⟨rfl, rfl⟩ | earlier
    · exact clones
    · exact (copies.copied earlier).later later

theorem CopiesOf.copyAll (copies : CopiesOf s c) (formed : s.WellFormed) {ns : List DocumentId}
    (stored : ∀ n ∈ ns, ∃ d, s.documents[n]? = some d) :
    CopiesOf s (c.copyAll ns).1 ∧ List.Forall₂ (Clones s (c.copyAll ns).1) ns (c.copyAll ns).2 := by
  induction ns generalizing c with
  | nil => exact ⟨copies, .nil⟩
  | cons n ns ih =>
    rw [List.forall_mem_cons] at stored
    obtain ⟨⟨d, here⟩, others⟩ := stored
    obtain ⟨copies, clones⟩ := copies.copy formed here
    obtain ⟨copies, more⟩ := ih copies others
    exact ⟨copies, .cons (clones.later (later_copyAll _ ns)) more⟩

end StoreCopying

end LocatedHtml
