import LocatedHtml.Proofs.Store.Hosting

/-!
The copies of documents that are put into a tree stand for the documents there: their hosts are in the copy
of the tree, and their own trees are copied beside it.
-/

namespace LocatedHtml

open NumberedTree

namespace Store

variable {s : Store} {c : StoreCopying} {l : Layout} {t : NumberedTree} {n m : DocumentId}

/-- The host of a document. -/
def host? (s : Store) (n : DocumentId) : Option NodeId := (s.documents[n]?).bind (·.host)

/-- A document by itself. -/
def document? (s : Store) (n : DocumentId) : Option Document := (s.documents[n]?).map (·.toDocument s.forest)

/-- A document may be put into a tree: it is a text or has a tree, and its host, if it has one, is in the
tree, which is not its own. -/
structure CanStandIn (s : Store) (t : NumberedTree) (d : StoredDocument) : Prop where
  known : d.body ≠ .unknown
  inside : ∀ host, d.host = some host → host ∈ ids t

/-- The host of a document is given by its place in the tree it is in. -/
theorem toDocument_host (formed : s.WellFormed) (member : t ∈ s.forest.roots) {d : StoredDocument}
    (inside : ∀ host, d.host = some host → host ∈ ids t) :
    (d.toDocument s.forest).host = d.host.map (ids t).idxOf := by
  rw [StoredDocument.toDocument]
  cases host : d.host with
  | none => rfl
  | some h =>
    rw [Option.bind_some, formed.numbered.rootOf?_eq member (inside h host)]
    rfl

theorem toDocument_html (formed : s.WellFormed) {d : StoredDocument} (body : d.body = .html t.topId)
    (place : s.forest.rootOf? t.topId = some t) : (d.toDocument s.forest).body = .html t.toHtml := by
  have html := formed.numbered.html?_top (Forest.rootOf?_eq_some place).1
  simp only [StoredDocument.toDocument, body, html, Option.getD_some]

theorem shows_toDocument (formed : s.WellFormed) {d : StoredDocument} (stored : s.documents[n]? = some d)
    (known : d.body ≠ .unknown) : s.Shows d (d.toDocument s.forest) := by
  refine ⟨rfl, ?_⟩
  cases body : d.body with
  | unknown => exact absurd body known
  | text => exact .inl ⟨rfl, by simp only [StoredDocument.toDocument, body]⟩
  | html root =>
    obtain ⟨t, place, rfl⟩ := formed.rootOf?_eq stored body
    exact .inr ⟨t, rfl, place, toDocument_html formed body place⟩

/-- A layout for the copies that are made of a tree and then of others. -/
structure LaidOut (s : Store) (c : StoreCopying) (l : Layout) (t : NumberedTree) : Prop where
  copies : StoreCopying.CopiesOf s c
  member : t ∈ s.forest.roots
  later : Copying.Later ⟨s.forest.plant t.toHtml, [(t.topId, s.forest.next)]⟩ c.nodes
  base : l.base = s.forest.next
  tree : l.tree = t.toHtml
  limit : l.limit = c.nodes.forest.next

namespace LaidOut

/-- The copy of an HTML document has a copy of the document's tree. -/
theorem tree_clone (laid : LaidOut s c l t) (formed : s.WellFormed) {d e : StoredDocument}
    {root : NodeId} (stored : s.documents[n]? = some d) (body : d.body = .html root)
    (clone : CloneOf s.forest c.nodes d e) :
    ∃ u first, s.forest.rootOf? root = some u ∧ topId u = root ∧ e.body = .html first ∧
      c.nodes.copied.lookup root = some first ∧
      c.nodes.forest.rootOf? first = some (u.toHtml.number first) := by
  obtain ⟨u, here, rfl⟩ := formed.rootOf?_eq stored body
  obtain ⟨root', same, u', first, there, lookup, rfl⟩ := clone.tree _ body
  obtain rfl := Option.some.inj (here.symm.trans there)
  obtain ⟨w, again, _, place⟩ := laid.copies.nodes.copied lookup
  obtain rfl := Option.some.inj (here.symm.trans again)
  rw [idxOf_topId, Nat.add_zero] at same
  exact ⟨u, first, here, rfl, same, lookup, place⟩

theorem host_clone (laid : LaidOut s c l t) (formed : s.WellFormed) {d e : StoredDocument}
    (fits : s.CanStandIn t d) (clone : CloneOf s.forest c.nodes d e) :
    e.host = (d.toDocument s.forest).host.map (l.base + ·) := by
  rw [toDocument_host formed laid.member fits.inside]
  cases hosted : d.host with
  | none => rw [clone.unhosted hosted]; rfl
  | some h =>
    obtain ⟨h', here, u, first, root, lookup, place⟩ := clone.host h hosted
    have same := formed.numbered.rootOf?_eq laid.member (fits.inside h hosted)
    obtain rfl := Option.some.inj (same.symm.trans root)
    obtain rfl := Option.some.inj ((laid.later.kept List.lookup_cons_self).symm.trans lookup)
    rw [here, place, laid.base]
    rfl

/-- A tree that is not the first one copied has its copy behind the one of the first. -/
theorem behind (laid : LaidOut s c l t) {root first : NodeId} (other : root ≠ t.topId)
    (lookup : c.nodes.copied.lookup root = some first) : l.base + l.tree.size ≤ first := by
  rw [laid.base, laid.tree]
  rcases laid.later.fresh lookup with earlier | late
  · rcases Copying.lookup_copied earlier with ⟨same, _⟩ | absent
    · exact absurd same other
    · cases absent
  · exact late

/-- The copy of a document that may be put into the tree stands for the document there. -/
theorem mirrorsAt (laid : LaidOut s c l t) (formed : s.WellFormed) {d : StoredDocument}
    (stored : s.documents[n]? = some d) (fits : s.CanStandIn t d) (clones : StoreCopying.Clones s c n m) :
    c.store.MirrorsAt c.nodes.forest l m (d.toDocument s.forest) := by
  obtain ⟨d', e, stored', copied, clone⟩ := clones
  obtain rfl : d = d' := Option.some.inj (stored.symm.trans stored')
  refine ⟨e, copied, fun f => clone.description_eq f _, laid.host_clone formed fits clone,
    by rw [clone.same]; rfl, fun hosted => ?_⟩
  cases body : d.body with
  | unknown => exact absurd body fits.known
  | text => exact .inl ⟨clone.text body, by simp only [StoredDocument.toDocument, body]⟩
  | html root =>
    obtain ⟨u, first, here, rfl, same, lookup, place⟩ := laid.tree_clone formed stored body clone
    have other : topId u ≠ t.topId := by
      rw [toDocument_host formed laid.member fits.inside, Ne, Option.map_eq_none_iff] at hosted
      obtain ⟨h, hosted⟩ := Option.ne_none_iff_exists'.1 hosted
      obtain ⟨w, root, apart⟩ := formed.hosted stored hosted
      have around := formed.numbered.rootOf?_eq laid.member (fits.inside h hosted)
      obtain rfl := Option.some.inj (around.symm.trans root)
      rw [body] at apart
      exact fun same => apart (congrArg StoredBody.html same)
    refine .inr ⟨u.toHtml.number first, ?_, ?_, ?_, ?_, ?_⟩
    · rw [topId_number]
      exact same
    · rw [toDocument_html formed body here]
      exact congrArg Body.html (Tree.map_number first u.toHtml).symm
    · rw [topId_number]
      exact place
    · rw [topId_number]
      exact laid.behind other lookup
    · rw [topId_number, laid.limit]
      exact (laid.copies.nodes.grown.bounded formed.numbered.bounded).lt_of_rootOf? place

theorem mirrorsAt_all (laid : LaidOut s c l t) (formed : s.WellFormed) {ns ms : List DocumentId}
    {ds : List Document} (fits : ∀ n ∈ ns, ∃ d, s.documents[n]? = some d ∧ s.CanStandIn t d)
    (known : List.Forall₂ (fun n d => s.document? n = some d) ns ds)
    (clones : List.Forall₂ (StoreCopying.Clones s c) ns ms) :
    List.Forall₂ (c.store.MirrorsAt c.nodes.forest l) ms ds := by
  induction clones generalizing ds with
  | nil =>
    cases known
    exact .nil
  | cons clone _ ih =>
    cases known with
    | cons here known =>
    rw [List.forall_mem_cons] at fits
    obtain ⟨⟨d, stored, fit⟩, fits⟩ := fits
    rw [document?, stored, Option.map_some] at here
    obtain rfl := Option.some.inj here
    exact .cons (laid.mirrorsAt formed stored fit clone) (ih fits known)

end LaidOut

end Store

end LocatedHtml
