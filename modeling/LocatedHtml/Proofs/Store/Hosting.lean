import LocatedHtml.Proofs.Store.PlainText
import LocatedHtml.Proofs.Store.Printing

/-!
Texts of inline documents put into the copies of their hosts, one after another. The copied tree then holds
them, the last one where a host is repeated, and a document without a host stops the series.
-/

namespace LocatedHtml

open NumberedTree

/-- Nodes of a layout's tree that may get texts: elements that can hold one, none of them inside of
another. -/
structure Layout.Hosts (l : Layout) (hosts : NodeId → Prop) : Prop where
  element : ∀ {n : NodeId}, hosts n → n ≠ l.base ∧ ∃ u ∈ l.copy.subtrees, topId u = n ∧ IsHost u
  apart : ∀ {n m : NodeId}, hosts n → hosts m → ∀ u ∈ l.copy.subtrees, topId u = n → m ∈ ids u → m = n

/-- A text that a node gets counts unless a later one is for the same node. -/
theorem lookup_last (held : Held) (p : NodeId × Text) (leaf : NodeId) (texts : List (NodeId × Text))
    (n : NodeId) :
    (texts.reverse.lookup n).or ((((p.1, leaf, p.2) :: held).lookup n).map Prod.snd) =
      ((p :: texts).reverse.lookup n).or ((held.lookup n).map Prod.snd) := by
  rw [List.reverse_cons, List.lookup_append, Option.or_assoc, List.lookup_cons, List.lookup_cons]
  cases n == p.1 <;> rfl

namespace Layout.Hosts

variable {l : Layout} {hosts : NodeId → Prop} {held : Held}

theorem reached (allowed : l.Hosts hosts) (inside : ∀ n, held.lookup n ≠ none → hosts n) {u : NumberedTree}
    (member : u ∈ l.copy.subtrees) (host : hosts (topId u)) : topId u ∈ ids (filled held l.copy) := by
  apply mem_ids_filled (List.mem_map_of_mem member)
  intro w above has other
  by_contra holding
  exact other (allowed.apart (inside _ holding) host w above rfl has).symm

theorem setText (allowed : l.Hosts hosts) (inside : ∀ n, held.lookup n ≠ none → hosts n) {f : Forest}
    (holds : f.Holds l held) {n : NodeId} (host : hosts n) (value : Text) :
    (f.setText n value).Holds l ((n, f.next, value) :: held) ∧
      ∀ m, ((n, f.next, value) :: held).lookup m ≠ none → hosts m := by
  obtain ⟨inner, u, member, rfl, element⟩ := allowed.element host
  obtain ⟨name, attributes, content, _⟩ := element.element
  refine ⟨holds.setText member inner content (allowed.reached inside member host) value, fun m holding => ?_⟩
  by_cases here : m = topId u
  · rwa [here]
  · rw [List.lookup_cons, beq_false_of_ne here] at holding
    exact inside m holding

theorem isHost (allowed : l.Hosts hosts) {u : NumberedTree} (below : u ∈ l.copy.subtrees)
    (host : hosts (topId u)) : IsHost u := by
  obtain ⟨_, w, inside, same, element⟩ := allowed.element host
  obtain rfl := List.inj_on_of_nodup_map (f := topId) l.copy_nodup inside below same
  exact element

/-- Hosts get texts, and each holds the last one for it. -/
theorem foldl_setText (allowed : l.Hosts hosts) {texts : List (NodeId × Text)}
    (into : ∀ p ∈ texts, hosts p.1) {f : Forest} (holds : f.Holds l held)
    (inside : ∀ n, held.lookup n ≠ none → hosts n) :
    ∃ held', (texts.foldl (fun f p => f.setText p.1 p.2) f).Holds l held' ∧
      (∀ n, held'.lookup n ≠ none → hosts n) ∧
      ∀ n, (held'.lookup n).map Prod.snd = (texts.reverse.lookup n).or ((held.lookup n).map Prod.snd) := by
  induction texts generalizing f held with
  | nil => exact ⟨held, holds, inside, fun _ => rfl⟩
  | cons p texts ih =>
    rw [List.forall_mem_cons] at into
    obtain ⟨holds, inside⟩ := allowed.setText inside holds into.1 p.2
    obtain ⟨held', holds, inside, lookup⟩ := ih into.2 holds inside
    exact ⟨held', holds, inside, fun n => by rw [lookup, lookup_last]⟩

theorem base_le (allowed : l.Hosts hosts) {n : NodeId} (host : hosts n) : l.base ≤ n := by
  obtain ⟨_, u, member, rfl, _⟩ := allowed.element host
  exact (Layout.range_copy member).1

end Layout.Hosts

namespace Layout

variable {l : Layout} {t : NumberedTree}

/-- The place of a node of a tree in a copy of the tree. -/
def place (l : Layout) (t : NumberedTree) (n : NodeId) : NodeId := l.base + (ids t).idxOf n

theorem place_inj (l : Layout) {n m : NodeId} (has : n ∈ ids t) (same : l.place t n = l.place t m) : n = m :=
  (List.idxOf_inj has).1 (Nat.add_left_cancel same)

theorem copy_eq (tree : l.tree = t.toHtml) (distinct : (ids t).Nodup) :
    l.copy = t.map (Prod.map (l.place t) id) := by
  rw [copy, tree]
  exact number_toHtml distinct l.base

theorem mem_copy (tree : l.tree = t.toHtml) (distinct : (ids t).Nodup) {w : NumberedTree} :
    w ∈ l.copy.subtrees ↔ ∃ u ∈ t.subtrees, w = u.map (Prod.map (l.place t) id) := by
  rw [copy_eq tree distinct, Tree.subtrees_map, List.mem_map]
  exact ⟨fun ⟨u, member, same⟩ => ⟨u, member, same.symm⟩, fun ⟨u, member, same⟩ => ⟨u, member, same.symm⟩⟩

theorem map_topId (l : Layout) (t u : NumberedTree) :
    topId (u.map (Prod.map (l.place t) id)) = l.place t u.topId := by
  cases u
  rfl

end Layout

namespace NumberedTree

/-- Elements of a tree that can be hosts together: they can hold texts, and none is inside of another. -/
structure Hosts (t : NumberedTree) (hosts : NodeId → Prop) : Prop where
  element : ∀ {n : NodeId}, hosts n → ∃ u ∈ t.subtrees, topId u = n ∧ IsHost u
  apart : ∀ {n m : NodeId}, hosts n → hosts m → ∀ u ∈ t.subtrees, topId u = n → m ∈ ids u → m = n

namespace Hosts

variable {l : Layout} {t : NumberedTree} {hosts : NodeId → Prop}

/-- The copies of hosts are hosts in the copy of their tree. -/
theorem layout (allowed : t.Hosts hosts) (tree : l.tree = t.toHtml) (distinct : (ids t).Nodup)
    (root : t.value.2.content = .document) :
    l.Hosts fun n => ∃ host, hosts host ∧ n = l.place t host where
  element := by
    rintro _ ⟨host, here, rfl⟩
    obtain ⟨u, member, rfl, element⟩ := allowed.element here
    refine ⟨fun top => ?_, _, (Layout.mem_copy tree distinct).2 ⟨u, member, rfl⟩, l.map_topId t u, ?_⟩
    · have first : l.place t t.topId = l.base := by
        have copied := l.map_topId t t
        rw [← Layout.copy_eq tree distinct, l.topId_copy] at copied
        exact copied.symm
      have same := l.place_inj (List.mem_map_of_mem member) (top.trans first.symm)
      obtain rfl := List.inj_on_of_nodup_map distinct member (Tree.mem_subtrees_self t) same
      obtain ⟨name, attributes, content, _⟩ := element.element
      rw [root] at content
      cases content
    · cases u
      exact ⟨element.located, element.element⟩
  apart := by
    rintro _ _ ⟨host, here, rfl⟩ ⟨other, there, rfl⟩ w copied top has
    obtain ⟨u, member, rfl⟩ := (Layout.mem_copy tree distinct).1 copied
    rw [l.map_topId] at top
    rw [ids_map] at has
    obtain ⟨m, below, same⟩ := List.mem_map.1 has
    have inside : m ∈ ids t := by
      obtain ⟨v, under, rfl⟩ := List.mem_map.1 below
      exact List.mem_map_of_mem (Tree.mem_subtrees_trans under member)
    obtain rfl := l.place_inj inside same
    have here' := l.place_inj (List.mem_map_of_mem member) top
    rw [allowed.apart here there u member here' below]

end Hosts

end NumberedTree

namespace Store

/-- A copied document stands for a document whose host is given by its place in the tree of a layout. If
it has a host, its own tree is another one, copied as it is in `g`. -/
structure Mirrors (g : Forest) (l : Layout) (e : StoredDocument) (d : Document) : Prop where
  description : ∀ f, (e.toDocument f).description = d.description
  host : e.host = d.host.map (l.base + ·)
  contents : e.contents = d.contents
  body : d.host ≠ none → e.body = .text ∧ d.body = .text ∨
    ∃ t, e.body = .html t.topId ∧ d.body = .html t.toHtml ∧ g.rootOf? t.topId = some t ∧
      l.base + l.tree.size ≤ t.topId ∧ t.topId < l.limit

/-- The document of the number stands for the other one. -/
def MirrorsAt (s : Store) (g : Forest) (l : Layout) (m : DocumentId) (d : Document) : Prop :=
  ∃ e, s.documents[m]? = some e ∧ Mirrors g l e d

theorem MirrorsAt.grown {s s' : Store} {g : Forest} {l : Layout} {m : DocumentId} {d : Document}
    (mirrors : s.MirrorsAt g l m d) (grown : s.Grown s') : s'.MirrorsAt g l m d := by
  obtain ⟨e, stored, mirrors⟩ := mirrors
  exact ⟨e, grown.stored stored, mirrors⟩

/-- What filling has come to: the tree holds texts in hosts, the error or success is the one of the documents,
and after success each host has the last text for it. -/
structure Filled (s₀ s : Store) (l : Layout) (hosts : NodeId → Prop) (held : Held) (ds : List Document)
    (done : Store × Except DocumentError Unit) (held' : Held) : Prop where
  holds : done.1.forest.Holds l held'
  inside : ∀ n, held'.lookup n ≠ none → hosts n
  grown : s₀.Grown done.1
  kept : ∀ {n : DocumentId} {e : StoredDocument}, s.documents[n]? = some e → done.1.documents[n]? = some e
  result : done.2 = (ds.mapM Document.hosted).map fun _ => ()
  texts : ∀ texts, ds.mapM Document.hosted = .ok texts → ∀ n, (held'.lookup n).map Prod.snd =
    ((texts.map (Prod.map (l.base + ·) id)).reverse.lookup n).or ((held.lookup n).map Prod.snd)

variable {g : Forest} {l : Layout} {hosts : NodeId → Prop} {s s₀ : Store} {held : Held}

/-- What filling comes to after a document that has got its text into its host. -/
theorem Filled.cons {s' : Store} {held' : Held} {done : Store × Except DocumentError Unit} {d : Document}
    {ds : List Document} {k leaf : NodeId} {value : Text}
    (filled : Filled s₀ s' l hosts ((l.base + k, leaf, value) :: held) ds done held')
    (kept : ∀ {n : DocumentId} {e : StoredDocument}, s.documents[n]? = some e → s'.documents[n]? = some e)
    (hosted : d.hosted = .ok (k, value)) : Filled s₀ s l hosts held (d :: ds) done held' where
  holds := filled.holds
  inside := filled.inside
  grown := filled.grown
  kept stored := filled.kept (kept stored)
  result := by
    rw [List.mapM_cons, hosted, filled.result]
    cases ds.mapM Document.hosted <;> rfl
  texts texts done n := by
    rw [List.mapM_cons, hosted] at done
    cases rest : ds.mapM Document.hosted with
    | error e =>
      rw [rest] at done
      cases done
    | ok others =>
      rw [rest] at done
      cases done
      rw [filled.texts others rest n, List.map_cons]
      exact lookup_last held (l.base + k, value) _ _ n

/-- Where nothing but hosts of the layout has got a text, a hosted copy shows its document. -/
theorem Mirrors.shows {e : StoredDocument} {d : Document} (mirrors : Mirrors g l e d)
    (start : g.roots = l.before ++ l.copy :: l.copies) (holds : s.forest.Holds l held)
    (hosted : d.host ≠ none) : s.Shows e d := by
  refine ⟨mirrors.contents, ?_⟩
  rcases mirrors.body hosted with text | ⟨t, body, html, place, late, early⟩
  · exact .inl text
  · exact .inr ⟨t, body, holds.rootOf?_eq start late early place, html⟩

theorem fillHosts_filled (start : g.roots = l.before ++ l.copy :: l.copies) (allowed : l.Hosts hosts)
    (bounded : s₀.forest.Bounded) (first : s₀.forest.next ≤ l.base) {ms : List DocumentId}
    {ds : List Document} (grown : s₀.Grown s) (holds : s.forest.Holds l held)
    (inside : ∀ n, held.lookup n ≠ none → hosts n)
    (mirrors : List.Forall₂ (s.MirrorsAt g l) ms ds)
    (fits : ∀ d ∈ ds, ∀ k, d.host = some k → hosts (l.base + k)) :
    ∃ held', Filled s₀ s l hosts held ds (s.fillHosts ms) held' := by
  -- writing one document only adds to the store, so the others are still what they were copied from
  induction ms generalizing ds s held with
  | nil =>
    cases mirrors
    refine ⟨held, holds, inside, grown, id, rfl, fun texts none n => ?_⟩
    cases none
    rfl
  | cons m ms ih =>
    cases mirrors with
    | @cons _ d _ ds mirror others =>
    obtain ⟨e, stored, mirrors⟩ := mirror
    rw [List.forall_mem_cons] at fits
    unfold fillHosts
    rw [stored]
    dsimp only
    rw [mirrors.host]
    cases host : d.host with
    | none =>
      have stopped : (d :: ds).mapM Document.hosted = .error (.noHost d.description) := by
        rw [List.mapM_cons, Document.hosted_of_none host]
        rfl
      refine ⟨held, holds, inside, grown, id, ?_, fun texts done => ?_⟩
      · rw [stopped, Option.map_none]
        dsimp only
        rw [mirrors.description]
        rfl
      · rw [stopped] at done
        cases done
    | some k =>
      have shows : s.Shows e d := mirrors.shows start holds (by rw [host]; exact Option.some_ne_none k)
      obtain ⟨text, plain⟩ := shows.plainText_ok hostedLevel
      obtain ⟨same, more⟩ := plainText_eq (grown.forest.bounded bounded) stored shows hostedLevel
      have whole : s.plainText m hostedLevel = ((s.plainText m hostedLevel).1, .ok text) :=
        Prod.ext rfl (same.trans plain)
      obtain ⟨holds, inside⟩ := allowed.setText inside (holds.grown more.forest) (fits.1 k host)
        (Document.hostedText text)
      have later : s₀.Grown ⟨(s.plainText m hostedLevel).1.forest.setText (l.base + k)
          (Document.hostedText text), (s.plainText m hostedLevel).1.documents⟩ := by
        refine ⟨(grown.trans more).forest.setText bounded ?_ _, (grown.trans more).documents⟩
        exact Nat.le_trans first (allowed.base_le (fits.1 k host))
      obtain ⟨held', filled⟩ := ih later holds inside
        (others.imp fun m d (mirror : s.MirrorsAt g l m d) => mirror.grown more) fits.2
      rw [Option.map_some, whole]
      exact ⟨held', filled.cons more.stored (Document.hosted_of_some host plain)⟩

end Store

end LocatedHtml
