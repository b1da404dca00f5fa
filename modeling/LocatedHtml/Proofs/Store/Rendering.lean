import LocatedHtml.Proofs.Store.Mirroring

/-!
A document written with inline documents. All is done in copies, and what comes out is the text that is
printed for the document with the texts of the inline documents in their hosts.
-/

namespace LocatedHtml

open NumberedTree

theorem lookup_map_key {α : Type} {l : List (NodeId × α)} {g : NodeId → NodeId} {n : NodeId}
    (apart : ∀ p ∈ l, g n = g p.1 → n = p.1) : (l.map (Prod.map g id)).lookup (g n) = l.lookup n := by
  induction l with
  | nil => rfl
  | cons p l ih =>
    rw [List.forall_mem_cons] at apart
    obtain ⟨m, a⟩ := p
    rw [List.map_cons, Prod.map, List.lookup_cons, List.lookup_cons, ih apart.2]
    by_cases same : n = m
    · rw [same, beq_self_eq_true, beq_self_eq_true]
      rfl
    · rw [beq_false_of_ne same, beq_false_of_ne fun equal => same (apart.1 equal)]

/-- A tree by itself with texts in its hosts is written as it is printed with them. -/
theorem writtenWith_printed {l : Layout} {hosts : NodeId → Prop} (allowed : l.Hosts hosts) (base : l.base = 0)
    (holds : (Forest.plant {} l.tree).Holds l []) (root : l.tree.value.content = .document)
    (plain : Everywhere SplicesPlainly [] l.tree) {texts : List (NodeId × Text)}
    (into : ∀ p ∈ texts, hosts p.1) :
    Document.writtenWith l.tree texts = printed (fun n => texts.reverse.lookup n) false l.copy := by
  obtain ⟨held, holds, inside, lookup⟩ := allowed.foldl_setText into holds fun n none => absurd rfl none
  have innerHtml := holds.innerHtml_eq root plain
    fun u below holding => allowed.isHost below (inside _ holding)
  rw [base, Option.map_eq_some_iff] at innerHtml
  obtain ⟨changed, found, written⟩ := innerHtml
  have last : (fun n => (held.lookup n).map Prod.snd) = fun n => texts.reverse.lookup n :=
    funext fun n => by rw [lookup, List.lookup_nil, Option.map_none, Option.or_none]
  rw [last] at written
  unfold Document.writtenWith
  dsimp only
  change Forest.html? (Forest.removeInjected (texts.foldl _ _) 0).1 0 = _ at found
  rw [found]
  exact written

namespace Store

variable {s : Store} {t : NumberedTree} {n : DocumentId}

theorem render_nil (s : Store) (n : DocumentId) (indent : Nat) :
    s.render n [] indent = s.plainText n indent := by
  unfold Store.render
  cases stored : s.documents[n]? with
  | none => rfl
  | some d =>
    rw [Option.bind_some, StoredDocument.root?]
    cases body : d.body with
    | unknown => rfl
    | text => rfl
    | html root =>
      dsimp only
      rw [plainText, stored]
      dsimp only
      rw [body]
      rfl

/-- The host of a document gets the text of the document on the level for hosts. -/
def Inserts (s : Store) (n : DocumentId) (entry : NodeId × Text) : Prop :=
  s.host? n = some entry.1 ∧
    ∃ text, (s.render n [] hostedLevel).2 = .ok text ∧ entry.2 = Document.hostedText text

/-- The documents of a store are hosted as they are by themselves, up to the first one without a host. -/
theorem mapM_hosted (formed : s.WellFormed) (member : t ∈ s.forest.roots) {ns : List DocumentId}
    {ds : List Document} (fits : ∀ n ∈ ns, ∃ d, s.documents[n]? = some d ∧ s.CanStandIn t d)
    (known : List.Forall₂ (fun n d => s.document? n = some d) ns ds) :
    (∃ texts, List.Forall₂ s.Inserts ns texts ∧
      ds.mapM Document.hosted = .ok (texts.map (Prod.map (fun n => (ids t).idxOf n) id))) ∨
    (∃ n ∈ ns, s.host? n = none) ∧ ∃ name, ds.mapM Document.hosted = .error (.noHost name) := by
  induction known with
  | nil => exact .inl ⟨[], .nil, rfl⟩
  | @cons n _ ns ds here _ ih =>
    rw [List.forall_mem_cons] at fits
    obtain ⟨⟨d, stored, fit⟩, fits⟩ := fits
    rw [document?, stored, Option.map_some] at here
    obtain rfl := Option.some.inj here
    have hosted := toDocument_host formed member fit.inside
    rw [List.mapM_cons]
    cases host : d.host with
    | none =>
      refine .inr ⟨⟨n, List.mem_cons_self, by rw [host?, stored, Option.bind_some, host]⟩,
        (d.toDocument s.forest).description, ?_⟩
      rw [Document.hosted_of_none (by rw [hosted, host]; rfl)]
      rfl
    | some h =>
      have shows := shows_toDocument formed stored fit.known
      obtain ⟨same, _⟩ := plainText_eq formed.numbered.bounded stored shows hostedLevel
      obtain ⟨text, plain⟩ := shows.plainText_ok hostedLevel
      rw [Document.hosted_of_some (by rw [hosted, host]; rfl) plain]
      rcases ih fits with ⟨texts, inserts, rest⟩ | ⟨⟨m, inside, unhosted⟩, name, rest⟩
      · rw [rest]
        refine .inl ⟨(h, Document.hostedText text) :: texts, .cons ⟨?_, text, ?_, rfl⟩ inserts, rfl⟩
        · rw [host?, stored, Option.bind_some, host]
        · rw [render_nil, same, plain]
      · rw [rest]
        exact .inr ⟨⟨m, List.mem_cons_of_mem n inside, unhosted⟩, name, rfl⟩

theorem hosted_places (formed : s.WellFormed) (member : t ∈ s.forest.roots) {ns : List DocumentId}
    {ds : List Document} (fits : ∀ n ∈ ns, ∃ d, s.documents[n]? = some d ∧ s.CanStandIn t d)
    (known : List.Forall₂ (fun n d => s.document? n = some d) ns ds) :
    ∀ d ∈ ds, ∀ k, d.host = some k →
      ∃ host, (∃ n ∈ ns, s.host? n = some host) ∧ k = (ids t).idxOf host := by
  have among := (List.forall₂_and_left ns ds).2 ⟨fun _ => id, known⟩
  refine ((List.forall₂_and_left ds ns).1 (among.flip.imp fun d n member => ⟨fun k hosted => ?_, member⟩)).1
  obtain ⟨inside, here⟩ := member
  obtain ⟨d', stored, fit⟩ := fits n inside
  rw [document?, stored, Option.map_some] at here
  obtain rfl := Option.some.inj here
  rw [toDocument_host formed member fit.inside, Option.map_eq_some_iff] at hosted
  obtain ⟨host, hosted, rfl⟩ := hosted
  exact ⟨host, ⟨n, inside, by rw [host?, stored, Option.bind_some, hosted]⟩, rfl⟩

/-- A document is written through the copy of its tree in a layout, and the store only grows. -/
theorem render_layout (formed : s.WellFormed) {page : StoredDocument} (stored : s.documents[n]? = some page)
    (html : page.body = .html t.topId) (member : t ∈ s.forest.roots)
    (root : t.value.2.content = .document) (plain : Everywhere SplicesPlainly [] t.toHtml)
    {ns : List DocumentId} (fits : ∀ n ∈ ns, ∃ d, s.documents[n]? = some d ∧ s.CanStandIn t d)
    {ds : List Document} (known : List.Forall₂ (fun n d => s.document? n = some d) ns ds)
    (allowed : t.Hosts fun host => ∃ n ∈ ns, s.host? n = some host) (indent : Nat) :
    ∃ l : Layout, l.tree = t.toHtml ∧
      (s.render n ns indent).2 = (ds.mapM Document.hosted).map (fun texts =>
        printed (fun n => (texts.map (Prod.map (l.base + ·) id)).reverse.lookup n) false l.copy) ∧
      s.Grown (s.render n ns indent).1 := by
  have distinct : (ids t).Nodup := (List.nodup_flatMap.1 formed.numbered.nodup).1 t member
  have place := formed.numbered.rootOf?_eq member (List.mem_map_of_mem (Tree.mem_subtrees_self t))
  -- the copies: first the one of the document, then those of the inline documents
  obtain ⟨later, self⟩ := StoreCopying.copy_start stored html place
  obtain ⟨copies, _⟩ := (StoreCopying.copiesOf_initial s).copy formed stored
  obtain ⟨copies, clones⟩ := copies.copyAll formed fun n (inside : n ∈ ns) =>
    (fits n inside).imp fun _ => And.left
  have more := StoreCopying.later_copyAll ((StoreCopying.start s).copy n).1 ns
  have later := later.trans more.nodes
  obtain ⟨l, base, tree, limit, roots, holds⟩ := later.grown.layout formed.numbered.bounded
  have laid : LaidOut s _ l t := ⟨copies, member, later, base, tree, limit⟩
  have mirrors := laid.mirrorsAt_all formed fits known clones
  have first : s.forest.next ≤ l.base := Nat.le_of_eq base.symm
  -- the texts in the hosts of the copy
  have hosts := allowed.layout tree distinct root
  obtain ⟨held, filled⟩ := fillHosts_filled roots hosts formed.numbered.bounded first copies.store holds
    (fun n none => absurd rfl none) mirrors fun d inside k hosted => by
      obtain ⟨host, among, rfl⟩ := hosted_places formed member fits known d inside k hosted
      exact ⟨host, among, rfl⟩
  refine ⟨l, tree, ?_⟩
  have result := filled.result
  have pair (r : Store × Except DocumentError Unit) : r = (r.1, r.2) := rfl
  unfold Store.render
  rw [stored, Option.bind_some, StoredDocument.root?_eq html]
  dsimp only
  rw [pair (Store.fillHosts _ _), result]
  cases done : ds.mapM Document.hosted with
  | error e => exact ⟨rfl, filled.grown⟩
  | ok texts =>
    have copied : (((StoreCopying.start s).copy n).1.documents[((StoreCopying.start s).copy n).2]?).bind
        (·.root?) = some l.base := by rw [self, base]
    obtain ⟨e, kept, top⟩ := Option.bind_eq_some_iff.1 copied
    have kept := filled.kept (more.store.stored kept)
    have innerHtml := filled.holds.innerHtml_eq (by rw [tree, toHtml_eq]; exact root) (by rwa [tree])
      fun u below holding => hosts.isHost below (filled.inside _ holding)
    have written := write_eq (by rw [kept, Option.bind_some, top]) innerHtml
    dsimp only [Except.map]
    rw [written]
    refine ⟨?_, filled.grown.forest.removeInjected formed.numbered.bounded first, filled.grown.documents⟩
    refine congrArg Except.ok (printed_congr (fun n _ => ?_) false)
    rw [filled.texts texts done, List.lookup_nil, Option.map_none, Option.or_none]

/-- Documents that share a forest are written as they are when each has its tree for itself and knows its
host by the place in the tree around it. -/
theorem render_toDocument (formed : s.WellFormed) {page : StoredDocument}
    (stored : s.documents[n]? = some page) (html : page.body = .html t.topId) (member : t ∈ s.forest.roots)
    (root : t.value.2.content = .document) (plain : Everywhere SplicesPlainly [] t.toHtml)
    {ns : List DocumentId} (fits : ∀ n ∈ ns, ∃ d, s.documents[n]? = some d ∧ s.CanStandIn t d)
    {ds : List Document} (known : List.Forall₂ (fun n d => s.document? n = some d) ns ds)
    (allowed : t.Hosts fun host => ∃ n ∈ ns, s.host? n = some host) (indent : Nat) :
    (s.render n ns indent).2 = (page.toDocument s.forest).render ds indent := by
  have distinct : (ids t).Nodup := (List.nodup_flatMap.1 formed.numbered.nodup).1 t member
  have place := formed.numbered.rootOf?_eq member (List.mem_map_of_mem (Tree.mem_subtrees_self t))
  obtain ⟨l, tree, result, _⟩ := render_layout formed stored html member root plain fits known allowed indent
  rw [result, Document.render, toDocument_html formed html place]
  rcases mapM_hosted formed member fits known with ⟨texts, inserts, done⟩ | ⟨_, name, done⟩
  · -- the tree by itself has a layout of its own
    obtain ⟨l₀, base₀, tree₀, _, _, holds⟩ := (Forest.Grown.refl (Forest.plant {} t.toHtml)).layout
      (List.forall_mem_nil _)
    rw [done]
    refine congrArg Except.ok ?_
    have among := (List.forall₂_and_left ns texts).2 ⟨fun _ => id, inserts⟩
    have into : ∀ p ∈ texts.map (Prod.map (fun n => (ids t).idxOf n) id),
        ∃ host, (∃ n ∈ ns, s.host? n = some host) ∧ p.1 = l₀.place t host := by
      rw [List.forall_mem_map]
      refine ((List.forall₂_and_left texts ns).1 (among.flip.imp fun entry n inside => ⟨?_, inside⟩)).1
      refine ⟨entry.1, ⟨n, inside.1, inside.2.1⟩, ?_⟩
      rw [Layout.place, base₀, Nat.zero_add]
      rfl
    have own := writtenWith_printed (allowed.layout tree₀ distinct root) base₀ (by rwa [tree₀])
      (by rw [tree₀, toHtml_eq]; exact root) (by rwa [tree₀]) into
    rw [tree₀] at own
    refine Eq.trans ?_ own.symm
    dsimp only
    rw [l.copy_eq tree distinct, l₀.copy_eq tree₀ distinct, printed_map, printed_map]
    refine printed_congr (fun node _ => ?_) false
    rw [← List.map_reverse, Layout.place, Layout.place, base₀, Nat.zero_add]
    exact lookup_map_key fun _ _ => Nat.add_left_cancel
  · rw [done]
    rfl

end Store

end LocatedHtml
