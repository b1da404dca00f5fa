import LocatedHtml.Proofs.Nested.InlineHosts
import LocatedHtml.Proofs.NormalForm
import LocatedHtml.Proofs.Written.Refilling

/-!
Documents written with an edited inline document. What is written is read as a document with the same
inline documents, of which only the edited one has other contents.
-/

namespace LocatedHtml

open NumberedTree

open Unwritten in
/-- Without injected elements the tree of a layout is written by the events that it has with the texts
that it holds. -/
theorem Forest.Holds.writtenEvents_eq {f : Forest} {l : Layout} {held : Held} (holds : f.Holds l held)
    (root : l.tree.value.content = .document)
    (plain : Everywhere (fun _ => PlainlyWritten) [] (filled held l.copy).toHtml) :
    ((f.removeInjected l.base).1.html? l.base).map Tree.innerHtml =
      some (writtenEvents (filled held l.copy).toHtml.events) := by
  have stays : l.tree.value.isInjected true = false := Node.isInjected_of_unnamed (by rw [root]; rfl) true
  have written := write_spliced plain
  rw [toHtml_eq, filled_value, Layout.value_copy, Tree.spliced_of_stays stays, List.map_singleton, write,
    root] at written
  dsimp only at written
  rw [List.append_nil] at written
  rw [holds.html?_removeInjected, Option.map_some, Tree.innerHtml, Tree.splicedAll_eq, Tree.mapAll_eq]
  change some (write (ofChildren l.tree.value.content _)) = _
  rw [root, toHtml_eq (filled held l.copy), filled_value, Layout.value_copy]
  exact congrArg some written

theorem Event.Refilled.plain {new : Text → Prop} {e e' : Event} (refilled : Refilled new e e')
    (plain : e.Plain) : e'.Plain := by
  cases refilled <;> exact plain

/-- The nodes of a document with a text in one of them. -/
def withText (tree : HtmlTree) (n : NodeId) (text : Text) : NumberedTree :=
  filled [(n, tree.size, text)] (tree.number 0)

variable {source : Text} {tree : HtmlTree} {u : NumberedTree} {text : Text}

theorem toHtml_number (tree : HtmlTree) : toHtml (tree.number 0) = tree := Tree.map_number 0 tree

theorem trim_number (parsed : parseHtml source = .ok tree) :
    Everywhere (fun _ => Trim) [] (toHtml (tree.number 0)) := by
  rw [toHtml_number]
  exact parseHtml_trim parsed

/-- The inline texts of a document can be read off its events. -/
theorem inlineHosts_number (parsed : parseHtml source = .ok tree) :
    (inlineHosts (tree.number 0)).map Prod.snd = tree.events.filterMap Event.inlineText? := by
  rw [← inlineText_events (trim_number parsed), toHtml_number]

theorem lookup_one {n m leaf leaf' : NodeId} {value : Text}
    (holding : List.lookup m [(n, leaf, text)] = some (leaf', value)) : m = n ∧ value = text := by
  rw [List.lookup_cons] at holding
  split at holding
  · next same =>
    cases holding
    exact ⟨eq_of_beq same, rfl⟩
  · cases holding

section host

variable (member : u ∈ (tree.number 0).subtrees) (raw : IsRaw u)

include member raw

theorem refills_withText : Refills [(topId u, tree.size, text)] (tree.number 0) := by
  intro w below holding
  obtain ⟨entry, here⟩ := Option.ne_none_iff_exists'.1 holding
  have distinct : (ids (tree.number 0)).Nodup := Forest.plant_nodup tree
  rwa [List.inj_on_of_nodup_map distinct below member (lookup_one here).1]

theorem trim_withText (parsed : parseHtml source = .ok tree) :
    Everywhere (fun _ => Trim) [] (withText tree (topId u) text).toHtml :=
  trim_filled (refills_withText member raw) (trim_number parsed)

theorem events_withText (free : EndFree text) :
    List.Forall₂ (Event.Refilled EndFree) tree.events (withText tree (topId u) text).toHtml.events := by
  have refilled : List.Forall₂ (Event.Refilled EndFree) (toHtml (tree.number 0)).events _ :=
    events_filled (refills_withText member raw) fun {n leaf value} here => by rwa [(lookup_one here).2]
  rwa [toHtml_number] at refilled

theorem inlineHosts_withText (parsed : parseHtml source = .ok tree) :
    (inlineHosts (withText tree (topId u) text)).map Prod.snd =
      (inlineHosts (tree.number 0)).map fun p => if p.1 = topId u then text else p.2 := by
  rw [withText, inlineHosts_filled (refills_withText member raw) (trim_number parsed), List.map_map]
  apply List.map_congr_left
  intro p _
  rw [Function.comp, refill, List.lookup_cons]
  by_cases here : p.1 = topId u
  · rw [if_pos here, here, beq_self_eq_true]
    rfl
  · rw [if_neg here, beq_false_of_ne here]
    rfl

/-- A document with a text for one of its hosts is written by the events that it has with the text. -/
theorem writtenWith_host (root : tree.value.content = .document)
    (plain : Everywhere (fun _ => PlainlyWritten) [] (withText tree (topId u) text).toHtml) :
    Document.writtenWith tree [(topId u, text)] =
      writtenEvents (withText tree (topId u) text).toHtml.events := by
  obtain ⟨l, base, tree_, _, _, holds⟩ := (Forest.Grown.refl (Forest.plant {} tree)).layout
    (List.forall_mem_nil _)
  have copy : l.copy = tree.number 0 := by rw [Layout.copy, tree_, base]
  have leaf : (Forest.plant {} tree).next = tree.size := Nat.zero_add _
  rw [withText, ← copy] at plain ⊢
  rw [← copy] at member
  rw [← tree_] at root
  obtain ⟨name, attributes, content, _⟩ := raw
  have inner : topId u ≠ l.base := by
    rw [← l.topId_copy]
    intro same
    obtain rfl := List.inj_on_of_nodup_map (f := topId) l.copy_nodup member (Tree.mem_subtrees_self _) same
    rw [Layout.value_copy, root] at content
    cases content
  have reached : topId u ∈ ids (filled [] l.copy) := by
    rw [filled_nil]
    exact List.mem_map_of_mem member
  have holds := holds.setText member inner content reached text
  rw [leaf] at holds
  have written := holds.writtenEvents_eq root plain
  rw [base, Option.map_eq_some_iff] at written
  obtain ⟨changed, found, written⟩ := written
  refine Eq.trans ?_ written
  unfold Document.writtenWith
  dsimp only [List.foldl]
  change Forest.html? (Forest.removeInjected _ 0).1 0 = _ at found
  rw [found]

/-- What is read from a document that is written with a text for one of its hosts has the inline texts of
the document, but for this one. -/
theorem writtenWith_host_reread (parsed : parseHtml source = .ok tree)
    (names : ∀ name ∈ tree.elementNames, name ∉ misreadNames ∧ ∀ c ∈ name.toList, isBlank c = false)
    (free : EndFree text) :
    ∃ again, parseHtml (Document.writtenWith tree [(topId u, text)]) = .ok again ∧
      (inlineHosts (again.number 0)).map Prod.snd =
        (inlineHosts (tree.number 0)).map fun p => if p.1 = topId u then text else p.2 := by
  have refilled := events_withText member raw free
  have trim : Everywhere (fun _ => Trim) [] (withText tree (topId u) text).toHtml :=
    trim_withText member raw parsed
  have events : ∀ e ∈ (withText tree (topId u) text).toHtml.events, e.Writable ∧ e.Plain :=
    Event.Refilled.all (fun refilled old => ⟨refilled.writable old.1, refilled.plain old.2⟩) refilled
      (parseHtml_events parsed names)
  have written := writtenWith_host member raw (parseHtml_shaped parsed).2
    (plainlyWritten_of_events trim fun e here => (events e here).2)
  obtain ⟨last, reads, finished⟩ := parseHtml_reads parsed
  obtain ⟨again, reread, same⟩ :=
    parseHtml_of_reads (reads.refilled refilled) finished fun e here => (events e here).1
  rw [← written] at reread
  refine ⟨again, reread, ?_⟩
  calc (inlineHosts (again.number 0)).map Prod.snd
      = again.events.filterMap Event.inlineText? := inlineHosts_number reread
    _ = (inlineHosts (withText tree (topId u) text)).map Prod.snd := by rw [same, inlineText_events trim]
    _ = (inlineHosts (tree.number 0)).map fun p => if p.1 = topId u then text else p.2 :=
        inlineHosts_withText member raw parsed

end host

theorem map_eq_set {entries : List (NodeId × Text)} (distinct : (entries.map Prod.fst).Nodup) {i : Nat}
    {p : NodeId × Text} (here : entries[i]? = some p) (text : Text) :
    (entries.map fun q => if q.1 = p.1 then text else q.2) = (entries.map Prod.snd).set i text := by
  induction entries generalizing i with
  | nil => cases here
  | cons q entries ih =>
    rw [List.map_cons, List.nodup_cons] at distinct
    cases i with
    | zero =>
      obtain rfl := Option.some.inj here
      have others : ∀ r ∈ entries, (if r.1 = q.1 then text else r.2) = r.2 := by
        intro r member
        exact if_neg fun same => distinct.1 (by rw [← same]; exact List.mem_map_of_mem member)
      rw [List.map_cons, if_pos rfl, List.map_congr_left others]
      rfl
    | succ i =>
      have member : p ∈ entries := List.mem_of_getElem? here
      rw [List.map_cons, if_neg fun same => distinct.1 (by rw [same]; exact List.mem_map_of_mem member),
        ih distinct.2 here]
      rfl

namespace Document

theorem map_contents {entries : List (NodeId × Text)} {inlines : List Document}
    (read : List.Forall₂ ReadFrom entries inlines) : inlines.map (·.contents) = entries.map Prod.snd := by
  induction read with
  | nil => rfl
  | cons first _ ih => rw [List.map_cons, List.map_cons, first.contents, ih]

/-- With other contents an inline document is still a text in the same host. -/
theorem ReadFrom.edited {entry : NodeId × Text} {part : Document} (read : ReadFrom entry part)
    (contents : Text) :
    (∀ indent, (part.withContents contents).render [] indent = .ok (reindent indent contents)) ∧
      (part.withContents contents).hosted = .ok (entry.1, hostedText (reindent hostedLevel contents)) := by
  obtain ⟨url, old, body, isInline, embedding, host⟩ := part
  obtain ⟨hosted, _, text⟩ := read
  cases hosted
  cases text
  exact ⟨fun _ => rfl, rfl⟩

/-- A document that is written with an edited inline document is read with as many of them as before: the
edited one has what was put into its host, and all others have what they had. -/
theorem render_edited {d : Document} {tree : HtmlTree} (parsed : parseHtml d.contents = .ok tree)
    (body : d.body = .html tree) (proper : ∀ e ∈ d.embedding, e.Proper)
    (names : ∀ name ∈ tree.elementNames, name ∉ misreadNames ∧ ∀ c ∈ name.toList, isBlank c = false) :
    ∃ inlines, d.inlineDocuments inlineNames = .ok inlines ∧
      ∀ (i : Nat) (part : Document) (contents : Text), inlines[i]? = some part →
        ¬['<', '/'] <:+: contents → ∀ (url : String) (indent : Nat),
        ∃ text t d' inlines', (part.withContents contents).render [] 2 = .ok text ∧
          d.render [part.withContents contents] indent = .ok t ∧
          ofHtml url t none none = .ok d' ∧ d'.inlineDocuments inlineNames = .ok inlines' ∧
          inlines'.map (·.contents) =
            (inlines.map (·.contents)).set i ('\n' :: text ++ [' ', ' ']) := by
  obtain ⟨inlines, made, read⟩ := inlineDocuments_hosts parsed body proper
  refine ⟨inlines, made, fun i part contents here apart url indent => ?_⟩
  obtain ⟨bound, same⟩ := List.getElem?_eq_some_iff.1 here
  have within : i < (inlineHosts (tree.number 0)).length := read.length_eq ▸ bound
  have entry := List.getElem?_eq_getElem within
  have from_ := read.get within bound
  rw [List.get_eq_getElem, List.get_eq_getElem, same] at from_
  -- the host of the edited document is an element whose content is read as text
  obtain ⟨u, member, hosts⟩ := List.mem_filterMap.1 (List.mem_of_getElem? entry)
  obtain ⟨raw, host⟩ := inlineHost?_eq_some hosts
  obtain ⟨rendered, hosted⟩ := from_.edited contents
  have free : EndFree (hostedText (reindent hostedLevel contents)) :=
    ((endFree_iff.2 apart).reindent hostedLevel).hostedText
  obtain ⟨again, reread, texts⟩ := writtenWith_host_reread member raw parsed names free
  rw [← host] at reread texts
  obtain ⟨inlines', made', read'⟩ := inlineDocuments_hosts (d := ⟨url, _, .html again, false, none, none⟩)
    reread rfl (by rintro e ⟨⟩)
  refine ⟨reindent hostedLevel contents, _, _, inlines', rendered 2, ?_,
    ofHtml_eq_ok.2 ⟨again, reread, rfl⟩, made', ?_⟩
  · rw [render, body]
    dsimp only
    rw [List.mapM_cons, hosted]
    rfl
  · have distinct := nodup_inlineHosts (t := tree.number 0) (Forest.plant_nodup tree)
    rw [map_contents read', map_contents read, texts]
    exact map_eq_set distinct entry _

theorem render_edited_afterHtml :
    ∃ tree, parseHtml
        "<style>a</style><p><script src>b</script><script>c</script></html><style>d</style>".toList = .ok tree ∧
      let d : Document :=
        ⟨"u", "<style>a</style><p><script src>b</script><script>c</script></html><style>d</style>".toList,
          .html tree, false, none, none⟩
      ∃ inlines part, d.inlineDocuments inlineNames = .ok inlines ∧ inlines[2]? = some part ∧
        inlines.map (·.contents) = [['a'], ['c'], ['d']] ∧
        ∃ text t d' inlines', (part.withContents "e<f".toList).render [] 2 = .ok text ∧
          d.render [part.withContents "e<f".toList] 0 = .ok t ∧ ofHtml "v" t none none = .ok d' ∧
          d'.inlineDocuments inlineNames = .ok inlines' ∧
          inlines'.map (·.contents) = [['a'], ['c'], '\n' :: text ++ [' ', ' ']] := by
  have known : (parseHtml
      "<style>a</style><p><script src>b</script><script>c</script></html><style>d</style>".toList).toOption.map
      (fun tree => (tree.elementNames, inlineHosts (tree.number 0))) =
      some (["html", "head", "style", "body", "p", "script", "script", "style"],
        [(3, ['a']), (9, ['c']), (11, ['d'])]) := by
    decide +kernel
  obtain ⟨tree, parsed, known⟩ := parseHtml_of_map known
  obtain ⟨names, hosts⟩ := Prod.mk.inj known
  refine ⟨tree, parsed, ?_⟩
  intro d
  obtain ⟨inlines, made, edited⟩ := render_edited (d := d) parsed rfl (by rintro e ⟨⟩) (by
    rw [names]
    simp [misreadNames]
    decide)
  obtain ⟨same, made', read⟩ := inlineDocuments_hosts (d := d) parsed rfl (by rintro e ⟨⟩)
  obtain rfl := Except.ok.inj (made.symm.trans made')
  have contents := map_contents read
  rw [hosts] at contents
  have lengths := congrArg List.length contents
  rw [List.length_map] at lengths
  obtain ⟨part, here⟩ : ∃ part, inlines[2]? = some part :=
    ⟨_, List.getElem?_eq_getElem (by rw [lengths]; decide)⟩
  obtain ⟨text, t, d', inlines', rendered, written, read, again, set⟩ :=
    edited 2 part "e<f".toList here (by decide) "v" 0
  rw [contents] at set
  exact ⟨inlines, part, made, here, contents, text, t, d', inlines', rendered, written, read, again, set⟩

end Document

end LocatedHtml
