import LocatedHtml.Proofs.Forest.Filling
import LocatedHtml.Proofs.Rebuilding.Control
import LocatedHtml.Proofs.Text.Indent
import LocatedHtml.Proofs.Written.Canonical
import LocatedHtml.Proofs.Written.InlineTexts

/-!
Texts put into raw text elements. Only the events of these change, and each is taken as before; the texts
that are documents of their own are as they were but for the ones that have been put in.
-/

namespace LocatedHtml

/-- An event, or the same one with a new text for a raw text element. -/
inductive Event.Refilled (new : Text → Prop) : Event → Event → Prop
  | same (e : Event) : Refilled new e e
  | raw {name : String} {attributes : OrderedMap Text} {old value : Text} (fits : new value) :
      Refilled new (.raw name attributes old) (.raw name attributes value)

namespace Event.Refilled

variable {new : Text → Prop} {e e' : Event}

theorem step (refilled : Refilled new e e') {c d : Control} (step : Control.Step c e d) :
    Control.Step c e' d := by
  cases refilled with
  | same => exact step
  | raw =>
    cases step with
    | raw place fits raw => exact .raw place fits raw

theorem writable (refilled : Refilled EndFree e e') (writable : e.Writable) : e'.Writable := by
  cases refilled with
  | same => exact writable
  | raw free => exact ⟨writable.1, writable.2.1, writableRaw_of_no_end (endFree_iff.1 free)⟩

/-- What each event keeps when it gets a new text is kept by all of them. -/
theorem all {p : Event → Prop} {es es' : List Event} (kept : ∀ {e e'}, Refilled new e e' → p e → p e')
    (refilled : List.Forall₂ (Refilled new) es es') (old : ∀ e ∈ es, p e) : ∀ e ∈ es', p e := by
  induction refilled with
  | nil => exact old
  | cons first _ ih =>
    rw [List.forall_mem_cons] at old ⊢
    exact ⟨kept first old.1, ih old.2⟩

end Event.Refilled

/-- Events with new texts are taken as the old ones were. -/
theorem Control.Reads.refilled {new : Text → Prop} {c last : Control} {es es' : List Event}
    (reads : Reads c es last) (refilled : List.Forall₂ (Event.Refilled new) es es') : Reads c es' last := by
  induction reads generalizing es' with
  | nil =>
    cases refilled
    exact .nil
  | cons step _ ih =>
    cases refilled with
    | cons first rest => exact .cons (first.step step) (ih rest)

theorem forall₂_flatMap {α β γ : Type} {R : β → γ → Prop} {l : List α} {f : α → List β} {g : α → List γ}
    (each : ∀ a ∈ l, List.Forall₂ R (f a) (g a)) : List.Forall₂ R (l.flatMap f) (l.flatMap g) := by
  induction l with
  | nil => exact .nil
  | cons a l ih =>
    rw [List.forall_mem_cons] at each
    exact List.rel_append each.1 (ih each.2)

namespace NumberedTree

/-- The nodes of a tree that hold texts are raw text elements. -/
def Refills (held : Held) (t : NumberedTree) : Prop :=
  ∀ u ∈ t.subtrees, held.lookup (topId u) ≠ none → IsRaw u

variable {held : Held} {t : NumberedTree} {v : NodeId × Node} {cs : List NumberedTree} {leaf : NodeId}
  {value : Text}

namespace Refills

theorem top (refills : Refills held (.node v cs)) (here : held.lookup v.1 = some (leaf, value)) :
    ∃ name attributes, v.2.content = .element name attributes ∧ isRawText name = true :=
  refills _ (Tree.mem_subtrees_self _) (by rw [topId, Tree.value, here]; exact Option.some_ne_none _)

theorem child (refills : Refills held (.node v cs)) : ∀ c ∈ cs, Refills held c :=
  fun c child u member => refills u (Tree.mem_subtrees_node.2 (.inr ⟨c, child, member⟩))

end Refills

theorem toHtml_filled_value (held : Held) (t : NumberedTree) :
    (filled held t).toHtml.value = t.toHtml.value := by
  rw [toHtml_eq, toHtml_eq, filled_value]
  rfl

theorem isText_filled (refills : Refills held t) (text : t.toHtml.IsText) : filled held t = t := by
  obtain ⟨v, value, rfl, content⟩ := exists_text text
  cases here : held.lookup v.1 with
  | none => rw [filled_of_none here, List.map_nil]
  | some entry =>
    obtain ⟨name, attributes, element, _⟩ := refills.top here
    rw [content] at element
    cases element

theorem joinedText_textLeaf (leaf : NodeId) (value : Text) :
    Tree.joinedText ([textLeaf leaf value].map toHtml) = value := List.append_nil value

theorem joinedText_filled (cs : List NumberedTree) :
    Tree.joinedText ((cs.map (filled held)).map toHtml) = Tree.joinedText (cs.map toHtml) := by
  simp only [Tree.joinedText, List.map_map, List.flatMap_map, Function.comp, toHtml_filled_value]

theorem isText_textLeaf (leaf : NodeId) (value : Text) : (toHtml (textLeaf leaf value)).IsText :=
  ⟨_, value, rfl, rfl⟩

/-- Of the events of a tree only those of its raw text elements get new texts. -/
theorem events_filled {new : Text → Prop} (refills : Refills held t)
    (fits : ∀ {n leaf value}, held.lookup n = some (leaf, value) → new value) :
    List.Forall₂ (Event.Refilled new) t.toHtml.events (filled held t).toHtml.events := by
  have unchanged (es : List Event) : List.Forall₂ (Event.Refilled new) es es :=
    List.forall₂_same.2 fun e _ => .same e
  induction t using Tree.induction with
  | node v cs ih =>
    have inner : List.Forall₂ (Event.Refilled new) ((cs.map toHtml).flatMap Tree.events)
        (((cs.map (filled held)).map toHtml).flatMap Tree.events) := by
      rw [List.flatMap_map, List.map_map, List.flatMap_map]
      exact forall₂_flatMap fun c child => ih c child (refills.child c child)
    cases here : held.lookup v.1 with
    | some entry =>
      obtain ⟨name, attributes, content, raw⟩ := refills.top here
      rw [filled_of_some here, toHtml_node, toHtml_node, Tree.events_raw content raw, Tree.events_raw content raw,
        joinedText_textLeaf]
      exact .cons (.raw (fits here)) .nil
    | none =>
      -- a raw text element shows the values of its children, and these stay even if they got texts
      rw [filled_of_none here, toHtml_node, toHtml_node, Tree.events_node, Tree.events_node,
        joinedText_filled]
      cases v.2.content with
      | document => exact inner
      | element name attributes =>
        dsimp only
        split
        · exact inner
        · split
          · exact unchanged _
          · split
            · exact unchanged _
            · exact .cons (.same _) (List.rel_append inner (unchanged _))
      | _ => exact unchanged _

/-- Where a node has got a text, the text is told in place of the old one. -/
def refill (held : Held) (p : NodeId × Text) : NodeId × Text :=
  (p.1, ((held.lookup p.1).map Prod.snd).getD p.2)

/-- The texts that are documents of their own change only where texts have been put in. -/
theorem inlineHosts_filled {above : List String} (refills : Refills held t)
    (trim : Everywhere (fun _ => Trim) above t.toHtml) :
    inlineHosts (filled held t) = (inlineHosts t).map (refill held) := by
  induction t using Tree.induction generalizing above with
  | node v cs ih =>
    rw [toHtml_node] at trim
    have inner : (cs.map (filled held)).flatMap inlineHosts = (cs.flatMap inlineHosts).map (refill held) := by
      rw [List.flatMap_map, List.map_flatMap]
      exact List.flatMap_congr fun c child => ih c child (refills.child c child)
        (trim.child _ (List.mem_map_of_mem child))
    cases here : held.lookup v.1 with
    | some entry =>
      obtain ⟨name, attributes, content, raw⟩ := refills.top here
      have texts := (trim.top.element content).2 raw
      rw [filled_of_some here, inlineHosts_node, inlineHosts_node,
        inlineHosts_texts fun c child => texts _ (List.mem_map_of_mem child), inlineHosts_texts (by
          rw [List.forall_mem_singleton]; exact isText_textLeaf _ _)]
      unfold inlineHost?
      dsimp only [Tree.value, Tree.children]
      rw [content, joinedText_textLeaf]
      cases source : attributes.has "src" <;> simp [raw, source, refill, here, topId, Tree.value]
    | none =>
      rw [filled_of_none here, inlineHosts_node, inlineHosts_node, inner, List.map_append]
      congr 1
      unfold inlineHost?
      dsimp only [Tree.value, Tree.children]
      rw [joinedText_filled]
      cases v.2.content with
      | element name attributes =>
        dsimp only
        split
        · simp [refill, here, topId, Tree.value]
        · rfl
      | _ => rfl

/-- A tree keeps its form when its raw text elements get texts. -/
theorem trim_filled {above : List String} (refills : Refills held t)
    (trim : Everywhere (fun _ => Trim) above t.toHtml) :
    Everywhere (fun _ => Trim) above (filled held t).toHtml := by
  induction t using Tree.induction generalizing above with
  | node v cs ih =>
    rw [toHtml_node] at trim
    cases here : held.lookup v.1 with
    | some entry =>
      obtain ⟨name, attributes, content, raw⟩ := refills.top here
      have top : Trim (.node v.2 ([textLeaf entry.1 entry.2].map toHtml)) := by
        right
        rw [LeafShaped, Tree.value, content]
        refine ⟨fun void => ?_, fun _ => ?_⟩
        · rw [isVoid_of_isRawText raw] at void
          cases void
        · exact List.forall_mem_singleton.2 (isText_textLeaf _ _)
      rw [filled_of_some here, toHtml_node]
      refine .of_children top (List.forall_mem_singleton.2 ?_)
      exact .leaf (.inr rfl)
    | none =>
      have below : ∀ c ∈ (cs.map (filled held)).map toHtml,
          Everywhere (fun _ => Trim) (v.2.content.namesBelow above) c := by
        rw [List.map_map, List.forall_mem_map]
        exact fun c child => ih c child (refills.child c child) (trim.child _ (List.mem_map_of_mem child))
      rw [filled_of_none here, toHtml_node]
      refine .of_children ?_ below
      have childless (none : cs.map toHtml = []) : (cs.map (filled held)).map toHtml = [] := by
        rw [List.map_eq_nil_iff] at none
        rw [none]
        rfl
      refine trim.top.imp id fun shaped => ?_
      unfold LeafShaped at shaped ⊢
      dsimp only [Tree.value, Tree.children] at shaped ⊢
      cases content : v.2.content <;> rw [content] at shaped
      case document => exact shaped
      case element name attributes =>
        refine ⟨fun void => childless (shaped.1 void), fun raw => ?_⟩
        rw [List.map_map, List.forall_mem_map]
        intro c child
        have text := shaped.2 raw _ (List.mem_map_of_mem child)
        rwa [Function.comp, isText_filled (refills.child c child) text]
      all_goals exact childless shaped

end NumberedTree

end LocatedHtml
