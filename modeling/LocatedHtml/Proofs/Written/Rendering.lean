import LocatedHtml.Document.Rendering
import LocatedHtml.Proofs.Written.Events

/-!
What is written for a document is the markup of its events.
-/

namespace LocatedHtml

namespace Unwritten

theorem write_append (us vs : List Unwritten) : write (us ++ vs) = write us ++ write vs := by
  fun_induction write us with
  | case1 => rfl
  | case2 name rest ih => rw [List.cons_append, write, ih, List.append_assoc]
  | case3 verbatim v cs rest name attributes content ih inner =>
    rw [List.cons_append, write, content]
    rw [content] at inner
    dsimp only
    split
    · rw [ih, List.append_assoc]
    · rw [List.append_assoc, ← List.cons_append, ← List.append_assoc, inner]
  | case4 verbatim v cs rest value content ih =>
    rw [List.cons_append, write, content]
    dsimp only
    rw [ih, List.append_assoc]
  | case5 verbatim v cs rest value content ih =>
    rw [List.cons_append, write, content]
    dsimp only
    rw [ih, List.append_assoc]
  | case6 verbatim v cs rest value content ih =>
    rw [List.cons_append, write, content]
    dsimp only
    rw [ih, List.append_assoc]
  | case7 verbatim v cs rest content ih =>
    rw [List.cons_append, write, content]
    rw [content] at ih
    dsimp only
    rw [← ih, List.append_assoc]

theorem write_flatMap {α : Type} (f : α → List Unwritten) (l : List α) :
    write (l.flatMap f) = l.flatMap fun a => write (f a) := by
  induction l with
  | nil => rw [List.flatMap_nil, write, List.flatMap_nil]
  | cons a l ih => rw [List.flatMap_cons, write_append, ih, List.flatMap_cons]

end Unwritten

/-- Texts are written without escapes only in elements whose content is read as text, and those hold
nothing but texts. -/
def PlainlyWritten (t : HtmlTree) : Prop :=
  ∀ name, t.value.content.elementName? = some name →
    (isVerbatim name = true → isRawText name = true) ∧
      (isRawText name = true → ∀ c ∈ t.children, c.IsText)

/-- Elements whose texts are written without escapes although references in them are read. -/
def misreadNames : List String := ["xmp", "iframe", "noembed", "noframes", "plaintext", "noscript"]

theorem isRawText_of_isVerbatim {name : String} (known : name ∉ misreadNames)
    (verbatim : isVerbatim name = true) : isRawText name = true := by
  rw [isVerbatim, List.contains_iff_mem] at verbatim
  rw [isRawText, List.contains_iff_mem]
  have cases_ : name ∈ rawTextNames ++ misreadNames := verbatim
  exact (List.mem_append.1 cases_).resolve_right known

theorem not_isRawText_of_isVoid {name : String} (void : isVoid name = true) :
    isRawText name = false := by
  rw [← Bool.not_eq_true]
  intro raw
  rw [isVoid_of_isRawText raw] at void
  cases void

theorem isVerbatim_of_isRawText {name : String} (raw : isRawText name = true) :
    isVerbatim name = true := by
  rcases isRawText_iff.1 raw with rfl | rfl <;> decide

theorem not_isVerbatim_of_structural {name : String} (structural : name ∈ structuralNames) :
    isVerbatim name = false := by
  rcases mem_structuralNames.1 structural with rfl | rfl | rfl <;> decide

open Unwritten in
theorem write_texts {cs : List HtmlTree} (texts : ∀ c ∈ cs, c.IsText) :
    write (cs.map (.tree true)) = Tree.joinedText cs := by
  induction cs with
  | nil => rw [List.map_nil, write]; rfl
  | cons c cs ih =>
    rw [List.forall_mem_cons] at texts
    obtain ⟨v, value, rfl, content⟩ := texts.1
    rw [List.map_cons, write, content]
    dsimp only
    rw [ih texts.2]
    simp only [Tree.joinedText, List.flatMap_cons, Tree.value, content, Content.textValue]
    rfl

open Unwritten in
theorem write_spliced {t : HtmlTree} {above : List String}
    (plain : Everywhere (fun _ t => PlainlyWritten t) above t) :
    write (t.spliced.map (.tree false)) = writtenEvents t.events := by
  induction t using Tree.induction generalizing above with
  | node v cs ih =>
    have children : write ((cs.flatMap Tree.spliced).map (.tree false)) =
        writtenEvents (cs.flatMap Tree.events) := by
      rw [List.map_flatMap, write_flatMap, writtenEvents, List.flatMap_assoc]
      exact List.flatMap_congr fun c member => ih c member (plain.child c member)
    rw [Tree.spliced_node, Tree.events_node]
    cases content : v.content with
    | document =>
      have stays : v.isInjected true = false := Node.isInjected_of_unnamed (by rw [content]; rfl) true
      rw [if_neg (by simp [stays]), List.map_singleton, write, content]
      dsimp only
      rw [List.append_nil]
      exact children
    | text value =>
      rw [if_neg (by simp [Tree.isInjected_of_text content]), List.map_singleton, write, content]
      dsimp only
      rw [write, List.append_nil, writtenEvents, List.flatMap_map]
      rfl
    | comment value | doctype value =>
      have stays : v.isInjected true = false := Node.isInjected_of_unnamed (by rw [content]; rfl) true
      rw [if_neg (by simp [stays]), List.map_singleton, write, content]
      dsimp only
      rw [write, List.append_nil]
      exact (List.append_nil _).symm
    | element name attributes =>
      dsimp only
      split
      · exact children
      · obtain ⟨escaped, rawTexts⟩ := plain.top name (by rw [Tree.value, content]; rfl)
        rw [List.map_singleton, write, content]
        dsimp only
        split
        · rw [write]
          rfl
        · split
          · next raw =>
            have texts : ∀ c ∈ cs, c.IsText := rawTexts raw
            have same : cs.flatMap Tree.spliced = cs := by
              refine (List.flatMap_congr fun c member => Tree.spliced_text (texts c member)).trans ?_
              exact List.flatMap_singleton' cs
            have verbatim := isVerbatim_of_isRawText raw
            rw [write_append, ofChildren, Content.isVerbatimParent]
            rw [same, verbatim, write_texts texts, write, write, List.append_nil]
            simp [writtenEvents, Event.written]
          · next cooked =>
            have plainly : isVerbatim name = false := by
              rw [← Bool.not_eq_true]
              exact fun verbatim => cooked (escaped verbatim)
            rw [write_append, ofChildren, Content.isVerbatimParent]
            rw [plainly, children, write, write, List.append_nil]
            simp [writtenEvents, Event.written]

open Unwritten in
/-- A document without changes is written by its events. -/
theorem writtenWith_eq {tree : HtmlTree} (root : tree.value.content = .document)
    (plain : Everywhere (fun _ t => PlainlyWritten t) [] tree) :
    Document.writtenWith tree [] = writtenEvents tree.events := by
  obtain ⟨v, cs⟩ := tree
  have document : v.content = .document := root
  simp only [Document.writtenWith, List.foldl_nil, Forest.removeInjected_plant, Tree.innerHtml, Tree.value,
    Tree.children, ofChildren, document, Content.isVerbatimParent]
  rw [Tree.events_node, document, List.map_flatMap, write_flatMap, writtenEvents, List.flatMap_assoc]
  exact List.flatMap_congr fun c member => write_spliced (plain.child c member)

end LocatedHtml
