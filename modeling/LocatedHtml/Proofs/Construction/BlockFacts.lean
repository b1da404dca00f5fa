import LocatedHtml.Proofs.Construction.Finished
import LocatedHtml.Proofs.Construction.Nodes
import LocatedHtml.Proofs.Construction.RawElements
import LocatedHtml.Proofs.Construction.Shells

/-!
Facts that hold in the document of lexemes because every lexeme brings them, where a raw text element is
looked at as a whole, with its text.
-/

namespace LocatedHtml

/-- The lexemes bring facts `p` of nodes and facts `q` of structural elements. -/
structure BlockFacts (p : List String → HtmlTree → Prop) (q : String → Shell → Prop)
    (xs : List Lexeme) : Prop where
  text : ∀ above value location, p above (.node ⟨.text value, location⟩ [])
  plain : ∀ x ∈ xs, x.token.Writable →
    (∀ name attributes, x.token = .startTag name attributes false → isRawText name = false) →
      NodeFact p x ∧ ShellFact q x
  raw : ∀ x texts name attributes value t, x :: texts <:+: xs → RawBlock x texts name attributes value →
    IsRawElement x name attributes value t → ∀ above, Everywhere p above t

theorem BlockFacts.suffix {p : List String → HtmlTree → Prop} {q : String → Shell → Prop}
    {xs : List Lexeme} (front : List Lexeme) (facts : BlockFacts p q (front ++ xs)) :
    BlockFacts p q xs where
  text := facts.text
  plain x member := facts.plain x (List.mem_append_right front member)
  raw x texts name attributes value t part :=
    facts.raw x texts name attributes value t (part.trans (List.suffix_append front xs).isInfix)

namespace Construction

variable {p : List String → HtmlTree → Prop} {q : String → Shell → Prop} {s : Construction}

/-- Facts `p` hold of all nodes of a construction, and facts `q` of its structural elements. -/
structure Carries (p : List String → HtmlTree → Prop) (q : String → Shell → Prop)
    (s : Construction) : Prop where
  placed : s.WellPlaced
  nodes : s.Sound p
  shells : Shells q s.frame

namespace Carries

variable {xs : List Lexeme}

theorem initial (shell : ∀ name, q name {}) : Carries p q {} where
  placed := wellPlaced_initial
  nodes := sound_initial
  shells := shells_initial shell

theorem textFact (facts : BlockFacts p q xs) (s : Construction) (stop : Nat) : s.TextFact p stop := by
  intro o _ above value
  exact facts.text above value _

theorem staged (carries : s.Carries p q) (offset : Nat) (name : String) :
    (s.placeFor offset name).stage.hasOpened := by
  rw [placeFor, closeBefore_stage]
  exact (WellPlaced.openSection (carries.placed.endText offset) name).2.1

/-- Where a raw text element is put in with its text. -/
theorem put (carries : s.Carries p q) (facts : BlockFacts p q xs) (x : Lexeme) (name : String)
    {t : HtmlTree} (holds : ∀ above, Everywhere p above t) :
    ((s.placeFor x.start.offset name).append t).Sound p ∧
      Shells q ((s.placeFor x.start.offset name).append t).frame := by
  have nodes := carries.nodes.placeFor_node (textFact facts s x.start.offset) name
  exact ⟨nodes.append (holds _), (carries.shells.placeFor x.start.offset name).append t⟩

/-- The document of lexemes comes from a construction that carries what the lexemes bring. -/
theorem run (carries : s.Carries p q) (blocks : Blocks xs) (facts : BlockFacts p q xs) (stop : Nat) :
    ∃ r : Construction, ((xs.foldl Construction.add s).endText stop).toTree = r.toTree ∧
      r.Sound p ∧ Shells q r.frame := by
  induction blocks generalizing s with
  | nil =>
    exact ⟨s.endText stop, rfl, carries.nodes.endText_node (textFact facts s stop),
      carries.shells.endText stop⟩
  | @plain x xs writable ordinary _ ih =>
    obtain ⟨node, shell⟩ := facts.plain x List.mem_cons_self writable ordinary
    refine ih ⟨carries.placed.add x, ?_, carries.shells.add shell⟩ (.suffix [x] facts)
    exact carries.nodes.add_node carries.placed node (textFact facts s x.start.offset)
  | @raw x y name attributes value texts xs block ended _ ih =>
    obtain ⟨t, element, same⟩ :=
      foldl_raw_closed (carries.staged x.start.offset name) block.started block.content ended
    have part : x :: texts <:+: x :: (texts ++ y :: xs) := (List.prefix_append (x :: texts) _).isInfix
    have holds := facts.raw x texts name attributes value t part block element
    have here := carries.put facts x name holds
    have whole : x :: (texts ++ y :: xs) = (x :: (texts ++ [y])) ++ xs := by simp
    have placed := carries.placed.run (x :: (texts ++ [y]))
    rw [whole] at facts ⊢
    rw [List.foldl_append, same]
    rw [same] at placed
    exact ih ⟨placed, here.1, here.2⟩ (.suffix _ facts)
  | @unclosed x name attributes value texts block =>
    obtain ⟨t, element, same⟩ :=
      toTree_raw_unclosed (carries.staged x.start.offset name) block.started block.content stop
    have holds := facts.raw x texts name attributes value t List.infix_rfl block element
    exact ⟨_, same, carries.put facts x name holds⟩

end Carries

end Construction

end LocatedHtml
