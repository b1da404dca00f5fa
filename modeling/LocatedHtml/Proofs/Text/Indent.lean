import LocatedHtml.Document.Rendering
import LocatedHtml.Proofs.Text.Lines
import Mathlib.Data.List.Chain
import Mathlib.Data.List.DropRight
import Mathlib.Data.List.Infix

/-!
Indentation moves the lines of a text and drops blanks, so it never brings two characters together that
start an end tag.
-/

namespace LocatedHtml

/-- Nowhere in the text is what an end tag starts with. -/
def EndFree (t : Text) : Prop := t.IsChain fun a b => a = '<' → b ≠ '/'

variable {s t line : Text} {parts : List Text}

theorem endFree_iff : EndFree t ↔ ¬['<', '/'] <:+: t := by
  rw [EndFree, List.isChain_iff_forall_rel_of_append_cons_cons]
  constructor
  · rintro apart ⟨before, after, whole⟩
    have split : t = before ++ '<' :: '/' :: after := by
      rw [← whole, List.append_assoc]
      rfl
    exact apart split rfl rfl
  · rintro apart a b before after whole rfl rfl
    exact apart ⟨before, after, by rw [whole, List.append_assoc]; rfl⟩

theorem EndFree.of_part (free : EndFree t) (part : s <:+: t) : EndFree s := List.IsChain.infix free part

theorem endFree_append (apart : ∀ c ∈ t.head?, c ≠ '/') : EndFree (s ++ t) ↔ EndFree s ∧ EndFree t := by
  rw [EndFree, List.isChain_append]
  exact and_congr_right fun _ => and_iff_left fun _ _ c first _ => apart c first

theorem endFree_cons {c : Char} (dark : c ≠ '<') : EndFree (c :: t) ↔ EndFree t := by
  rw [EndFree, List.isChain_cons]
  exact and_iff_right fun _ _ bracket => absurd bracket dark

theorem endFree_spaces (n : Nat) : EndFree (List.replicate n ' ') :=
  List.isChain_replicate_of_rel n fun bracket => absurd bracket (by decide)

namespace Text

/-- Newlines keep lines apart. -/
theorem endFree_joinLines : EndFree (joinLines parts) ↔ ∀ line ∈ parts, EndFree line := by
  induction parts with
  | nil => simp [joinLines, List.intercalate, EndFree]
  | cons line parts ih =>
    cases parts with
    | nil => simp [joinLines, List.intercalate]
    | cons next parts =>
      rw [joinLines_cons_cons, endFree_append (by simp), endFree_cons (by decide), ih, ← List.forall_mem_cons]

theorem endFree_lines : (∀ line ∈ lines t, EndFree line) ↔ EndFree t := by
  rw [← endFree_joinLines, joinLines_lines]

end Text

theorem EndFree.dropMargin (free : EndFree line) (margin : Text) : EndFree (dropMargin margin line) := by
  unfold LocatedHtml.dropMargin
  split
  · exact List.isChain_nil
  · cases rest : Text.dropStart? margin line with
    | none => exact free
    | some back =>
      have whole := Text.dropStart?_eq_some_iff.1 rest
      exact free.of_part ⟨margin, [], by rw [whole, List.append_nil, Option.getD_some]⟩

theorem EndFree.dedent (free : EndFree t) : EndFree (dedent t) := by
  rw [LocatedHtml.dedent, Text.endFree_joinLines, List.forall_mem_map]
  exact fun line member => (Text.endFree_lines.2 free line member).dropMargin _

theorem stripNewlines_isInfix (t : Text) : stripNewlines t <:+: t :=
  (List.rdropWhile_prefix _ _).isInfix.trans (List.dropWhile_suffix _).isInfix

/-- A text without the start of an end tag has none on any level. -/
theorem EndFree.reindent (free : EndFree t) (levels : Nat) : EndFree (reindent levels t) := by
  rw [LocatedHtml.reindent, endFree_append (by simp), Text.endFree_joinLines, List.forall_mem_map]
  have inner := Text.endFree_lines.2 (free.dedent.of_part (stripNewlines_isInfix _))
  refine ⟨fun line member => ?_, List.isChain_singleton _⟩
  split
  · exact List.isChain_nil
  · -- the indentation may come before a slash, but it does not end in a bracket
    rw [EndFree, List.isChain_append]
    refine ⟨endFree_spaces _, inner line member, fun a last b _ bracket => ?_⟩
    rw [List.eq_of_mem_replicate (List.mem_of_mem_getLast? last)] at bracket
    cases bracket

theorem EndFree.hostedText (free : EndFree t) : EndFree (Document.hostedText t) := by
  rw [Document.hostedText, List.cons_append, endFree_cons (by decide)]
  refine (endFree_append fun c first => ?_).2 ⟨free, endFree_spaces _⟩
  rw [List.eq_of_mem_replicate (List.mem_of_mem_head? first)]
  decide

end LocatedHtml
