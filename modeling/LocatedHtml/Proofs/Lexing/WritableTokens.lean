import LocatedHtml.Proofs.Lexing.WrittenPieces

/-!
Whatever a source is cut into can be written again: names are read as names, no comment holds its own
end, and a doctype starts with its keyword.
-/

namespace LocatedHtml

/-- What the token means can be written so that it is read again. -/
def Token.Writable : Token → Prop
  | .startTag name attributes _ => IsTagName name ∧ ∀ entry ∈ attributes, IsAttributeName entry.1
  | .comment value => WritableComment value
  | .instruction value => WritableComment ('?' :: value)
  | .declaration value => WritableDoctype value
  | .text _ | .endTag _ | .skipped => True

/-- The content of an element is read as text if the lexeme is the start tag of a raw text element. -/
def Found.Enters (found : Found) : Prop :=
  match found.token with
  | .startTag name _ selfClosing =>
    found.inside = if !selfClosing && isRawText name then some name else none
  | _ => found.inside = none

variable {t : Text}

theorem Found.Enters.cases {found : Found} (enters : found.Enters) :
    (∃ name attributes, found.token = .startTag name attributes false ∧ isRawText name = true ∧
      found.inside = some name) ∨
      found.inside = none ∧
        ∀ name attributes, found.token = .startTag name attributes false → isRawText name = false := by
  unfold Found.Enters at enters
  split at enters
  · next name attributes selfClosing token =>
    cases selfClosing with
    | true => exact .inr ⟨enters, fun _ _ same => by rw [token] at same; cases same⟩
    | false =>
      cases raw : isRawText name with
      | true =>
        rw [raw] at enters
        exact .inl ⟨name, attributes, token, raw, enters⟩
      | false =>
        rw [raw] at enters
        refine .inr ⟨enters, fun _ _ same => ?_⟩
        rw [token] at same
        cases same
        exact raw
  · next other => exact .inr ⟨enters, fun name attributes same => absurd same (other name attributes false)⟩

theorem commentEnd?_append {back : Text} {n : Nat} (ended : commentEnd? back = some n) (after : Text) :
    commentEnd? (back ++ after) = some n := by
  obtain ⟨blanks, rest, rfl, all, rfl⟩ := commentEnd?_eq_some.1 ended
  exact commentEnd?_eq_some.2 ⟨blanks, rest ++ after, by simp, all, rfl⟩

theorem bracket_mem_of_commentEnd? {back : Text} {n : Nat} (ended : commentEnd? back = some n) :
    '>' ∈ back := by
  obtain ⟨blanks, rest, rfl, _, _⟩ := commentEnd?_eq_some.1 ended
  simp

/-- Up to a bracket there is no end of a comment. -/
theorem writableComment_of_not_mem {value : Text} (apart : '>' ∉ value) : WritableComment value := by
  intro back suffix
  rw [Option.eq_none_iff_forall_ne_some]
  intro n ended
  exact apart (suffix.subset (bracket_mem_of_commentEnd? ended))

theorem writableComment_of_untilMatch {value : Text} {n : Nat}
    (found : Text.untilMatch commentEnd? t = some (value, n)) : WritableComment value := by
  obtain ⟨after, _, _, first⟩ := Text.untilMatch_eq_some found
  intro back suffix
  rw [Option.eq_none_iff_forall_ne_some]
  intro m ended
  have some_ : back ≠ [] := by
    rintro rfl
    cases ended
  have longer := commentEnd?_append ended after
  rw [first back suffix some_] at longer
  cases longer

theorem bracket_mem_lower (member : '>' ∈ t) : '>' ∈ Text.lower t := by
  suffices ∀ before, '>' ∈ Text.lowerAfter before t from this []
  induction t with
  | nil => cases member
  | cons c rest ih =>
    intro before
    rw [Text.lowerAfter]
    rcases List.mem_cons.1 member with rfl | later
    · rw [if_neg (by decide), if_neg (by decide), lowerChar_ascii (by decide)]
      exact List.mem_cons_self
    · split
      · exact List.mem_cons_of_mem _ (ih later _)
      · split
        · exact List.mem_cons_of_mem _ (List.mem_cons_of_mem _ (ih later _))
        · exact List.mem_cons_of_mem _ (ih later _)

/-- The keyword of a doctype stands in front of the bracket that ends it. -/
theorem writableDoctype_of_keyword {value rest : Text} (apart : '>' ∉ value)
    (keyword : Text.lower ((value ++ '>' :: rest).take 7) = "doctype".toList) :
    WritableDoctype value := by
  have long : 7 ≤ value.length := by
    by_contra short
    have inside : '>' ∈ (value ++ '>' :: rest).take 7 := by
      obtain ⟨more, amount⟩ := Nat.exists_eq_add_of_lt (Nat.lt_of_not_le short)
      rw [amount, Nat.add_assoc, List.take_length_add_append]
      simp
    have lowered := bracket_mem_lower inside
    rw [keyword] at lowered
    exact absurd lowered (by decide)
  rw [List.take_append_of_le_length long] at keyword
  exact ⟨apart, long, keyword⟩

theorem scanAttributes_named (previous : Char) (t : Text) :
    ∀ w ∈ (scanAttributes previous t).1, IsAttributeName (Text.lowerName w.name) := by
  fun_induction scanAttributes previous t with
  | case1 => simp
  | case2 previous c rest starts nameRest value written used more ih =>
    intro w member
    rcases List.mem_cons.1 member with rfl | member
    · apply isAttributeName_lowerName
      · simp only [startsAttribute, Bool.and_eq_true] at starts
        exact starts.2
      · exact fun d => List.mem_takeWhile_imp
    · exact ih w member
  | case3 => simp

theorem decodeAttributes_named {ws : List WrittenAttribute} {attributes : List (String × Text)}
    (decoded : decodeAttributes ws = .ok attributes)
    (named : ∀ w ∈ ws, IsAttributeName (Text.lowerName w.name)) :
    ∀ entry ∈ attributes, IsAttributeName entry.1 := by
  intro entry member
  have listed := List.mem_map_of_mem (f := Prod.fst) member
  rw [decodeAttributes_names decoded, List.map_map] at listed
  obtain ⟨w, written, same⟩ := List.mem_map.1 listed
  rw [← same]
  exact named w written

theorem foundStartTag_writable {found : Found} (letter : t.head?.any isLetter = true)
    (scanned : foundStartTag t = .ok (some found)) : found.token.Writable ∧ found.Enters := by
  rcases foundStartTag_cases scanned with
    ⟨length, rfl⟩ | ⟨name, ws, selfClosing, length, entries, complete, decoded, rfl⟩
  · exact ⟨trivial, rfl⟩
  · obtain ⟨previous, used, rfl⟩ := scanStartTag_attributes complete
    refine ⟨⟨?_, decodeAttributes_named decoded (scanAttributes_named previous _)⟩, rfl⟩
    obtain ⟨rfl, _⟩ := scanStartTag_complete complete
    apply isTagName_lowerName
    · cases t with
      | nil => cases letter
      | cons c rest =>
        rw [List.takeWhile_cons_of_pos (isTagNameChar_of_isLetter letter)]
        exact letter
    · exact fun c => List.mem_takeWhile_imp

theorem endTagToken_writable {inner : Text} (apart : '>' ∉ inner) : (endTagToken inner).Writable := by
  unfold endTagToken
  split
  · trivial
  · split
    · trivial
    · split
      · trivial
      · exact writableComment_of_not_mem apart

theorem scanDeclaration_writable {found : Found} (scanned : scanDeclaration t = .ok (some found)) :
    found.token.Writable ∧ found.Enters := by
  rcases scanDeclaration_cases scanned with
    ⟨_, value, n, _, ended, rfl⟩ | ⟨length, rfl⟩ | ⟨value, rest, rfl, apart, rfl⟩
  · exact ⟨writableComment_of_untilMatch ended, rfl⟩
  · exact ⟨trivial, rfl⟩
  · dsimp only
    split
    · next keyword => exact ⟨writableDoctype_of_keyword apart keyword, rfl⟩
    · exact ⟨writableComment_of_not_mem apart, rfl⟩

theorem scanMarkup_writable {found : Found} (scanned : scanMarkup t = .ok (some found)) :
    found.token.Writable ∧ found.Enters := by
  rcases scanMarkup_cases scanned with
    ⟨inner, rest, rfl, apart, rfl⟩ | ⟨rest, rfl, scanned⟩ | ⟨value, _, _, apart, rfl⟩ |
      ⟨letter, scanned⟩ | rfl
  · refine ⟨endTagToken_writable apart, ?_⟩
    unfold Found.Enters
    split
    · next tag => exact absurd tag (endTagToken_ne_startTag inner)
    · rfl
  · exact scanDeclaration_writable scanned
  · refine ⟨writableComment_of_not_mem ?_, rfl⟩
    rw [List.mem_cons, not_or]
    exact ⟨by decide, apart⟩
  · exact foundStartTag_writable letter scanned
  · exact ⟨trivial, rfl⟩

/-- Outside of raw text elements every lexeme can be written again. -/
theorem scanOutside_writable {c : Char} {rest : Text} {found : Found}
    (scanned : scanOutside c rest = .ok found) : found.token.Writable ∧ found.Enters := by
  rcases scanOutside_cases scanned with ⟨rfl, markup⟩ | ⟨value, length, _, rfl⟩
  · exact scanMarkup_writable markup
  · exact ⟨trivial, rfl⟩

end LocatedHtml
