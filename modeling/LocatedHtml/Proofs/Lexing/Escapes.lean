import LocatedHtml.Markup.CharacterReference
import LocatedHtml.Markup.Escape
import LocatedHtml.Proofs.Lexing.Basic

/-!
What is written with escapes is read back: the references of escaped characters are the characters, and
escaped text holds nothing that starts markup or ends a value.
-/

namespace LocatedHtml

variable {t : Text}

theorem decodeReferences_cons {c : Char} (plain : c ≠ '&') (rest : Text) :
    decodeReferences (c :: rest) = (decodeReferences rest).map (c :: ·) := by
  rw [decodeReferences, if_neg plain]
  rfl

theorem decodeReferences_plain (plain : '&' ∉ t) : decodeReferences t = .ok t := by
  induction t with
  | nil => rw [decodeReferences]
  | cons c rest ih =>
    rw [List.mem_cons, not_or] at plain
    rw [decodeReferences_cons (Ne.symm plain.1), ih plain.2]
    rfl

theorem reference?_named {name : Text} {c : Char} (all : name.all isNameChar = true)
    (nonempty : name ≠ []) (short : name.length < maxNameLength)
    (value : nameText (name ++ [';']) = [c]) (rest : Text) :
    reference? (name ++ ';' :: rest) = .ok (some ([c], name.length + 1)) := by
  have window : ((name ++ ';' :: rest).take maxNameLength).takeWhile isNameChar = name := by
    obtain ⟨more, long⟩ := Nat.exists_eq_add_of_lt short
    rw [long, Nat.add_assoc, List.take_length_add_append]
    exact Text.takeWhile_append_stop (List.all_eq_true.1 all) (Text.stopsAt_cons (by decide) _)
  have number : withSemicolon name.length (name ++ ';' :: rest) = name.length + 1 := by
    rw [withSemicolon, List.getElem?_append_right (Nat.le_refl _), Nat.sub_self]
    rfl
  have taken : (name ++ ';' :: rest).take (name.length + 1) = name ++ [';'] := by
    rw [List.take_length_add_append]
    rfl
  unfold reference?
  split
  · next x behind whole =>
    obtain ⟨d, others, rfl⟩ := List.exists_cons_of_ne_nil nonempty
    injection whole with first
    subst first
    exact absurd (List.all_eq_true.1 all '#' List.mem_cons_self) (by decide)
  · rw [window]
    dsimp only
    rw [if_neg (by simpa using nonempty), number, taken, value]

theorem decodeReferences_named (name : Text) {c : Char} (all : name.all isNameChar = true)
    (nonempty : name ≠ []) (short : name.length < maxNameLength)
    (value : nameText (name ++ [';']) = [c]) (rest : Text) :
    decodeReferences ('&' :: name ++ ';' :: rest) = (decodeReferences rest).map (c :: ·) := by
  have dropped : (name ++ ';' :: rest).drop (name.length + 1) = rest := by
    rw [← List.drop_drop, List.drop_left]
    rfl
  rw [List.cons_append, decodeReferences, if_pos rfl, reference?_named all nonempty short value]
  dsimp only [bind, Except.bind]
  rw [dropped]
  cases decodeReferences rest <;> rfl

/-- The character is read back from what is written for it. -/
def ReadsBack (escape : Char → Text) : Prop :=
  ∀ c rest, decodeReferences (escape c ++ rest) = (decodeReferences rest).map (c :: ·)

theorem decodeReferences_flatMap {escape : Char → Text} (back : ReadsBack escape) (t : Text) :
    decodeReferences (t.flatMap escape) = .ok t := by
  induction t with
  | nil => rw [List.flatMap_nil, decodeReferences]
  | cons c t ih =>
    rw [List.flatMap_cons, back, ih]
    rfl

theorem escapeChar_readsBack : ReadsBack escapeChar := by
  intro c rest
  unfold escapeChar
  split
  · next same =>
    subst same
    exact decodeReferences_named "amp".toList (by decide) (by decide) (by decide) (by decide) rest
  · next ampersand =>
    split
    · next same =>
      subst same
      exact decodeReferences_named "lt".toList (by decide) (by decide) (by decide) (by decide) rest
    · split
      · next same =>
        subst same
        exact decodeReferences_named "gt".toList (by decide) (by decide) (by decide) (by decide) rest
      · split
        · next same =>
          subst same
          exact decodeReferences_named "nbsp".toList (by decide) (by decide) (by decide) (by decide)
            rest
        · exact decodeReferences_cons ampersand rest

theorem escapeQuotedChar_readsBack : ReadsBack escapeQuotedChar := by
  intro c rest
  unfold escapeQuotedChar
  split
  · next same =>
    subst same
    exact decodeReferences_named "quot".toList (by decide) (by decide) (by decide) (by decide) rest
  · exact escapeChar_readsBack c rest

theorem decodeReferences_escapeText (t : Text) : decodeReferences (escapeText t) = .ok t :=
  decodeReferences_flatMap escapeChar_readsBack t

/-- What an escaped character is written with: the character itself or the characters of references. -/
theorem mem_escapeChar {c d : Char} (member : d ∈ escapeChar c) :
    d = c ∧ c ≠ '<' ∧ c ≠ '>' ∨ d ∈ "&amp;ltgnbsp".toList := by
  unfold escapeChar at member
  split at member
  · right
    simp at member
    rcases member with rfl | rfl | rfl | rfl | rfl <;> decide
  · split at member
    · right
      simp at member
      rcases member with rfl | rfl | rfl | rfl <;> decide
    · split at member
      · right
        simp at member
        rcases member with rfl | rfl | rfl | rfl <;> decide
      · split at member
        · right
          simp at member
          rcases member with rfl | rfl | rfl | rfl | rfl | rfl <;> decide
        · next less greater _ =>
          exact .inl ⟨List.mem_singleton.1 member, less, greater⟩

theorem not_mem_escapeText : '<' ∉ escapeText t := by
  intro member
  obtain ⟨c, _, member⟩ := List.mem_flatMap.1 member
  rcases mem_escapeChar member with ⟨same, less, _⟩ | reference
  · exact less same.symm
  · exact absurd reference (by decide)

theorem quote_not_mem_escapeText {quote : Char} (isQuote_ : isQuote quote = true)
    (apart : quote ∉ t) : quote ∉ escapeText t := by
  intro member
  obtain ⟨c, inside, member⟩ := List.mem_flatMap.1 member
  rcases mem_escapeChar member with ⟨rfl, _, _⟩ | reference
  · exact apart inside
  · simp only [isQuote, Bool.or_eq_true, decide_eq_true_eq] at isQuote_
    rcases isQuote_ with rfl | rfl <;> exact absurd reference (by decide)

/-- A value is written between two quotes that are not in what stands between them, from which the
value is read back. -/
theorem quotedValue_eq (value : Text) :
    ∃ quote inner, quotedValue value = quote :: inner ++ [quote] ∧ isQuote quote = true ∧
      quote ∉ inner ∧ decodeReferences inner = .ok value := by
  unfold quotedValue
  split
  · next apart =>
    refine ⟨'"', escapeText value, rfl, by decide, ?_, decodeReferences_escapeText value⟩
    exact quote_not_mem_escapeText (by decide) (by simpa using apart)
  · split
    · next apart =>
      refine ⟨'\'', escapeText value, rfl, by decide, ?_, decodeReferences_escapeText value⟩
      exact quote_not_mem_escapeText (by decide) (by simpa using apart)
    · refine ⟨'"', value.flatMap escapeQuotedChar, rfl, by decide, ?_,
        decodeReferences_flatMap escapeQuotedChar_readsBack value⟩
      intro member
      obtain ⟨c, _, member⟩ := List.mem_flatMap.1 member
      unfold escapeQuotedChar at member
      split at member
      · exact absurd member (by decide)
      · next other =>
        rcases mem_escapeChar member with ⟨same, _, _⟩ | reference
        · exact other same.symm
        · exact absurd reference (by decide)

end LocatedHtml
