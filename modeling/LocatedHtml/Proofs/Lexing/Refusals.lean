import LocatedHtml.Proofs.Lexing.Pieces
import Mathlib.Data.List.Infix

/-!
Why a source is refused. An error is about something that stands in the source, the opening of a marked
section or a number with too many digits, and a source without these is cut into lexemes whatever else
is wrong with it.
-/

namespace LocatedHtml

/-- What the error is about stands in the text. -/
inductive Refuses (t : Text) : MarkupError → Prop
  | missingName {near : Text} (opens : "<![".toList <+: near) (inside : near <:+: t) :
      Refuses t (.missingSectionName near)
  | unknownName {name : Text} (inside : "<![".toList ++ name <:+: t) :
      Refuses t (.unknownSectionName name)
  | tooManyDigits {digits : Text} (all : ∀ c ∈ digits, isDigit c = true)
      (many : maxDigits < digits.length) (inside : "&#".toList ++ digits <:+: t) :
      Refuses t (.tooManyDigits digits.length)

/-- A text that opens no marked section and has no decimal number with too many digits. -/
structure Acceptable (t : Text) : Prop where
  sections : ¬"<![".toList <:+: t
  numbers : ∀ digits : Text, (∀ c ∈ digits, isDigit c = true) → maxDigits < digits.length →
    ¬"&#".toList ++ digits <:+: t

variable {s t : Text} {e : MarkupError}

theorem Refuses.mono (refuses : Refuses s e) (inside : s <:+: t) : Refuses t e := by
  cases refuses with
  | missingName opens inner => exact .missingName opens (inner.trans inside)
  | unknownName inner => exact .unknownName (inner.trans inside)
  | tooManyDigits all many inner => exact .tooManyDigits all many (inner.trans inside)

theorem Acceptable.not_refuses (acceptable : Acceptable t) : ¬Refuses t e := by
  intro refuses
  cases refuses with
  | missingName opens inside => exact acceptable.sections (opens.isInfix.trans inside)
  | unknownName inside => exact acceptable.sections ((List.prefix_append _ _).isInfix.trans inside)
  | tooManyDigits all many inside => exact acceptable.numbers _ all many inside

theorem Acceptable.of_length (short : t.length ≤ maxDigits) (sections : ¬"<![".toList <:+: t) :
    Acceptable t where
  sections := sections
  numbers digits _ many inside := by
    have bound := inside.length_le
    rw [List.length_append] at bound
    omega

/-- Two steps fail where the first one does, or else where the second one does. -/
theorem bind_eq_error {α β : Type} {x : Except MarkupError α} {f : α → Except MarkupError β}
    (failed : x >>= f = .error e) : x = .error e ∨ ∃ a, x = .ok a ∧ f a = .error e := by
  cases x with
  | error d =>
    cases failed
    exact .inl rfl
  | ok a => exact .inr ⟨a, rfl, failed⟩

theorem reference?_error (refused : reference? t = .error e) : Refuses ('&' :: t) e := by
  unfold reference? at refused
  split at refused
  · next x rest =>
    split at refused
    · cases refused
    · dsimp only at refused
      split at refused
      · cases refused
      · split at refused
        · next many =>
          cases refused
          refine .tooManyDigits (fun c => List.mem_takeWhile_imp) many ?_
          exact ((List.prefix_append_right_inj "&#".toList).2 (List.takeWhile_prefix _)).isInfix
        · cases refused
  · dsimp only at refused
    split at refused <;> cases refused

theorem decodeReferences_error (refused : decodeReferences t = .error e) : Refuses t e := by
  induction t using decodeReferences.induct with
  | case1 =>
    rw [decodeReferences] at refused
    cases refused
  | case2 rest behind next =>
    have later (front : Text) (n : Nat) : rest.drop n <:+: front ++ rest :=
      (List.drop_suffix n rest).isInfix.trans (List.suffix_append front rest).isInfix
    rw [decodeReferences, if_pos rfl] at refused
    -- A reference fails with the ampersand in front of it, everything behind it with what it drops.
    rcases bind_eq_error refused with first | ⟨found, _, refused⟩
    · exact reference?_error first
    · cases found with
      | some found =>
        rcases bind_eq_error refused with more | ⟨_, _, done⟩
        · exact (behind found.2 more).mono (later ['&'] found.2)
        · cases done
      | none =>
        rcases bind_eq_error refused with more | ⟨_, _, done⟩
        · exact (next more).mono (later ['&'] 0)
        · cases done
  | case3 c rest plain next =>
    rw [decodeReferences, if_neg plain] at refused
    rcases bind_eq_error refused with more | ⟨_, _, done⟩
    · exact (next more).mono (List.suffix_cons c rest).isInfix
    · cases done

/-- A value stands behind its name as it is written, or its first character is the last equals sign. -/
theorem valueAfterEquals?_isInfix {equals blanks n : Nat} {value : Text}
    (found : valueAfterEquals? equals blanks t = some (value, n)) :
    value <:+: t ∨ 1 < equals ∧ blanks = 0 ∧ value <+: '=' :: t := by
  unfold valueAfterEquals? at found
  split at found
  · next c rest =>
    split at found
    · split at found
      · cases found
        exact .inl ((List.takeWhile_prefix _).isInfix.trans (List.suffix_cons c rest).isInfix)
      · split at found
        · cases found
          exact .inl (List.nil_infix)
        · next blankless =>
          split at found
          · next several =>
            cases found
            refine .inr ⟨several, Nat.eq_zero_of_not_pos blankless, ?_⟩
            exact (List.prefix_cons_inj '=').2 (List.takeWhile_prefix _)
          · cases found
    · cases found
      exact .inl (List.takeWhile_prefix _).isInfix
  · cases found
    exact .inl List.nil_infix

/-- The last of the equals signs that a text starts with stands in front of what comes behind them. -/
theorem equals_suffix (nonempty : t.takeWhile (· == '=') ≠ []) :
    '=' :: t.drop (t.takeWhile (· == '=')).length <:+ t := by
  obtain ⟨rest, whole, all, _⟩ := Text.exists_takeWhile (· == '=') t
  generalize t.takeWhile (· == '=') = signs at nonempty whole all ⊢
  subst whole
  have last : signs.getLast nonempty = '=' := beq_iff_eq.1 (all _ (List.getLast_mem nonempty))
  refine ⟨signs.dropLast, ?_⟩
  rw [List.drop_left, List.append_cons, ← last, List.dropLast_append_getLast]

theorem attributeValue?_isInfix {value : Text} {n : Nat} (found : attributeValue? t = some (value, n)) :
    value <:+: t := by
  unfold attributeValue? at found
  dsimp only at found
  split at found
  · cases found
  · next some_ =>
    obtain ⟨⟨inner, m⟩, inside, same⟩ := Option.map_eq_some_iff.1 found
    cases same
    have behind (n : Nat) : t.drop n <:+: t := (List.drop_suffix n t).isInfix
    rcases valueAfterEquals?_isInfix inside with direct | ⟨_, blankless, front⟩
    · rw [List.drop_drop] at direct
      exact direct.trans (behind _)
    · -- The equals sign that belongs to the value is the last one before it.
      rw [blankless, List.drop_zero, ← List.drop_drop] at front
      have signs := equals_suffix (t := t.drop (blankCount t)) (mt List.length_eq_zero_iff.2 some_)
      exact front.isInfix.trans (signs.isInfix.trans (behind _))

theorem scanAttributes_isInfix (previous : Char) (t : Text) :
    ∀ w ∈ (scanAttributes previous t).1, w.value.getD [] <:+: t := by
  fun_induction scanAttributes previous t with
  | case1 => simp
  | case2 previous c rest starts nameRest value written used more ih =>
    have behind (n : Nat) : rest.drop n <:+: c :: rest :=
      ((List.drop_suffix n rest).trans (List.suffix_cons c rest)).isInfix
    intro w member
    rcases List.mem_cons.1 member with rfl | member
    · cases found : value with
      | none => exact List.nil_infix
      | some pair => exact (attributeValue?_isInfix found).trans (behind _)
    · exact (ih w member).trans (behind _)
  | case3 => simp

theorem decodeAttributes_error {ws : List WrittenAttribute} (refused : decodeAttributes ws = .error e) :
    ∃ w ∈ ws, Refuses (w.value.getD []) e := by
  induction ws with
  | nil => cases refused
  | cons w ws ih =>
    unfold decodeAttributes at refused ih
    rw [List.mapM_cons] at refused
    rcases bind_eq_error refused with first | ⟨_, _, refused⟩
    · rcases bind_eq_error first with value | ⟨_, _, done⟩
      · exact ⟨w, List.mem_cons_self, decodeReferences_error value⟩
      · cases done
    · rcases bind_eq_error refused with more | ⟨_, _, done⟩
      · obtain ⟨v, member, refuses⟩ := ih more
        exact ⟨v, List.mem_cons_of_mem w member, refuses⟩
      · cases done

theorem scanSection_error (refused : scanSection t = .error e) : Refuses ("<![".toList ++ t) e := by
  unfold scanSection at refused
  split at refused
  · cases refused
  · next c rest =>
    split at refused
    · cases refused
      refine .missingName ?_ (List.take_prefix _ _).isInfix
      exact List.prefix_append _ _
    · dsimp only at refused
      split at refused
      · cases refused
      · split at refused
        · cases refused
          exact .unknownName ((List.prefix_append_right_inj _).2 (List.take_prefix _ _)).isInfix
        · cases refused

theorem scanDeclaration_error (refused : scanDeclaration t = .error e) : Refuses ("<!".toList ++ t) e := by
  unfold scanDeclaration at refused
  split at refused
  · cases refused
  · exact scanSection_error refused
  · cases refused

theorem foundStartTag_error (refused : foundStartTag t = .error e) : Refuses t e := by
  unfold foundStartTag at refused
  split at refused
  · cases refused
  · cases refused
  · next name attributes selfClosing length complete =>
    rcases bind_eq_error refused with values | ⟨_, _, done⟩
    · obtain ⟨w, member, refuses⟩ := decodeAttributes_error values
      obtain ⟨previous, used, rfl⟩ := scanStartTag_attributes complete
      exact (refuses.mono (scanAttributes_isInfix previous _ w member)).mono
        (List.drop_suffix used t).isInfix
    · cases done

theorem scanMarkup_error (refused : scanMarkup t = .error e) : Refuses ('<' :: t) e := by
  unfold scanMarkup at refused
  split at refused
  · cases refused
  · exact scanDeclaration_error refused
  · cases refused
  · split at refused
    · exact (foundStartTag_error refused).mono (List.suffix_cons _ _).isInfix
    · cases refused
  · cases refused

theorem scanOutside_error {c : Char} {rest : Text} (refused : scanOutside c rest = .error e) :
    Refuses (c :: rest) e := by
  have text {front : Text} (part : front <+: rest) (refused : decodeReferences (c :: front) = .error e) :
      Refuses (c :: rest) e :=
    (decodeReferences_error refused).mono ((List.prefix_cons_inj c).2 part).isInfix
  unfold scanOutside at refused
  split at refused
  · next bracket =>
    rcases bind_eq_error refused with markup | ⟨found, _, refused⟩
    · rw [bracket]
      exact scanMarkup_error markup
    · cases found with
      | some found => cases refused
      | none =>
        rcases bind_eq_error refused with value | ⟨_, _, done⟩
        · exact text (List.take_prefix _ _) value
        · cases done
  · rcases bind_eq_error refused with value | ⟨_, _, done⟩
    · exact text (List.takeWhile_prefix _) value
    · cases done

theorem scanLexeme_error {inside : Option String} {c : Char} {rest : Text}
    (refused : scanLexeme inside c rest = .error e) : Refuses (c :: rest) e := by
  cases inside with
  | some name => cases refused
  | none =>
    rw [scanLexeme] at refused
    cases outside : scanOutside c rest with
    | error d =>
      rw [outside] at refused
      cases refused
      exact scanOutside_error outside
    | ok found =>
      rw [outside] at refused
      cases refused

theorem lexemesFrom_error {inside : Option String} {start : Mark}
    (refused : lexemesFrom inside start t = .error e) : Refuses t e := by
  induction inside, start, t using lexemesFrom.induct with
  | case1 =>
    rw [lexemesFrom] at refused
    cases refused
  | case2 inside start c rest ih =>
    rw [lexemesFrom] at refused
    rcases bind_eq_error refused with first | ⟨found, _, refused⟩
    · exact scanLexeme_error first
    · cases found with
      | none => cases refused
      | some found =>
        rcases bind_eq_error refused with more | ⟨_, _, done⟩
        · refine (ih found more).mono (List.IsSuffix.isInfix ?_)
          exact (List.drop_suffix _ rest).trans (List.suffix_cons c rest)
        · cases done

/-- Without a marked section and a number with too many digits every source has its lexemes. -/
theorem Acceptable.lexemes (acceptable : Acceptable t) : ∃ xs, lexemes t = .ok xs := by
  cases cut : LocatedHtml.lexemes t with
  | error e => exact absurd (lexemesFrom_error cut) acceptable.not_refuses
  | ok xs => exact ⟨xs, rfl⟩

end LocatedHtml
