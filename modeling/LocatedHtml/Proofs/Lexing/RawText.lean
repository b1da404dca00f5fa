import LocatedHtml.Proofs.Lexing.WrittenPieces

/-!
The content of a raw text element, which is cut at everything that looks like its end tag. What only
looks like it stays text, so the content comes in one or more pieces.
-/

namespace LocatedHtml

/-- The value can stand in a raw text element: whatever looks like its end tag in it is none. -/
def WritableRaw (name : String) (value : Text) : Prop :=
  ∀ back, back <:+ value → ∀ n, rawTextEnd? name.toList back = some n →
    plainEndName? ((back.take (n - 1)).drop 2) = none

/-- Behind an opening bracket, what looks like the end tag of an element. -/
def LooksLikeEnd (name : String) (tail : Text) : Prop :=
  ∃ before written after, tail = '/' :: (before ++ written ++ after) ++ ['>'] ∧
    (∀ c ∈ before, isBlank c = true) ∧ List.Forall₂ (writesLetter · · = true) name.toList written ∧
    (∀ c ∈ after, isBlank c = true)

variable {name : String} {t : Text}

theorem WritableRaw.suffix {value back : Text} (writable : WritableRaw name value)
    (suffix : back <:+ value) : WritableRaw name back :=
  fun other inner => writable other (inner.trans suffix)

theorem WritableRaw.nil : WritableRaw name [] := by
  intro back suffix n ended
  rw [List.suffix_nil.1 suffix] at ended
  cases ended

theorem isRawText_letters (raw : isRawText name = true) : '<' ∉ name.toList := by
  rcases isRawText_iff.1 raw with rfl | rfl <;> decide

theorem isTagName_of_isRawText (raw : isRawText name = true) : IsTagName name := by
  rcases isRawText_iff.1 raw with rfl | rfl
  · exact @isTagName_lowerName "script".toList (by decide) (by simp [isTagNameChar])
  · exact @isTagName_lowerName "style".toList (by decide) (by simp [isTagNameChar])

theorem plainEndName?_raw (raw : isRawText name = true) : plainEndName? name.toList ≠ none := by
  rcases isRawText_iff.1 raw with rfl | rfl <;> decide

theorem bracket_not_mem_of_writes {letters written : Text}
    (writes : List.Forall₂ (writesLetter · · = true) letters written) (apart : '<' ∉ letters) :
    '<' ∉ written := by
  induction writes with
  | nil => exact List.not_mem_nil
  | @cons letter c letters written first _ ih =>
    rw [List.mem_cons, not_or] at apart ⊢
    refine ⟨?_, ih apart.2⟩
    rintro rfl
    simp only [writesLetter, Bool.or_eq_true, Bool.and_eq_true, decide_eq_true_eq] at first
    rcases first with (same | ⟨_, other⟩) | ⟨_, other | other⟩
    · exact apart.1 same
    all_goals exact absurd other (by decide)

theorem LooksLikeEnd.bracket_not_mem {tail : Text} (raw : isRawText name = true)
    (looks : LooksLikeEnd name tail) : '<' ∉ tail := by
  obtain ⟨before, written, after, rfl, front, writes, back⟩ := looks
  have letters := bracket_not_mem_of_writes writes (isRawText_letters raw)
  have first : '<' ∉ before := fun member => absurd (front _ member) (by decide)
  have last : '<' ∉ after := fun member => absurd (back _ member) (by decide)
  simp [letters, first, last]

/-- The search for the end of the element finds what looks like its end tag. -/
theorem rawTextEnd?_iff (raw : isRawText name = true) {n : Nat} :
    rawTextEnd? name.toList t = some n ↔
      ∃ tail after, t = '<' :: (tail ++ after) ∧ LooksLikeEnd name tail ∧ n = tail.length + 1 := by
  constructor
  · intro ended
    obtain ⟨before, written, after, rest, rfl, front, writes, back, rfl⟩ := rawTextEnd?_eq_some ended
    refine ⟨'/' :: (before ++ written ++ after) ++ ['>'], rest, by simp,
      ⟨before, written, after, rfl, front, writes, back⟩, ?_⟩
    simp only [List.length_append, List.length_cons, List.length_nil]
  · rintro ⟨_, rest, rfl, ⟨before, written, after, rfl, front, writes, back⟩, rfl⟩
    have length := writes.length_eq
    have dark := writes_ne_blank writes (isRawText_ordinary raw)
    have stop : Text.StopsAt isBlank (written ++ (after ++ '>' :: rest)) := by
      cases written with
      | nil => exact absurd (List.length_eq_zero_iff.1 length) (isRawText_ne_nil raw)
      | cons c written => exact Text.stopsAt_cons (dark c List.mem_cons_self) _
    have blanks := Text.blankCount_append_stop front stop
    have named := (@writesName_iff _ _ (after ++ '>' :: rest) length.symm).2 writes
    have closed : bracketLength? (after ++ '>' :: rest) = some (after.length + 1) :=
      bracketLength?_eq_some.2 ⟨after, rest, rfl, back, rfl⟩
    have shape : '<' :: ('/' :: (before ++ written ++ after) ++ ['>'] ++ rest) =
        '<' :: '/' :: (before ++ (written ++ (after ++ '>' :: rest))) := by simp
    rw [shape]
    simp only [rawTextEnd?]
    rw [blanks, List.drop_left, if_pos named, length, List.drop_left, closed, Option.map_some]
    simp only [List.length_append, List.length_cons, List.length_nil, Option.some.injEq]
    omega

theorem rawTextEnd?_mono (raw : isRawText name = true) {n : Nat}
    (ended : rawTextEnd? name.toList t = some n) (more : Text) :
    rawTextEnd? name.toList (t ++ more) = some n := by
  obtain ⟨tail, after, rfl, looks, length⟩ := (rawTextEnd?_iff raw).1 ended
  apply (rawTextEnd?_iff raw).2
  exact ⟨tail, after ++ more, by rw [List.cons_append, List.append_assoc], looks, length⟩

/-- Whether a text looks like an end tag does not depend on markup that comes behind it. -/
theorem rawTextEnd?_append (raw : isRawText name = true) (some_ : t ≠ []) (rest : Text) :
    rawTextEnd? name.toList (t ++ '<' :: rest) = rawTextEnd? name.toList t := by
  apply Option.ext
  intro n
  constructor
  · intro ended
    obtain ⟨tail, after, whole, looks, length⟩ := (rawTextEnd?_iff raw).1 ended
    apply (rawTextEnd?_iff raw).2
    cases t with
    | nil => exact absurd rfl some_
    | cons c t =>
      injection whole with first whole
      rcases List.append_eq_append_iff.1 whole with ⟨more, inside, behind⟩ | ⟨more, same, _⟩
      · cases more with
        | nil =>
          rw [List.append_nil] at inside
          exact ⟨tail, [], by rw [first, inside, List.append_nil], looks, length⟩
        | cons d more =>
          injection behind with bracket
          have one := looks.bracket_not_mem raw
          rw [inside, bracket] at one
          exact absurd (List.mem_append_right _ List.mem_cons_self) one
      · exact ⟨tail, more, by rw [first, same], looks, length⟩
  · intro ended
    exact rawTextEnd?_mono raw ended _

theorem rawTextEnd?_written (raw : isRawText name = true) (rest : Text) :
    rawTextEnd? name.toList (writtenEndTag name ++ rest) = some (name.toList.length + 3) := by
  have writes : List.Forall₂ (writesLetter · · = true) name.toList name.toList := by
    rcases isRawText_iff.1 raw with rfl | rfl <;> simp [writesLetter]
  apply (rawTextEnd?_iff raw).2
  refine ⟨'/' :: ([] ++ name.toList ++ []) ++ ['>'], rest, ?_,
    ⟨[], name.toList, [], rfl, by simp, writes, by simp⟩, ?_⟩
  · simp [writtenEndTag]
  · simp

section

variable {c : Char} {rest : Text}

theorem scanInside_before {before after : Text} {m : Nat}
    (found : Text.untilMatch (rawTextEnd? name.toList) (c :: before ++ after) = some (c :: before, m)) :
    scanInside name (c :: before ++ after) = some ⟨.text (c :: before), before.length, some name⟩ := by
  rw [scanInside, found]
  rfl

theorem scanInside_fake {tail after : Text}
    (found : Text.untilMatch (rawTextEnd? name.toList) ('<' :: (tail ++ after)) =
      some ([], tail.length + 1))
    (fake : plainEndName? ((('<' :: (tail ++ after)).take tail.length).drop 2) = none) :
    scanInside name ('<' :: (tail ++ after)) = some ⟨.text ('<' :: tail), tail.length, some name⟩ := by
  rw [scanInside, found, Option.map_some]
  dsimp only
  rw [if_neg (by simp), Nat.add_sub_cancel, if_pos fake, List.take_succ_cons, List.take_left]

theorem scanInside_end (raw : isRawText name = true)
    (found : Text.untilMatch (rawTextEnd? name.toList) (writtenEndTag name ++ rest) =
      some ([], name.toList.length + 3)) :
    scanInside name (writtenEndTag name ++ rest) =
      some ⟨.endTag name, name.toList.length + 2, none⟩ := by
  have inner : ((writtenEndTag name ++ rest).take (name.toList.length + 2)).drop 2 = name.toList := by
    simp [writtenEndTag]
  rw [scanInside, found, Option.map_some]
  dsimp only
  rw [if_neg (by simp), Nat.add_sub_cancel (m := 1), inner, if_neg (plainEndName?_raw raw)]

end

/-- The text is cut into pieces that make up a value, and then has the given tokens. -/
def YieldsPieces (name : String) (value rest : Text) (tokens : List Token) : Prop :=
  ∃ values : List Text, values.flatten = value ∧ (∀ v ∈ values, v ≠ []) ∧
    Yields (some name) (value ++ rest) (values.map .text ++ tokens)

theorem YieldsPieces.cons {c : Char} {piece value rest : Text} {tokens : List Token}
    (scanned : scanInside name (c :: (piece ++ (value ++ rest))) =
      some ⟨.text (c :: piece), piece.length, some name⟩)
    (more : YieldsPieces name value rest tokens) :
    YieldsPieces name (c :: (piece ++ value)) rest tokens := by
  obtain ⟨values, flat, nonempty, yields⟩ := more
  refine ⟨(c :: piece) :: values, by rw [List.flatten_cons, flat, List.cons_append], ?_, ?_⟩
  · rw [List.forall_mem_cons]
    exact ⟨List.cons_ne_nil _ _, nonempty⟩
  · rw [List.cons_append, List.append_assoc]
    refine Yields.cons ⟨.text (c :: piece), piece.length, some name⟩ ?_ rfl yields
    rw [scanLexeme, scanned]

/-- The content of a raw text element with its end tag: pieces of text that make up the content, then
the end tag. -/
theorem Yields.rawText {rest : Text} {tokens : List Token} {value : Text}
    (raw : isRawText name = true) (writable : WritableRaw name value)
    (more : Yields none rest tokens) :
    YieldsPieces name value (writtenEndTag name ++ rest) (.endTag name :: tokens) := by
  have ended := rawTextEnd?_written raw rest
  induction size : value.length using Nat.strongRecOn generalizing value with
  | ind n ih =>
    subst size
    obtain ⟨before, after, m, rfl, found, matched⟩ := Text.untilMatch_split value ended
    cases before with
    | cons c before =>
      rw [List.append_assoc] at found
      apply YieldsPieces.cons (scanInside_before found)
      apply ih _ _ (writable.suffix (List.suffix_append _ _)) rfl
      rw [List.length_append, List.length_cons]
      omega
    | nil =>
      rw [List.nil_append] at found writable ih ⊢
      by_cases nonempty : after = []
      · subst nonempty
        rw [List.nil_append, ended] at matched
        injection matched with length
        rw [List.nil_append, ← length] at found
        refine ⟨[], rfl, by simp, ?_⟩
        have shape : writtenEndTag name ++ rest = '<' :: (('/' :: name.toList ++ ['>']) ++ rest) := rfl
        have scanned := scanInside_end raw found
        rw [shape] at scanned
        refine Yields.cons ⟨.endTag name, name.toList.length + 2, none⟩ ?_ (by simp) more
        exact congrArg Except.ok scanned
      · have here : rawTextEnd? name.toList after = some m := by
          rw [← matched]
          exact (rawTextEnd?_append raw nonempty _).symm
        have fake := writable _ List.suffix_rfl m here
        obtain ⟨tail, behind, rfl, looks, rfl⟩ := (rawTextEnd?_iff raw).1 here
        have bound : tail.length ≤ ('<' :: (tail ++ behind)).length := by
          rw [List.length_cons, List.length_append]
          omega
        rw [Nat.add_sub_cancel,
          ← @List.take_append_of_le_length _ _ (writtenEndTag name ++ rest) _ bound] at fake
        rw [List.cons_append, List.append_assoc] at found fake
        apply YieldsPieces.cons (scanInside_fake found fake)
        have suffix : behind <:+ '<' :: (tail ++ behind) :=
          (List.suffix_append _ _).trans (List.suffix_cons _ _)
        apply ih _ _ (writable.suffix suffix) rfl
        rw [List.length_cons, List.length_append]
        omega

end LocatedHtml
