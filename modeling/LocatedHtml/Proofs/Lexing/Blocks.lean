import LocatedHtml.Proofs.Lexing.RawText
import LocatedHtml.Proofs.Lexing.WritableTokens

/-!
The lexemes of a source as blocks: the start tag of a raw text element has pieces of text behind it and
then its end tag, unless the source ends before that. Everything else stands by itself.
-/

namespace LocatedHtml

/-- The lexemes are pieces of text that make up a value. -/
def IsContent (value : Text) (texts : List Lexeme) : Prop :=
  ∃ values : List Text, texts.map (·.token) = values.map .text ∧ values.flatten = value

/-- The lexeme is the start tag of a raw text element. -/
structure StartsRaw (x : Lexeme) (name : String) (attributes : List (String × Text)) : Prop where
  token : x.token = .startTag name attributes false
  raw : isRawText name = true
  named : ∀ entry ∈ attributes, IsAttributeName entry.1

/-- The lexemes are pieces of text that mean what is written. -/
def IsVerbatim (texts : List Lexeme) : Prop := ∀ y ∈ texts, y.token = .text y.raw

/-- The start tag of a raw text element and pieces of text behind it that can be written again. -/
structure RawBlock (x : Lexeme) (texts : List Lexeme) (name : String) (attributes : List (String × Text))
    (value : Text) : Prop where
  started : StartsRaw x name attributes
  content : IsContent value texts
  verbatim : IsVerbatim texts
  writable : WritableRaw name value

/-- Lexemes of which all can be written again, those of raw text elements together. -/
inductive Blocks : List Lexeme → Prop
  | nil : Blocks []
  | plain {x : Lexeme} {xs : List Lexeme} (writable : x.token.Writable)
      (ordinary : ∀ name attributes, x.token = .startTag name attributes false → isRawText name = false)
      (more : Blocks xs) : Blocks (x :: xs)
  | raw {x y : Lexeme} {name : String} {attributes : List (String × Text)} {value : Text}
      {texts xs : List Lexeme} (block : RawBlock x texts name attributes value)
      (ended : y.token = .endTag name) (more : Blocks xs) : Blocks (x :: (texts ++ y :: xs))
  | unclosed {x : Lexeme} {name : String} {attributes : List (String × Text)} {value : Text}
      {texts : List Lexeme} (block : RawBlock x texts name attributes value) : Blocks (x :: texts)

/-- Lexemes inside of a raw text element: pieces of text from the front of a text, and then its end tag
and blocks, or nothing more. -/
def RawBlocks (name : String) (t : Text) (xs : List Lexeme) : Prop :=
  ∃ value texts, value <+: t ∧ WritableRaw name value ∧ IsContent value texts ∧ IsVerbatim texts ∧
    (xs = texts ∨ ∃ y more, y.token = .endTag name ∧ Blocks more ∧ xs = texts ++ y :: more)

variable {name : String} {before after value : Text}

theorem suffix_append_cases {α : Type} {back front rest : List α} (suffix : back <:+ front ++ rest) :
    back <:+ rest ∨ ∃ inner, inner <:+ front ∧ inner ≠ [] ∧ back = inner ++ rest := by
  obtain ⟨start, whole⟩ := suffix
  rcases List.append_eq_append_iff.1 whole with ⟨inner, same, rfl⟩ | ⟨inner, same, behind⟩
  · by_cases nonempty : inner = []
    · rw [nonempty]
      exact .inl List.suffix_rfl
    · exact .inr ⟨inner, ⟨start, same.symm⟩, nonempty, rfl⟩
  · exact .inl ⟨inner, behind.symm⟩

/-- Text in front of the first thing that looks like an end tag adds no end tag. -/
theorem WritableRaw.append_text (raw : isRawText name = true) (writable : WritableRaw name value)
    (first : ∀ back, back <:+ before → back ≠ [] → rawTextEnd? name.toList (back ++ after) = none)
    (front : value <+: after) : WritableRaw name (before ++ value) := by
  intro back suffix n ended
  rcases suffix_append_cases suffix with inside | ⟨inner, reaches, nonempty, rfl⟩
  · exact writable back inside n ended
  · obtain ⟨more, rfl⟩ := front
    have longer := rawTextEnd?_mono raw ended more
    rw [List.append_assoc, first inner reaches nonempty] at longer
    cases longer

theorem WritableRaw.append_fake (raw : isRawText name = true) (writable : WritableRaw name value)
    {tail : Text} (looks : LooksLikeEnd name tail)
    (fake : plainEndName? ((('<' :: tail).take tail.length).drop 2) = none) :
    WritableRaw name ('<' :: tail ++ value) := by
  intro back suffix n ended
  rcases suffix_append_cases suffix with inside | ⟨inner, reaches, nonempty, rfl⟩
  · exact writable back inside n ended
  · rcases List.suffix_cons_iff.1 reaches with rfl | within
    · have here : rawTextEnd? name.toList ('<' :: tail ++ value) = some (tail.length + 1) :=
        (rawTextEnd?_iff raw).2 ⟨tail, value, rfl, looks, rfl⟩
      rw [ended] at here
      injection here with length
      have bound : tail.length ≤ ('<' :: tail).length := Nat.le_succ _
      rw [length, Nat.add_sub_cancel, List.take_append_of_le_length bound, fake]
    · obtain ⟨_, _, whole, _, _⟩ := (rawTextEnd?_iff raw).1 ended
      cases inner with
      | nil => exact absurd rfl nonempty
      | cons c inner =>
        injection whole with first
        have bracket := within.subset List.mem_cons_self
        rw [first] at bracket
        exact absurd bracket (looks.bracket_not_mem raw)

theorem IsContent.cons {x : Lexeme} {piece : Text} {texts : List Lexeme} (token : x.token = .text piece)
    (content : IsContent value texts) : IsContent (piece ++ value) (x :: texts) := by
  obtain ⟨values, tokens, flat⟩ := content
  exact ⟨piece :: values, by rw [List.map_cons, List.map_cons, token, tokens], by rw [List.flatten_cons, flat]⟩

theorem RawBlocks.cons {x : Lexeme} {xs : List Lexeme} {piece rest : Text}
    (token : x.token = .text piece) (raw : x.raw = piece) (blocks : RawBlocks name rest xs)
    (writable : ∀ value, value <+: rest → WritableRaw name value → WritableRaw name (piece ++ value)) :
    RawBlocks name (piece ++ rest) (x :: xs) := by
  obtain ⟨value, texts, front, inner, content, verbatim, ends⟩ := blocks
  refine ⟨piece ++ value, x :: texts, ?_, writable value front inner, content.cons token, ?_, ?_⟩
  · exact (List.prefix_append_right_inj piece).2 front
  · exact List.forall_mem_cons.2 ⟨by rw [token, raw], verbatim⟩
  · rcases ends with rfl | ⟨y, more, ended, behind, rfl⟩
    · exact .inl rfl
    · exact .inr ⟨y, more, ended, behind, rfl⟩

/-- The lexeme that is found inside of a raw text element: a piece of its text, after which the text goes
on, or its end tag. -/
theorem scanInside_cases {c : Char} {rest : Text} {found : Found} (raw : isRawText name = true)
    (scanned : scanInside name (c :: rest) = some found) :
    (found.token = .text (c :: rest.take found.extra) ∧ found.inside = some name ∧
      ∀ value, value <+: rest.drop found.extra → WritableRaw name value →
        WritableRaw name ((c :: rest.take found.extra) ++ value)) ∨
      found.token = .endTag name ∧ found.inside = none := by
  obtain ⟨⟨before, n⟩, matched, same⟩ := Option.map_eq_some_iff.1 scanned
  obtain ⟨after, whole, ended, first⟩ := Text.untilMatch_eq_some matched
  dsimp only at same
  split at same
  · next nonempty =>
    cases before with
    | nil => cases nonempty
    | cons d before =>
      injection whole with head tail
      subst same head tail
      left
      have taken : (before ++ after).take before.length = before := List.take_left
      have dropped : (before ++ after).drop before.length = after := List.drop_left
      refine ⟨congrArg (fun t => Token.text (c :: t)) taken.symm, rfl, fun value front inner => ?_⟩
      change value <+: (before ++ after).drop before.length at front
      change WritableRaw name (c :: (before ++ after).take before.length ++ value)
      rw [dropped] at front
      rw [taken]
      exact inner.append_text raw first front
  · next empty =>
    have none : before = [] := by simpa using empty
    subst none
    rw [List.nil_append] at whole
    subst whole
    split at same
    · next fake =>
      obtain ⟨tail, after, shape, looks, rfl⟩ := (rawTextEnd?_iff raw).1 ended
      injection shape with head tail
      subst same head tail
      left
      rw [Nat.add_sub_cancel, ← List.cons_append,
        List.take_append_of_le_length (Nat.le_succ _)] at fake
      simp only [Nat.add_sub_cancel, List.take_succ_cons, List.take_left, List.drop_left]
      exact ⟨trivial, trivial, fun value _ inner => inner.append_fake raw looks fake⟩
    · subst same
      exact .inr ⟨rfl, rfl⟩

/-- The lexemes of a text come in blocks. -/
theorem lexemesFrom_blocks {inside : Option String} {start : Mark} {t : Text} {xs : List Lexeme}
    (cut : lexemesFrom inside start t = .ok xs) :
    (inside = none → Blocks xs) ∧
      ∀ name, inside = some name → isRawText name = true → RawBlocks name t xs := by
  have stop (name : String) (t : Text) : RawBlocks name t [] :=
    ⟨[], [], List.nil_prefix, .nil, ⟨[], rfl, rfl⟩, List.forall_mem_nil _, .inl rfl⟩
  induction inside, start, t using lexemesFrom.induct generalizing xs with
  | case1 =>
    rw [lexemesFrom] at cut
    cases cut
    exact ⟨fun _ => .nil, fun name _ _ => stop name _⟩
  | case2 inside start c rest ih =>
    rcases lexemesFrom_cases cut with ⟨_, rfl⟩ | ⟨found, more, scanned, behind, rfl⟩
    · exact ⟨fun _ => .nil, fun name _ _ => stop name _⟩
    · obtain ⟨outside, within⟩ := ih found behind
      refine ⟨?_, ?_⟩
      · rintro rfl
        obtain ⟨writable, enters⟩ := scanOutside_writable (scanLexeme_outside scanned)
        rcases enters.cases with ⟨name, attributes, token, raw, enters⟩ | ⟨stays, ordinary⟩
        · have named : ∀ entry ∈ attributes, IsAttributeName entry.1 := by
            rw [token] at writable
            exact writable.2
          obtain ⟨value, texts, _, inner, content, verbatim, ends⟩ := within name enters raw
          rcases ends with rfl | ⟨y, others, ended, blocks, rfl⟩
          · exact .unclosed ⟨⟨token, raw, named⟩, content, verbatim, inner⟩
          · exact .raw ⟨⟨token, raw, named⟩, content, verbatim, inner⟩ ended blocks
        · exact .plain writable ordinary (outside stays)
      · rintro name rfl raw
        have scanned : scanInside name (c :: rest) = some found := by
          injection scanned
        rcases scanInside_cases raw scanned with ⟨token, goesOn, writable⟩ | ⟨ended, stays⟩
        · have blocks := (within name goesOn raw).cons
            (x := ⟨start, c :: rest.take found.extra, found.token⟩) token rfl writable
          rwa [List.cons_append, List.take_append_drop] at blocks
        · refine ⟨[], [], List.nil_prefix, .nil, ⟨[], rfl, rfl⟩, List.forall_mem_nil _, .inr ?_⟩
          exact ⟨_, _, ended, outside stays, rfl⟩

end LocatedHtml
