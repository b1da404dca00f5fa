import LocatedHtml.Proofs.Lexing.WrittenTags

/-!
The pieces of written markup one after another: each is cut off as one lexeme with the token that it was
written for, whatever follows it.
-/

namespace LocatedHtml

/-- The lexemes of a text, wherever it starts, have the given tokens. -/
def Yields (inside : Option String) (t : Text) (tokens : List Token) : Prop :=
  ∀ start, ∃ xs, lexemesFrom inside start t = .ok xs ∧ xs.map (·.token) = tokens

/-- The value can stand in a comment: the end of a comment is nowhere in it. -/
def WritableComment (value : Text) : Prop := ∀ back, back <:+ value → commentEnd? back = none

/-- The value can stand in a declaration that is read as a doctype. -/
structure WritableDoctype (value : Text) : Prop where
  apart : '>' ∉ value
  long : 7 ≤ value.length
  keyword : Text.lower (value.take 7) = "doctype".toList

namespace Text

/-- A search ends in a value or right behind it where there is something to find. -/
theorem untilMatch_split {ends : Text → Option Nat} {rest : Text} {n : Nat} (value : Text)
    (found : ends rest = some n) :
    ∃ before after m, value = before ++ after ∧
      untilMatch ends (value ++ rest) = some (before, m) ∧ ends (after ++ rest) = some m := by
  induction value with
  | nil =>
    refine ⟨[], [], n, rfl, ?_, found⟩
    cases rest with
    | nil => rw [List.append_nil, untilMatch, found]; rfl
    | cons c rest => rw [List.nil_append, untilMatch, found]
  | cons c value ih =>
    rw [List.cons_append, untilMatch]
    cases first : ends (c :: (value ++ rest)) with
    | some m => exact ⟨[], c :: value, m, rfl, rfl, first⟩
    | none =>
      obtain ⟨before, after, m, whole, later, matched⟩ := ih
      refine ⟨c :: before, after, m, by rw [whole, List.cons_append], ?_, matched⟩
      rw [later]
      rfl

theorem untilMatch_append {ends : Text → Option Nat} {value rest : Text} {n : Nat}
    (none : ∀ back, back <:+ value → back ≠ [] → ends (back ++ rest) = none)
    (found : ends rest = some n) : untilMatch ends (value ++ rest) = some (value, n) := by
  obtain ⟨before, after, m, whole, later, matched⟩ := untilMatch_split value found
  cases after with
  | nil =>
    rw [List.append_nil] at whole
    rw [List.nil_append, found] at matched
    injection matched with same
    rw [later, whole, same]
  | cons c after =>
    rw [none (c :: after) ⟨before, whole.symm⟩ (List.cons_ne_nil _ _)] at matched
    cases matched

end Text

theorem scanMarkup_of_letter {t : Text} (letter : t.head?.any isLetter = true) :
    scanMarkup t = foundStartTag t := by
  cases t with
  | nil => cases letter
  | cons c tail =>
    have first : isLetter c = true := letter
    have other {d : Char} (mark : isLetter d = false) : c ≠ d := by
      rintro rfl
      rw [first] at mark
      cases mark
    unfold scanMarkup
    split
    · next same =>
      injection same with same
      exact absurd same (other (by decide))
    · next same =>
      injection same with same
      exact absurd same (other (by decide))
    · next same =>
      injection same with same
      exact absurd same (other (by decide))
    · next same =>
      injection same with same
      rw [← same, if_pos first]
    · next same => cases same

namespace Yields

variable {rest : Text} {tokens : List Token}

theorem nil : Yields none [] [] := by
  intro start
  refine ⟨[], ?_, rfl⟩
  rw [lexemesFrom]

theorem cons {inside : Option String} {c : Char} {piece : Text} (found : Found)
    (scanned : scanLexeme inside c (piece ++ rest) = .ok (some found))
    (length : found.extra = piece.length) (more : Yields found.inside rest tokens) :
    Yields inside (c :: (piece ++ rest)) (found.token :: tokens) := by
  intro start
  obtain ⟨xs, cut, same⟩ := more (start.after (c :: piece))
  refine ⟨⟨start, c :: piece, found.token⟩ :: xs, ?_, ?_⟩
  · rw [lexemesFrom, scanned]
    dsimp only [bind, Except.bind]
    rw [length, List.take_left, List.drop_left, cut]
    rfl
  · rw [List.map_cons, same]

theorem markup {piece : Text} (found : Found)
    (scanned : scanMarkup (piece ++ rest) = .ok (some found)) (length : found.extra = piece.length)
    (more : Yields found.inside rest tokens) :
    Yields none ('<' :: (piece ++ rest)) (found.token :: tokens) := by
  apply cons found _ length more
  rw [scanLexeme, scanOutside, if_pos rfl, scanned]
  rfl

theorem startTag {name : String} {attributes : OrderedMap Text} (tag : IsTagName name)
    (writable : WritableAttributes attributes)
    (more : Yields (if isRawText name then some name else none) rest tokens) :
    Yields none (writtenStartTag name attributes ++ rest)
      (.startTag name attributes false :: tokens) := by
  have found := foundStartTag_written tag writable rest
  have letter := tag.letter
  rw [writtenStartTag_eq]
  have whole : name.toList ++ (writtenAttributes attributes ++ '>' :: rest) =
      (name.toList ++ (writtenAttributes attributes ++ ['>'])) ++ rest := by
    simp only [List.append_assoc, List.singleton_append]
  rw [whole] at found ⊢
  have opens : (name.toList ++ (writtenAttributes attributes ++ ['>']) ++ rest).head?.any isLetter =
      true := by
    cases written : name.toList with
    | nil =>
      rw [written] at letter
      cases letter
    | cons c tail =>
      rw [written] at letter
      exact letter
  rw [← scanMarkup_of_letter opens] at found
  refine markup _ found ?_ more
  simp only [List.length_append, List.length_singleton, Nat.add_assoc]

theorem endTag {name : String} (tag : IsTagName name) (dark : ∀ c ∈ name.toList, isBlank c = false)
    (more : Yields none rest tokens) :
    Yields none (writtenEndTag name ++ rest) (.endTag name :: tokens) := by
  have apart : '>' ∉ name.toList := by
    intro member
    exact absurd (tag.all _ member) (by decide)
  have closed : upToBracket? (name.toList ++ '>' :: rest) = some name.toList :=
    upToBracket?_eq_some.2 ⟨rest, rfl, apart⟩
  have whole : writtenEndTag name ++ rest = '<' :: (('/' :: name.toList ++ ['>']) ++ rest) := rfl
  rw [whole]
  refine markup ⟨.endTag name, name.toList.length + 2, none⟩ ?_ ?_ more
  · simp only [List.cons_append, List.append_assoc, List.nil_append, scanMarkup]
    rw [closed, Option.map_some, endTagToken_written tag dark]
  · rw [List.length_append, List.length_cons]
    rfl

end Yields

theorem bracketLength?_append_none {b : Text} {c : Char} (open_ : bracketLength? b = none)
    (dark : isBlank c = false) (other : c ≠ '>') (rest : Text) :
    bracketLength? (b ++ c :: rest) = none := by
  rw [Option.eq_none_iff_forall_ne_some]
  intro n found
  obtain ⟨blanks, behind, whole, all, _⟩ := bracketLength?_eq_some.1 found
  rcases List.append_eq_append_iff.1 whole with ⟨front, same, tail⟩ | ⟨front, same, tail⟩
  · cases front with
    | nil =>
      injection tail with first
      exact other first
    | cons d front =>
      injection tail with first
      have blank := all c (by rw [same, first]; simp)
      rw [dark] at blank
      cases blank
  · cases front with
    | nil =>
      injection tail with first
      exact other first.symm
    | cons d front =>
      injection tail with first
      have closed : bracketLength? b = some (blanks.length + 1) := by
        apply bracketLength?_eq_some.2
        exact ⟨blanks, front, by rw [same, first], all, rfl⟩
      rw [open_] at closed
      cases closed

/-- No end of a comment starts in front of the dashes that end the comment. -/
theorem commentEnd?_append_none {back : Text} (open_ : commentEnd? back = none) (some_ : back ≠ [])
    (rest : Text) : commentEnd? (back ++ '-' :: '-' :: '>' :: rest) = none := by
  cases back with
  | nil => exact absurd rfl some_
  | cons c back =>
    by_cases first : c = '-'
    · subst first
      cases back with
      | nil => rfl
      | cons d back =>
        by_cases second : d = '-'
        · subst second
          have closed : bracketLength? back = none := Option.map_eq_none_iff.1 open_
          have later := bracketLength?_append_none closed (c := '-') (by decide) (by decide)
            ('-' :: '>' :: rest)
          exact Option.map_eq_none_iff.2 later
        · simp [commentEnd?, second]
    · simp [commentEnd?, first]

theorem lexemesFrom_comment {value : Text} (writable : WritableComment value) (start : Mark) (rest : Text) :
    lexemesFrom none start (writtenComment value ++ rest) =
      (lexemesFrom none (start.after (writtenComment value)) rest).map
        (List.cons ⟨start, writtenComment value, .comment value⟩) := by
  have found : Text.untilMatch commentEnd? (value ++ '-' :: '-' :: '>' :: rest) = some (value, 3) := by
    apply Text.untilMatch_append
    · intro back suffix some_
      exact commentEnd?_append_none (writable back suffix) some_ rest
    · rfl
  have written : writtenComment value = '<' :: ('!' :: '-' :: '-' :: value ++ ['-', '-', '>']) := by
    simp [writtenComment]
  have scanned : scanLexeme none '<' (('!' :: '-' :: '-' :: value ++ ['-', '-', '>']) ++ rest) =
      .ok (some ⟨.comment value, value.length + 3 + 3, none⟩) := by
    rw [scanLexeme, scanOutside, if_pos rfl]
    simp only [List.cons_append, List.append_assoc, List.nil_append, scanMarkup, scanDeclaration]
    rw [found]
    rfl
  have length : value.length + 3 + 3 = ('!' :: '-' :: '-' :: value ++ ['-', '-', '>']).length := by
    simp only [List.length_append, List.length_cons, List.length_nil]
  rw [written, List.cons_append, lexemesFrom, scanned]
  dsimp only [bind, Except.bind]
  rw [length, List.take_left, List.drop_left]
  cases lexemesFrom none (start.after ('<' :: ('!' :: '-' :: '-' :: value ++ ['-', '-', '>']))) rest <;> rfl

namespace Yields

variable {rest : Text} {tokens : List Token}

theorem comment {value : Text} (writable : WritableComment value) (more : Yields none rest tokens) :
    Yields none (writtenComment value ++ rest) (.comment value :: tokens) := by
  intro start
  obtain ⟨xs, cut, same⟩ := more (start.after (writtenComment value))
  refine ⟨⟨start, writtenComment value, .comment value⟩ :: xs, ?_, by rw [List.map_cons, same]⟩
  rw [lexemesFrom_comment writable, cut]
  rfl

theorem doctype {value : Text} (writable : WritableDoctype value) (more : Yields none rest tokens) :
    Yields none (writtenDoctype value ++ rest) (.declaration value :: tokens) := by
  have closed : upToBracket? (value ++ '>' :: rest) = some value :=
    upToBracket?_eq_some.2 ⟨rest, rfl, writable.apart⟩
  have keyword : Text.lower ((value ++ '>' :: rest).take 7) = "doctype".toList := by
    rw [List.take_append_of_le_length writable.long, writable.keyword]
  have first (c : Char) (ascii : c.toNat < 0x80) (other : c.toLower ≠ 'd') :
      ∀ tail, value ++ '>' :: rest ≠ c :: tail := by
    intro tail same
    have sigma : c ≠ 'Σ' := by
      rintro rfl
      exact absurd ascii (by decide)
    have dotted : c ≠ 'İ' := by
      rintro rfl
      exact absurd ascii (by decide)
    rw [same, List.take_succ_cons, Text.lower, Text.lowerAfter, if_neg sigma, if_neg dotted,
      lowerChar_ascii ascii] at keyword
    injection keyword with start
    exact other start
  have whole : writtenDoctype value ++ rest = '<' :: (('!' :: value ++ ['>']) ++ rest) := rfl
  rw [whole]
  refine markup ⟨.declaration value, value.length + 2, none⟩ ?_ ?_ more
  · simp only [List.cons_append, List.append_assoc, List.nil_append, scanMarkup]
    unfold scanDeclaration
    split
    · next same => exact absurd same (first '-' (by decide) (by decide) _)
    · next same => exact absurd same (first '[' (by decide) (by decide) _)
    · rw [closed, Option.map_some, if_pos keyword]
  · simp only [List.length_append, List.length_cons, List.length_nil]

/-- Characters up to an opening bracket are one text, with the references in it replaced. -/
theorem run {piece value : Text} (some_ : piece ≠ []) (apart : '<' ∉ piece)
    (decoded : decodeReferences piece = .ok value) (stop : Text.StopsAt (· != '<') rest)
    (more : Yields none rest tokens) : Yields none (piece ++ rest) (.text value :: tokens) := by
  cases piece with
  | nil => exact absurd rfl some_
  | cons c piece =>
    rw [List.mem_cons, not_or] at apart
    have others : ∀ d ∈ piece, (d != '<') = true := by
      intro d member
      rw [bne_iff_ne]
      rintro rfl
      exact apart.2 member
    refine cons ⟨.text value, piece.length, none⟩ ?_ rfl more
    rw [scanLexeme, scanOutside, if_neg (Ne.symm apart.1), Text.takeWhile_append_stop others stop]
    dsimp only
    rw [decoded]
    rfl

theorem text {value : Text} (some_ : value ≠ []) (stop : Text.StopsAt (· != '<') rest)
    (more : Yields none rest tokens) :
    Yields none (escapeText value ++ rest) (.text value :: tokens) := by
  have back := decodeReferences_escapeText value
  refine run ?_ not_mem_escapeText back stop more
  intro nothing
  rw [nothing, decodeReferences] at back
  injection back with same
  exact some_ same.symm

end Yields

end LocatedHtml
