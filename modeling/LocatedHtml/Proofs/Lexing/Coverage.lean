import LocatedHtml.Proofs.Lexing.Escapes
import LocatedHtml.Proofs.Lexing.Pieces

/-!
What the lexemes of a source take of it: all but the content of a raw text element that is not closed.
Characters that neither markup nor a reference stands in are text as they are.
-/

namespace LocatedHtml

variable {t : Text} {start : Mark} {x : Lexeme} {xs texts : List Lexeme}

/-- What the lexemes take of their source. -/
def taken (xs : List Lexeme) : Text := xs.flatMap (·.raw)

@[simp] theorem taken_append (xs ys : List Lexeme) : taken (xs ++ ys) = taken xs ++ taken ys :=
  List.flatMap_append

theorem Chained.of_prefix (chained : Chained start t xs) {front : List Lexeme} (part : front <+: xs) :
    Chained start t front := by
  induction chained generalizing front with
  | nil =>
    rw [List.prefix_nil.1 part]
    exact .nil
  | cons nonempty reads _ ih =>
    rcases List.prefix_cons_iff.1 part with rfl | ⟨front, rfl, inner⟩
    · exact .nil
    · exact .cons nonempty reads (ih inner)

theorem Chained.take (chained : Chained start t xs) {front : List Lexeme} (part : front <+: xs) :
    ∃ after, t = taken front ++ after := by
  induction chained generalizing front with
  | @nil start t =>
    obtain rfl := List.prefix_nil.1 part
    exact ⟨t, rfl⟩
  | @cons x rest xs _ _ _ ih =>
    rcases List.prefix_cons_iff.1 part with rfl | ⟨front, rfl, inner⟩
    · exact ⟨x.raw ++ rest, rfl⟩
    · obtain ⟨after, rfl⟩ := ih inner
      exact ⟨after, by rw [taken, taken, List.flatMap_cons, List.append_assoc]⟩

theorem Chained.length_le (chained : Chained start t xs) : (taken xs).length ≤ t.length := by
  obtain ⟨after, whole⟩ := chained.take List.prefix_rfl
  rw [whole, List.length_append]
  exact Nat.le_add_right _ _

/-- Lexemes that follow one another stand in the source one behind the other. -/
theorem Chained.infix (chained : Chained start t xs) (part : x :: texts <:+: xs) :
    ∃ before after, t = before ++ x.raw ++ taken texts ++ after ∧ x.start = start.after before := by
  induction chained with
  | nil => exact absurd (List.infix_nil.1 part) (List.cons_ne_nil x texts)
  | @cons y rest xs nonempty reads more ih =>
    rcases List.infix_cons_iff.1 part with front | part
    · obtain ⟨after, whole⟩ := (Chained.cons nonempty reads more).take front
      obtain ⟨rfl, _⟩ := List.cons_prefix_cons.1 front
      refine ⟨[], after, ?_, rfl⟩
      rw [whole, taken, taken, List.flatMap_cons, List.nil_append]
    · obtain ⟨before, after, rfl, begins⟩ := ih part
      refine ⟨y.raw ++ before, after, by simp only [List.append_assoc], ?_⟩
      rw [begins, Lexeme.stop, Mark.after_append]

theorem Mark.offset_after_origin (t : Text) : (Mark.origin.after t).offset = t.length :=
  Nat.zero_add _

/-- The lexeme comes next behind others. -/
structure Lexeme.Behind (xs : List Lexeme) (x : Lexeme) : Prop where
  start : x.start = Mark.origin.after (taken xs)
  nonempty : x.raw ≠ []

theorem Lexeme.Behind.length_lt (behind : x.Behind xs) :
    (taken xs).length < (taken (xs ++ [x])).length := by
  have some_ := List.length_pos_of_ne_nil behind.nonempty
  simp [taken, some_]

theorem Lexeme.Behind.offset (behind : x.Behind xs) : x.start.offset = (taken xs).length := by
  rw [behind.start, Mark.offset_after_origin]

theorem Lexeme.Behind.stop_offset (behind : x.Behind xs) :
    x.stop.offset = (taken (xs ++ [x])).length := by
  rw [Lexeme.stop, Mark.after, behind.offset]
  simp [taken]

theorem Chained.at_split {front back : List Lexeme} (chained : Chained start t (front ++ x :: back)) :
    x.start = start.after (taken front) ∧ x.raw ≠ [] := by
  induction front generalizing start t with
  | nil =>
    cases chained with
    | cons nonempty _ _ => exact ⟨rfl, nonempty⟩
  | cons y front ih =>
    cases chained with
    | cons _ _ more =>
      obtain ⟨starts, nonempty⟩ := ih more
      refine ⟨?_, nonempty⟩
      rw [starts, Lexeme.stop, ← Mark.after_append]
      rfl

theorem Chained.behind {front back : List Lexeme} (chained : Chained .origin t xs)
    (whole : xs = front ++ x :: back) : x.Behind front := by
  rw [whole] at chained
  exact ⟨chained.at_split.1, chained.at_split.2⟩

/-- Without an opening bracket a lexeme is text, and inside of a raw text element its end comes next. -/
theorem scanInside_unmarked {name : String} {c : Char} {rest : Text} {found : Found}
    (scanned : scanInside name (c :: rest) = some found) (unmarked : '<' ∉ c :: rest.take found.extra) :
    found.token = .text (c :: rest.take found.extra) ∧
      ∃ n, rawTextEnd? name.toList (rest.drop found.extra) = some n ∧ found.inside = some name := by
  obtain ⟨⟨before, n⟩, matched, same⟩ := Option.map_eq_some_iff.1 scanned
  obtain ⟨after, whole, ended, _⟩ := Text.untilMatch_eq_some matched
  cases before with
  | nil =>
    obtain ⟨front, written, back, behind, tag, _⟩ := rawTextEnd?_eq_some ended
    rw [← List.nil_append after, ← whole] at tag
    injection tag with bracket
    rw [bracket] at unmarked
    exact absurd List.mem_cons_self unmarked
  | cons d before =>
    injection whole with head tail
    subst head tail
    simp only [List.isEmpty_cons, Bool.not_false, if_true] at same
    subst same
    simp [ended]

theorem scanOutside_unmarked {c : Char} {rest : Text} {found : Found}
    (scanned : scanOutside c rest = .ok found) (unmarked : '<' ∉ c :: rest.take found.extra) :
    ('&' ∉ c :: rest.take found.extra → found.token = .text (c :: rest.take found.extra)) ∧
      found.inside = none := by
  rcases scanOutside_cases scanned with ⟨rfl, _⟩ | ⟨value, length, decoded, rfl⟩
  · exact absurd List.mem_cons_self unmarked
  · refine ⟨fun plain => ?_, rfl⟩
    rw [decodeReferences_plain plain] at decoded
    injection decoded with same
    rw [← same]

theorem scanLexeme_verbatim {inside : Option String} {c : Char} {rest : Text} {found : Found}
    (scanned : scanLexeme inside c rest = .ok (some found)) (unmarked : '<' ∉ c :: rest.take found.extra)
    (plain : '&' ∉ c :: rest.take found.extra) : found.token = .text (c :: rest.take found.extra) := by
  cases inside with
  | none => exact (scanOutside_unmarked (scanLexeme_outside scanned) unmarked).1 plain
  | some name =>
    injection scanned with scanned
    exact (scanInside_unmarked scanned unmarked).1

theorem lexemesFrom_verbatim {inside : Option String} (cut : lexemesFrom inside start t = .ok xs) :
    ∀ x ∈ xs, '<' ∉ x.raw → '&' ∉ x.raw → x.token = .text x.raw :=
  lexemesFrom_forall (fun _ _ _ _ _ scanned => scanLexeme_verbatim scanned) cut

theorem lexemesFrom_covers {inside : Option String} (cut : lexemesFrom inside start t = .ok xs) :
    ∃ rest, t = taken xs ++ rest ∧ (rest = [] ∨
      (xs = [] ∧ ∃ name ∈ inside, rawTextEnd? name.toList t = none) ∨
      ∃ x, xs.getLast? = some x ∧ '<' ∈ x.raw) := by
  induction inside, start, t using lexemesFrom.induct generalizing xs with
  | case1 =>
    rw [lexemesFrom] at cut
    cases cut
    exact ⟨[], rfl, .inl rfl⟩
  | case2 inside start c rest ih =>
    rcases lexemesFrom_cases cut with ⟨ends, rfl⟩ | ⟨found, more, scanned, behind, rfl⟩
    · refine ⟨c :: rest, rfl, .inr (.inl ⟨rfl, ?_⟩)⟩
      cases inside with
      | none =>
        rw [scanLexeme] at ends
        cases outside : scanOutside c rest <;> rw [outside] at ends <;> cases ends
      | some name =>
        refine ⟨name, rfl, ?_⟩
        injection ends with ends
        rw [scanInside, Option.map_eq_none_iff, Text.untilMatch] at ends
        split at ends
        · cases ends
        · assumption
    · obtain ⟨left, whole, last⟩ := ih found behind
      refine ⟨left, ?_, ?_⟩
      · rw [taken, List.flatMap_cons, List.append_assoc]
        change c :: rest = (c :: rest.take found.extra) ++ (taken more ++ left)
        rw [← whole, List.cons_append, List.take_append_drop]
      · rcases last with done | ⟨rfl, name, enters, open_⟩ | ⟨x, last, bracket⟩
        · exact .inl done
        · -- A lexeme without a bracket would have the end of the element behind it.
          refine .inr (.inr ⟨_, rfl, ?_⟩)
          by_contra unmarked
          cases inside with
          | none =>
            rw [(scanOutside_unmarked (scanLexeme_outside scanned) unmarked).2] at enters
            cases enters
          | some outer =>
            injection scanned with scanned
            obtain ⟨_, n, ended, same⟩ := scanInside_unmarked scanned unmarked
            rw [same] at enters
            cases enters
            rw [open_] at ended
            cases ended
        · exact .inr (.inr ⟨x, by rw [List.getLast?_cons, last]; rfl, bracket⟩)

/-- The first of the lexemes is found at the front of the text, and the others are read on from its end. -/
theorem lexemesFrom_first {inside : Option String} (cut : lexemesFrom inside start t = .ok (x :: xs)) :
    ∃ c rest found, t = c :: rest ∧ scanLexeme inside c rest = .ok (some found) ∧
      x = ⟨start, c :: rest.take found.extra, found.token⟩ ∧
      lexemesFrom found.inside x.stop (rest.drop found.extra) = .ok xs := by
  cases t with
  | nil =>
    rw [lexemesFrom] at cut
    cases cut
  | cons c rest =>
    rcases lexemesFrom_cases cut with ⟨_, none⟩ | ⟨found, more, scanned, behind, same⟩
    · cases none
    · cases same
      exact ⟨c, rest, found, rfl, scanned, rfl, behind⟩

/-- Any lexeme is found at the front of what the ones before it leave. -/
theorem lexemesFrom_split {inside : Option String} {front back : List Lexeme}
    (cut : lexemesFrom inside start t = .ok (front ++ x :: back)) :
    ∃ inner c rest found, t = taken front ++ c :: rest ∧ scanLexeme inner c rest = .ok (some found) ∧
      x = ⟨start.after (taken front), c :: rest.take found.extra, found.token⟩ ∧
      lexemesFrom found.inside x.stop (rest.drop found.extra) = .ok back := by
  induction front generalizing inside start t with
  | nil =>
    obtain ⟨c, rest, found, whole, scanned, placed, behind⟩ := lexemesFrom_first cut
    exact ⟨inside, c, rest, found, whole, scanned, placed, behind⟩
  | cons y front ih =>
    obtain ⟨c, rest, first, rfl, _, rfl, behind⟩ := lexemesFrom_first cut
    obtain ⟨inner, d, others, found, whole, scanned, placed, after⟩ := ih behind
    refine ⟨inner, d, others, found, ?_, scanned, ?_, after⟩
    · rw [taken, List.flatMap_cons, List.append_assoc]
      change _ = (c :: rest.take first.extra) ++ (taken front ++ _)
      rw [← whole, List.cons_append, List.take_append_drop]
    · rw [placed, Lexeme.stop, ← Mark.after_append]
      rfl

/-- The source of some lexemes is what they take, but for a rest behind the last opening bracket. -/
theorem lexemes_covers {source : Text} (cut : lexemes source = .ok xs) :
    ∃ rest, source = taken xs ++ rest ∧ (rest = [] ∨ ∃ x, xs.getLast? = some x ∧ '<' ∈ x.raw) := by
  obtain ⟨rest, whole, done | ⟨_, name, outside, _⟩ | last⟩ := lexemesFrom_covers cut
  · exact ⟨rest, whole, .inl done⟩
  · cases outside
  · exact ⟨rest, whole, .inr last⟩

end LocatedHtml
