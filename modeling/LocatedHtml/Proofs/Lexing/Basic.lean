import LocatedHtml.Markup.Lexeme
import Mathlib.Data.List.TakeWhile

/-!
How texts come apart: at the first character of another kind, at a closing bracket, at the first match
of a search.
-/

namespace LocatedHtml

namespace Text

variable {p : Char → Bool} {t front rest : Text}

/-- No character comes first that goes on with what is read. -/
def StopsAt (p : Char → Bool) (t : Text) : Prop := ∀ c ∈ t.head?, p c = false

theorem stopsAt_nil : StopsAt p [] := by
  rintro c ⟨⟩

theorem stopsAt_cons {c : Char} (stop : p c = false) (rest : Text) : StopsAt p (c :: rest) := by
  rintro d ⟨⟩
  exact stop

theorem StopsAt.append (stop : StopsAt p t) (some_ : t ≠ []) (after : Text) : StopsAt p (t ++ after) := by
  cases t with
  | nil => exact absurd rfl some_
  | cons c t => exact stopsAt_cons (stop c rfl) _

theorem exists_takeWhile (p : Char → Bool) (t : Text) :
    ∃ rest, t = t.takeWhile p ++ rest ∧ (∀ c ∈ t.takeWhile p, p c = true) ∧ StopsAt p rest := by
  refine ⟨t.dropWhile p, List.takeWhile_append_dropWhile.symm, fun c => List.mem_takeWhile_imp, ?_⟩
  intro c first
  have stop := List.head?_dropWhile_not p t
  rw [Option.mem_def.1 first] at stop
  simpa using stop

theorem takeWhile_append_stop (all : ∀ c ∈ front, p c = true) (stop : StopsAt p rest) :
    (front ++ rest).takeWhile p = front := by
  rw [List.takeWhile_append_of_pos all]
  cases rest with
  | nil => rw [List.takeWhile_nil, List.append_nil]
  | cons c rest =>
    rw [List.takeWhile_cons_of_neg, List.append_nil]
    rw [stop c rfl]
    exact Bool.false_ne_true

theorem blankCount_append_stop (all : ∀ c ∈ front, isBlank c = true) (stop : StopsAt isBlank rest) :
    blankCount (front ++ rest) = front.length := by
  rw [blankCount, takeWhile_append_stop all stop]

/-- Text behind its blanks. -/
theorem exists_blanks (t : Text) :
    ∃ blanks rest, t = blanks ++ rest ∧ (∀ c ∈ blanks, isBlank c = true) ∧ StopsAt isBlank rest ∧
      blankCount t = blanks.length ∧ t.drop (blankCount t) = rest := by
  obtain ⟨rest, whole, all, stop⟩ := exists_takeWhile isBlank t
  refine ⟨t.takeWhile isBlank, rest, whole, all, stop, rfl, ?_⟩
  conv => lhs; rw [whole, blankCount, takeWhile_append_stop all stop]
  exact List.drop_left

theorem untilMatch_eq_some {ends : Text → Option Nat} {before : Text} {n : Nat}
    (found : untilMatch ends t = some (before, n)) :
    ∃ after, t = before ++ after ∧ ends after = some n ∧
      ∀ back, back <:+ before → back ≠ [] → ends (back ++ after) = none := by
  have nothing (after : Text) :
      ∀ back, back <:+ [] → back ≠ [] → ends (back ++ after) = none :=
    fun back suffix some_ => absurd (List.suffix_nil.1 suffix) some_
  induction t generalizing before with
  | nil =>
    obtain ⟨m, matched, same⟩ := Option.map_eq_some_iff.1 found
    cases same
    exact ⟨[], rfl, matched, nothing []⟩
  | cons c rest ih =>
    unfold untilMatch at found
    split at found
    · next m matched =>
      cases found
      exact ⟨c :: rest, rfl, matched, nothing _⟩
    · next unmatched =>
      obtain ⟨⟨inner, m⟩, later, same⟩ := Option.map_eq_some_iff.1 found
      cases same
      obtain ⟨after, whole, matched, first⟩ := ih later
      refine ⟨after, by rw [whole, List.cons_append], matched, ?_⟩
      intro back suffix some_
      rcases List.suffix_cons_iff.1 suffix with rfl | inside
      · rw [List.cons_append, ← whole, unmatched]
      · exact first back inside some_

end Text

variable {t : Text}

theorem upToBracket?_eq_some {value : Text} :
    upToBracket? t = some value ↔ ∃ rest, t = value ++ '>' :: rest ∧ '>' ∉ value := by
  constructor
  · intro found
    unfold upToBracket? at found
    split at found
    · next has =>
      cases found
      obtain ⟨rest, whole, all, stop⟩ := Text.exists_takeWhile (· != '>') t
      have apart : '>' ∉ t.takeWhile (· != '>') := fun member => absurd (all _ member) (by decide)
      cases rest with
      | nil =>
        rw [List.append_nil] at whole
        rw [List.contains_iff_mem, whole] at has
        exact absurd has apart
      | cons c rest =>
        have bracket : c = '>' := by simpa using stop c rfl
        rw [bracket] at whole
        exact ⟨rest, whole, apart⟩
    · cases found
  · rintro ⟨rest, rfl, apart⟩
    have all : ∀ c ∈ value, (c != '>') = true := by
      intro c member
      rw [bne_iff_ne]
      rintro rfl
      exact apart member
    have has : (value ++ '>' :: rest).contains '>' = true := by simp
    rw [upToBracket?, if_pos has, Text.takeWhile_append_stop all (Text.stopsAt_cons (by decide) rest)]

/-- A text up to its first bracket, and the bracket. -/
theorem take_bracket (value rest : Text) :
    (value ++ '>' :: rest).take (value.length + 1) = value ++ ['>'] := by
  rw [List.take_length_add_append]
  rfl

theorem bracketLength?_eq_some {n : Nat} :
    bracketLength? t = some n ↔ ∃ blanks rest, t = blanks ++ '>' :: rest ∧
      (∀ c ∈ blanks, isBlank c = true) ∧ n = blanks.length + 1 := by
  constructor
  · intro found
    obtain ⟨blanks, behind, whole, all, _, count, drop⟩ := Text.exists_blanks t
    unfold bracketLength? at found
    rw [drop, count] at found
    split at found
    · cases found
      exact ⟨blanks, _, whole, all, rfl⟩
    · cases found
  · rintro ⟨blanks, rest, rfl, all, rfl⟩
    have bracket : isBlank '>' = false := by decide
    have count := Text.blankCount_append_stop all (Text.stopsAt_cons bracket rest)
    rw [bracketLength?, count, List.drop_left]
    rfl

theorem commentEnd?_eq_some {n : Nat} :
    commentEnd? t = some n ↔ ∃ blanks rest, t = '-' :: '-' :: (blanks ++ '>' :: rest) ∧
      (∀ c ∈ blanks, isBlank c = true) ∧ n = blanks.length + 3 := by
  constructor
  · intro ended
    unfold commentEnd? at ended
    split at ended
    · obtain ⟨_, closed, rfl⟩ := Option.map_eq_some_iff.1 ended
      obtain ⟨blanks, rest, rfl, all, rfl⟩ := bracketLength?_eq_some.1 closed
      exact ⟨blanks, rest, rfl, all, rfl⟩
    · cases ended
  · rintro ⟨blanks, rest, rfl, all, rfl⟩
    exact Option.map_eq_some_iff.2 ⟨_, bracketLength?_eq_some.2 ⟨blanks, rest, rfl, all, rfl⟩, rfl⟩

end LocatedHtml
