import LocatedHtml.Markup.AttributeExtent
import LocatedHtml.Proofs.Lexing.Basic

/-!
Values of attributes: how far the search of a start tag that is read goes over an equals sign and the value
behind it, and how far the search for attribute pieces does.
-/

namespace LocatedHtml

variable {t before between value : Text} {c quote : Char}

theorem isQuote_ne (quotes : isQuote c = true) : isBlank c = false ∧ c ≠ '=' := by
  simp only [isQuote, Bool.or_eq_true, decide_eq_true_eq] at quotes
  rcases quotes with rfl | rfl <;> decide

/-- How a search goes over an equals sign and the blanks around it. -/
theorem blankCount_equals (front : ∀ c ∈ before, isBlank c = true)
    (inner : ∀ c ∈ between, isBlank c = true) (dark : Text.StopsAt isBlank t) :
    blankCount (before ++ '=' :: (between ++ t)) = before.length ∧
      blankCount (between ++ t) = between.length :=
  ⟨Text.blankCount_append_stop front (Text.stopsAt_cons (by decide) _), Text.blankCount_append_stop inner dark⟩

theorem attributeValue?_equals (front : ∀ c ∈ before, isBlank c = true)
    (inner : ∀ c ∈ between, isBlank c = true) (dark : Text.StopsAt isBlank t)
    (single : Text.StopsAt (· == '=') (between ++ t)) :
    attributeValue? (before ++ '=' :: (between ++ t)) =
      (valueAfterEquals? 1 between.length t).map fun (value, n) => (value, before.length + n) := by
  obtain ⟨outer, blanks⟩ := blankCount_equals front inner dark
  have sign : ∀ c ∈ ['='], (c == '=') = true := by simp
  have one : ('=' :: (between ++ t)).takeWhile (· == '=') = ['='] := Text.takeWhile_append_stop sign single
  have behind : (before ++ '=' :: (between ++ t)).drop (before.length + 1) = between ++ t := by
    rw [← List.drop_drop, List.drop_left, List.drop_succ_cons, List.drop_zero]
  unfold attributeValue?
  simp only [outer, List.drop_left, one, List.length_singleton, Nat.one_ne_zero, if_false, behind, blanks]

theorem pieceValueLength_equals (front : ∀ c ∈ before, isBlank c = true)
    (inner : ∀ c ∈ between, isBlank c = true) (dark : Text.StopsAt isBlank (c :: t)) :
    pieceValueLength (before ++ '=' :: (between ++ c :: t)) =
      if isQuote c && t.contains c then before.length + between.length + (t.takeWhile (· != c)).length + 3
      else if ((c :: t).takeWhile isBareValueChar).length = 0 then 0
      else before.length + between.length + ((c :: t).takeWhile isBareValueChar).length + 1 := by
  obtain ⟨outer, blanks⟩ := blankCount_equals front inner dark
  unfold pieceValueLength
  simp only [outer, List.drop_left, blanks]

theorem takeWhile_quoted (apart : quote ∉ value) (rest : Text) :
    (value ++ quote :: rest).takeWhile (· != quote) = value := by
  refine Text.takeWhile_append_stop (fun c member => ?_) (Text.stopsAt_cons (by simp) rest)
  rw [bne_iff_ne]
  rintro rfl
  exact apart member

/-- Blanks with no equals sign directly behind them start with none. -/
theorem stopsAt_equals (inner : ∀ c ∈ between, isBlank c = true)
    (single : Text.StopsAt (· == '=') t) : Text.StopsAt (· == '=') (between ++ t) := by
  cases between with
  | nil => exact single
  | cons c between =>
    refine Text.stopsAt_cons (p := (· == '=')) (beq_eq_false_iff_ne.2 ?_) _
    rintro rfl
    exact absurd (inner '=' List.mem_cons_self) (by decide)

/-- Quotes that are closed are in front of the value and behind it. -/
theorem attributeValue?_quote (front : ∀ c ∈ before, isBlank c = true) (inner : ∀ c ∈ between, isBlank c = true)
    (quotes : isQuote quote = true) (apart : quote ∉ value) (rest : Text) :
    attributeValue? (before ++ '=' :: (between ++ quote :: (value ++ quote :: rest))) =
      some (value, before.length + (1 + between.length + value.length + 2)) := by
  obtain ⟨dark, other⟩ := isQuote_ne quotes
  have single : Text.StopsAt (· == '=') (quote :: (value ++ quote :: rest)) :=
    Text.stopsAt_cons (p := (· == '=')) (beq_eq_false_iff_ne.2 other) _
  have closed : (value ++ quote :: rest).contains quote = true := by simp
  rw [attributeValue?_equals front inner (Text.stopsAt_cons dark _) (stopsAt_equals inner single),
    valueAfterEquals?, if_pos quotes, if_pos closed, takeWhile_quoted apart]
  rfl

theorem pieceValueLength_quote (front : ∀ c ∈ before, isBlank c = true) (inner : ∀ c ∈ between, isBlank c = true)
    (quotes : isQuote quote = true) (apart : quote ∉ value) (rest : Text) :
    pieceValueLength (before ++ '=' :: (between ++ quote :: (value ++ quote :: rest))) =
      before.length + between.length + value.length + 3 := by
  obtain ⟨dark, _⟩ := isQuote_ne quotes
  have closed : (value ++ quote :: rest).contains quote = true := by simp
  rw [pieceValueLength_equals front inner (Text.stopsAt_cons dark _), quotes, closed, takeWhile_quoted apart]
  rfl

end LocatedHtml
