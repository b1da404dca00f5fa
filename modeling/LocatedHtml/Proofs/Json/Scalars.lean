import LocatedHtml.Json.Parser
import LocatedHtml.Json.Written
import Mathlib.Data.List.Basic

/-!
Strings and whole numbers are read back from what is written for them. Of what follows them only a number
cares for anything: it ends where no more digits come and neither a point nor an exponent does.
-/

namespace LocatedHtml.Json

variable {c : Char} {t rest : Text} {n : Nat}

theorem string?_quote (rest : Text) : string? ('"' :: rest) = some ([], rest) := by
  rw [string?, if_pos rfl]

theorem string?_plain (quote : c ≠ '"') (backslash : c ≠ '\\') (visible : 0x20 ≤ c.toNat) (rest : Text) :
    string? (c :: rest) = (string? rest).map fun (value, after) => (c :: value, after) := by
  rw [string?, if_neg quote, if_neg backslash, if_neg (Nat.not_lt.2 visible)]

theorem string?_escape {size : Nat} (escaped : escape? t = some (c, size)) :
    string? ('\\' :: t) = (string? (t.drop size)).map fun (value, after) => (c :: value, after) := by
  rw [string?, if_neg (by decide), if_pos rfl, escaped]

/-- The characters that have an escape of one letter, and the letters. -/
def shortEscapes : List (Char × Char) :=
  [('"', '"'), ('\\', '\\'), ('\x08', 'b'), ('\x0c', 'f'), ('\n', 'n'), ('\r', 'r'), ('\t', 't')]

/-- A character is written as a letter behind a backslash, as its number, or as it is. -/
theorem writtenChar_cases (c : Char) :
    (∃ d, (c, d) ∈ shortEscapes ∧ writtenChar c = ['\\', d]) ∨
    (c.toNat < 0x20 ∧ writtenChar c = '\\' :: 'u' :: hexDigits 4 c.toNat) ∨
    (c ≠ '"' ∧ c ≠ '\\' ∧ 0x20 ≤ c.toNat ∧ writtenChar c = [c]) := by
  by_cases short : c ∈ shortEscapes.map Prod.fst
  · obtain ⟨⟨c, d⟩, member, rfl⟩ := List.mem_map.1 short
    have table : ∀ pair ∈ shortEscapes, writtenChar pair.1 = ['\\', pair.2] := by decide
    exact .inl ⟨d, member, table (c, d) member⟩
  · simp only [shortEscapes, List.map_cons, List.map_nil, List.mem_cons, List.not_mem_nil, or_false, not_or] at short
    right
    by_cases control : c.toNat < 0x20
    · exact .inl ⟨control, by simp [writtenChar, short, control]⟩
    · exact .inr ⟨short.1, short.2.1, by omega, by simp [writtenChar, short, control]⟩

theorem escape?_short {d : Char} (short : (c, d) ∈ shortEscapes) (rest : Text) :
    escape? (d :: rest) = some (c, 1) := by
  simp only [shortEscapes, List.mem_cons, Prod.mk.injEq, List.not_mem_nil, or_false] at short
  rcases short with ⟨rfl, rfl⟩ | ⟨rfl, rfl⟩ | ⟨rfl, rfl⟩ | ⟨rfl, rfl⟩ | ⟨rfl, rfl⟩ | ⟨rfl, rfl⟩ | ⟨rfl, rfl⟩ <;>
    rfl

/-- A control character is read back from its number. -/
theorem escape?_control (control : c.toNat < 0x20) (rest : Text) :
    escape? ('u' :: hexDigits 4 c.toNat ++ rest) = some (c, 5) := by
  have written : ∀ n < 0x20, (hexDigits 4 n).length = 4 ∧ fourDigits? (hexDigits 4 n) = some n := by decide
  obtain ⟨four, value⟩ := written c.toNat control
  have front : fourDigits? (hexDigits 4 c.toNat ++ rest) = some c.toNat := by
    rw [← value, fourDigits?, fourDigits?, List.take_left' four, List.take_of_length_le (Nat.le_of_eq four)]
  have small : ¬ 0xD800 ≤ c.toNat := by omega
  have numbered : numberedEscape? (hexDigits 4 c.toNat ++ rest) = some (c, 4) := by
    rw [numberedEscape?, front]
    simp [small, show ¬ 0xDC00 ≤ c.toNat by omega, Char.ofNat_toNat]
  rw [List.cons_append]
  simp [escape?, numbered]

theorem string?_writtenChar (c : Char) (rest : Text) :
    string? (writtenChar c ++ rest) = (string? rest).map fun (value, after) => (c :: value, after) := by
  rcases writtenChar_cases c with ⟨d, short, written⟩ | ⟨control, written⟩ | ⟨quote, backslash, visible, written⟩
  · rw [written]
    exact string?_escape (escape?_short short rest)
  · rw [written]
    exact string?_escape (escape?_control control rest)
  · rw [written]
    exact string?_plain quote backslash visible rest

theorem string?_written (t rest : Text) : string? (t.flatMap writtenChar ++ '"' :: rest) = some (t, rest) := by
  induction t with
  | nil => exact string?_quote rest
  | cons c t ih => rw [List.flatMap_cons, List.append_assoc, string?_writtenChar, ih, Option.map_some]

theorem isDigit_of_mem (member : c ∈ Nat.toDigits 10 n) : isDigit c = true := by
  have digit := Nat.isDigit_of_mem_toDigits (by decide) (by decide) member
  simpa [isDigit, Char.isDigit, Char.le_def] using digit

/-- A number of more than one digit does not start with a zero. -/
theorem head_toDigits (first : (Nat.toDigits 10 n).head? = some '0') : (Nat.toDigits 10 n).length = 1 := by
  suffices 0 < n → (Nat.toDigits 10 n).head? ≠ some '0' by
    rcases Nat.eq_zero_or_pos n with rfl | pos
    · rfl
    · exact absurd first (this pos)
  clear first
  induction n using Nat.base_induction 10 (by decide) with
  | single m small =>
    intro pos
    rw [Nat.toDigits_of_lt_base small, List.head?_cons]
    revert m
    decide
  | digit m k small pos ih =>
    intro _
    rw [← Nat.toDigits_append_toDigits (by decide) pos small, List.head?_append_of_ne_nil _ Nat.toDigits_ne_nil]
    exact ih pos

theorem digitsValue_toDigits (n : Nat) : digitsValue 10 (Nat.toDigits 10 n) = n := by
  suffices ∀ (digits : Text) (start : Nat), (∀ c ∈ digits, isDigit c = true) →
      digits.foldl (fun n c => n * 10 + (hexValue? c).getD 0) start = Nat.ofDigitChars 10 digits start by
    rw [digitsValue, this _ 0 fun c => isDigit_of_mem, Nat.ofDigitChars_ten_toDigits]
  intro digits
  induction digits with
  | nil => exact fun start _ => Nat.ofDigitChars_nil.symm
  | cons c digits ih =>
    intro start all
    obtain ⟨first, others⟩ := List.forall_mem_cons.1 all
    have value : hexValue? c = some (c.toNat - '0'.toNat) := if_pos first
    rw [List.foldl_cons, ih _ others, value, Nat.ofDigitChars_cons, Nat.mul_comm, Option.getD_some]

/-- What may come behind a value: nothing, or the mark of the array or object that it is in. -/
def EndsValue (rest : Text) : Prop := ∀ c ∈ rest.head?, c = ',' ∨ c = ']' ∨ c = '}'

theorem EndsValue.fraction? (ends : EndsValue rest) : fraction? rest = some ([], rest) := by
  unfold Json.fraction?
  split
  · rcases ends _ rfl with h | h | h <;> cases h
  · rfl

theorem EndsValue.exponent? (ends : EndsValue rest) : exponent? rest = some (none, rest) := by
  unfold Json.exponent?
  split
  · rfl
  · next c rest =>
    have other : ¬ (c = 'e' || c = 'E') = true := by
      rcases ends c rfl with rfl | rfl | rfl <;> decide
    rw [if_neg other]

theorem EndsValue.takeWhile (ends : EndsValue rest) : rest.takeWhile isDigit = [] := by
  cases rest with
  | nil => rfl
  | cons c rest =>
    have other : isDigit c = false := by
      rcases ends c rfl with rfl | rfl | rfl <;> decide
    rw [List.takeWhile_cons, other, if_neg Bool.false_ne_true]

/-- What stands in front of the digits of a number. -/
def sign (negative : Bool) : Text := if negative then ['-'] else []

/-- A whole number is written as its digits behind its sign. -/
theorem toString_eq (n : Int) : (toString n).toList = sign (decide (n < 0)) ++ Nat.toDigits 10 n.natAbs := by
  rw [Int.toString_eq_repr, Int.repr_eq_if]
  by_cases negative : n < 0
  · have size : (-n).toNat = n.natAbs := by omega
    rw [if_neg (Int.not_le.2 negative), decide_eq_true negative, String.toList_append, Nat.toList_repr, size]
    rfl
  · have size : n.toNat = n.natAbs := by omega
    rw [if_pos (Int.not_lt.1 negative), decide_eq_false negative, Nat.toList_repr, size]
    rfl

/-- Digits with no needless zero are read as the number that they write. -/
theorem number?_digits {digits : Text} (all : ∀ c ∈ digits, isDigit c = true) (some_ : digits ≠ [])
    (usual : digits.head? = some '0' → digits.length = 1) (negative : Bool) (ends : EndsValue rest) :
    number? (sign negative ++ digits ++ rest) = (numberOf? true negative (digitsValue 10 digits) 0).map
      fun value => (value, rest) := by
  have whole : (digits ++ rest).takeWhile isDigit = digits := by
    rw [List.takeWhile_append_of_pos all, ends.takeWhile, List.append_nil]
  have signed : ((sign negative ++ digits ++ rest).head? == some '-') = negative := by
    cases negative with
    | true => rfl
    | false =>
      obtain ⟨c, more, rfl⟩ := List.exists_cons_of_ne_nil some_
      have digit := all c List.mem_cons_self
      have other : c ≠ '-' := by
        rintro rfl
        cases digit
      simpa [sign] using other
  have unsigned : (if negative = true then (sign negative ++ digits ++ rest).drop 1
      else sign negative ++ digits ++ rest) = digits ++ rest := by
    cases negative <;> rfl
  have taken : ¬ (digits.isEmpty || (digits.head? == some '0' && digits.length != 1)) = true := by
    simpa [some_] using usual
  rw [number?]
  simp only [signed, unsigned, whole]
  rw [if_neg taken, List.drop_left, ends.fraction?]
  simp only [Option.bind_eq_bind, Option.bind_some, ends.exponent?]
  rw [List.append_nil, Option.map_eq_bind]
  rfl

theorem number?_written {n : Int} (fits : fitsWord n = true) (ends : EndsValue rest) :
    number? ((toString n).toList ++ rest) = some (.number n, rest) := by
  have read := number?_digits (fun c => isDigit_of_mem (n := n.natAbs)) Nat.toDigits_ne_nil head_toDigits
    (decide (n < 0)) ends
  have value : (if n < 0 then -(n.natAbs : Int) else n.natAbs) = n := by omega
  rw [toString_eq, read, numberOf?]
  simp only [digitsValue_toDigits, decide_eq_true_eq, value, fits, Bool.and_self, if_true, Option.map_some]

end LocatedHtml.Json
