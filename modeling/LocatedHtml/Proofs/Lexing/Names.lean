import LocatedHtml.Proofs.Lexing.Basic
import LocatedHtml.Proofs.Text.LetterCase

/-!
Names as lexemes have them: in lower case, and made of the characters that names are read with, so that
they are read again where they are written.
-/

namespace LocatedHtml

/-- A name that is read as it is when a tag has it. -/
structure IsTagName (name : String) : Prop where
  letter : name.toList.head?.any isLetter = true
  all : ∀ c ∈ name.toList, isTagNameChar c = true
  lower : Text.lowerName name.toList = name

/-- A character that an attribute name can start with. -/
def startsAttributeName (c : Char) : Bool := !(isBlank c || c = '/' || c = '>')

/-- A name that is read as it is when an attribute has it. -/
structure IsAttributeName (name : String) : Prop where
  first : name.toList.head?.any startsAttributeName = true
  rest : ∀ c ∈ name.toList.tail, isAttributeNameChar c = true
  lower : Text.lowerName name.toList = name

theorem isTagNameChar_of_isLetter {c : Char} (letter : isLetter c = true) :
    isTagNameChar c = true := by
  by_contra stop
  simp only [isTagNameChar, Bool.not_eq_true, Bool.not_eq_false', Bool.or_eq_true,
    decide_eq_true_eq] at stop
  rcases stop with (((((((rfl | rfl) | rfl) | rfl) | rfl) | rfl) | rfl) | rfl) <;>
    exact absurd letter (by decide)

theorem ascii_of_isLetter {c : Char} (letter : isLetter c = true) : c.toNat < 0x80 := by
  simp only [isLetter, Bool.or_eq_true, Bool.and_eq_true, decide_eq_true_eq] at letter
  rcases letter with ⟨_, high⟩ | ⟨_, high⟩
  · exact Nat.lt_of_le_of_lt high (by decide)
  · exact Nat.lt_of_le_of_lt high (by decide)

theorem isLetter_toLower {c : Char} (letter : isLetter c = true) : isLetter c.toLower = true := by
  have all : ∀ n < 0x80, isLetter (Char.ofNat n) = true → isLetter (Char.ofNat n).toLower = true := by
    decide +kernel
  have here := all c.toNat (ascii_of_isLetter letter)
  rw [Char.ofNat_toNat] at here
  exact here letter

namespace IsLowerForm

variable {c : Char}

theorem tagNameChar (lower : IsLowerForm c) : isTagNameChar c = true := by
  by_contra stop
  have letter := lower.letter
  simp only [isTagNameChar, Bool.not_eq_true, Bool.not_eq_false', Bool.or_eq_true,
    decide_eq_true_eq] at stop
  rcases stop with (((((((rfl | rfl) | rfl) | rfl) | rfl) | rfl) | rfl) | rfl) <;>
    exact absurd letter (by decide)

theorem attributeNameChar (lower : IsLowerForm c) : isAttributeNameChar c = true := by
  by_contra stop
  have letter := lower.letter
  simp only [isAttributeNameChar, lower.dark, Bool.not_eq_true, Bool.not_eq_false', Bool.or_eq_true,
    Bool.false_or, decide_eq_true_eq] at stop
  rcases stop with (rfl | rfl) | rfl <;> exact absurd letter (by decide)

theorem startsName (lower : IsLowerForm c) : startsAttributeName c = true := by
  by_contra stop
  have letter := lower.letter
  simp only [startsAttributeName, lower.dark, Bool.not_eq_true, Bool.not_eq_false', Bool.or_eq_true,
    Bool.false_or, decide_eq_true_eq] at stop
  rcases stop with rfl | rfl <;> exact absurd letter (by decide)

end IsLowerForm

/-- A tag name that is read becomes one that is read again. -/
theorem isTagName_lowerName {written : Text} (letter : written.head?.any isLetter = true)
    (all : ∀ c ∈ written, isTagNameChar c = true) : IsTagName (Text.lowerName written) := by
  cases written with
  | nil => cases letter
  | cons c rest =>
    have first : isLetter c = true := letter
    refine ⟨?_, ?_, Text.lowerName_toList _⟩
    · have sigma : c ≠ 'Σ' := by
        rintro rfl
        exact absurd first (by decide)
      have dotted : c ≠ 'İ' := by
        rintro rfl
        exact absurd first (by decide)
      rw [Text.lowerName, String.toList_ofList, Text.lower, Text.lowerAfter, if_neg sigma,
        if_neg dotted, lowerChar_ascii (ascii_of_isLetter first)]
      exact isLetter_toLower first
    · intro d member
      rw [Text.lowerName, String.toList_ofList] at member
      rcases Text.mem_lowerAfter member with ⟨inside, _⟩ | brought
      · exact all d inside
      · exact brought.tagNameChar

/-- An attribute name that is read becomes one that is read again. -/
theorem isAttributeName_lowerName {c : Char} {rest : Text} (first : startsAttributeName c = true)
    (all : ∀ d ∈ rest, isAttributeNameChar d = true) :
    IsAttributeName (Text.lowerName (c :: rest)) := by
  obtain ⟨d, tail, lower, start, later⟩ := Text.lower_cons c rest
  refine ⟨?_, ?_, Text.lowerName_toList _⟩
  · rw [Text.lowerName, String.toList_ofList, lower]
    rcases start with rfl | brought
    · exact first
    · exact brought.startsName
  · intro e member
    rw [Text.lowerName, String.toList_ofList, lower] at member
    rcases later e member with inside | brought
    · exact all e inside
    · exact brought.attributeNameChar

end LocatedHtml
