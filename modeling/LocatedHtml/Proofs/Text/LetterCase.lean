import LocatedHtml.Text.Blank
import LocatedHtml.Text.LetterCase

/-!
Lower case does nothing more to what is in lower case, and brings no character that means something in
markup. The table is looked at run by run: the lower-case forms of a run are themselves evenly spaced.
-/

namespace LocatedHtml

namespace CaseRun

variable {run other : CaseRun} {n : Nat}

/-- The lower-case forms of the run stay out of the other run: they come before it or after it, or they
have the other parity. -/
def avoids (run other : CaseRun) : Bool :=
  let low := (run.first + run.shift).toNat
  let high := (run.last + run.shift).toNat
  Nat.blt high other.first || Nat.blt other.last low ||
    ((Nat.beq run.step 2 || Nat.beq low high) && Nat.beq other.step 2 &&
      !Nat.beq (low % 2) (other.first % 2))

/-- The lower-case forms of the run are letters: ASCII ones, or none of ASCII. -/
def formsLetters (run : CaseRun) : Bool :=
  let low := (run.first + run.shift).toNat
  let high := (run.last + run.shift).toNat
  Nat.ble 0x61 low && Nat.ble high 0x10FFFF && (Nat.ble high 0x7A || Nat.ble 0x80 low)

theorem has_iff : run.has n = true ↔
    run.first ≤ n ∧ n ≤ run.last ∧ (n - run.first) % run.step = 0 := by
  simp only [has, Bool.and_eq_true, decide_eq_true_eq, beq_iff_eq, and_assoc]

theorem has_of_avoids (avoids : run.avoids other = true) (letters : run.formsLetters = true)
    (has : run.has n = true) : other.has (n + run.shift).toNat = false := by
  obtain ⟨low, high, even⟩ := has_iff.1 has
  rw [← Bool.not_eq_true, has_iff]
  rintro ⟨first, last, spaced⟩
  simp only [CaseRun.avoids, Bool.or_eq_true, Bool.and_eq_true, Bool.not_eq_true', Nat.blt_eq,
    Nat.beq_eq, ← Bool.not_eq_true] at avoids
  simp only [formsLetters, Bool.and_eq_true, Nat.ble_eq] at letters
  rcases avoids with (before | after) | ⟨⟨narrow, step⟩, parity⟩
  · omega
  · omega
  · rw [step] at spaced
    rcases narrow with same | single
    · rw [same] at even
      omega
    · omega

end CaseRun

/-- Numbers that no lower-case form has: those of blanks and of the dotted capital, and what is no
character. -/
def barredRuns : List CaseRun := [
  ⟨0x85, 0x85, 1, 0⟩, ⟨0xA0, 0xA0, 1, 0⟩, ⟨0x1680, 0x1680, 1, 0⟩, ⟨0x2000, 0x200A, 1, 0⟩,
  ⟨0x2028, 0x2029, 1, 0⟩, ⟨0x202F, 0x202F, 1, 0⟩, ⟨0x205F, 0x205F, 1, 0⟩, ⟨0x3000, 0x3000, 1, 0⟩,
  ⟨0x130, 0x130, 1, 0⟩, ⟨0xD800, 0xDFFF, 1, 0⟩]

theorem lowerCaseRuns_letters : lowerCaseRuns.all CaseRun.formsLetters = true := by decide +kernel

theorem lowerCaseRuns_avoid :
    lowerCaseRuns.all (fun run => (lowerCaseRuns ++ barredRuns).all run.avoids) = true := by
  decide +kernel

/-- A character that lower case brings: a letter, and in lower case. -/
structure IsLowerForm (c : Char) : Prop where
  settled : lowerChar c = c
  sigma : c ≠ 'Σ'
  dotted : c ≠ 'İ'
  letter : 0x61 ≤ c.toNat ∧ c.toNat ≤ 0x7A ∨ 0x80 ≤ c.toNat
  dark : isBlank c = false

theorem lowerChar_ascii {c : Char} (ascii : c.toNat < 0x80) : lowerChar c = c.toLower := by
  have all : ∀ n < 0x80, lowerChar (Char.ofNat n) = (Char.ofNat n).toLower := by decide +kernel
  have same := all c.toNat ascii
  rwa [Char.ofNat_toNat] at same

theorem lowerChar_of_unlisted {c : Char} (beyond : 0x80 ≤ c.toNat)
    (unlisted : ∀ run ∈ lowerCaseRuns, run.has c.toNat = false) : lowerChar c = c := by
  have none : lowerCaseRuns.find? (·.has c.toNat) = none := by
    rw [List.find?_eq_none]
    intro run member has
    rw [unlisted run member] at has
    cases has
  simp only [lowerChar, if_neg (Nat.not_lt.2 beyond), none]

theorem isLowerForm_small {n : Nat} (low : 0x61 ≤ n) (high : n ≤ 0x7A) :
    IsLowerForm (Char.ofNat n) := by
  have all : ∀ k < 26, lowerChar (Char.ofNat (0x61 + k)) = Char.ofNat (0x61 + k) ∧
      Char.ofNat (0x61 + k) ≠ 'Σ' ∧ Char.ofNat (0x61 + k) ≠ 'İ' ∧
      (Char.ofNat (0x61 + k)).toNat = 0x61 + k ∧ isBlank (Char.ofNat (0x61 + k)) = false := by
    decide +kernel
  obtain ⟨settled, sigma, dotted, number, dark⟩ := all (n - 0x61) (by omega)
  rw [Nat.add_sub_cancel' low] at settled sigma dotted number dark
  exact ⟨settled, sigma, dotted, by omega, dark⟩

theorem isLowerForm_large {n : Nat} (beyond : 0x80 ≤ n) (bound : n ≤ 0x10FFFF)
    (unlisted : ∀ run ∈ lowerCaseRuns ++ barredRuns, run.has n = false) :
    IsLowerForm (Char.ofNat n) := by
  have barred (first last : Nat) (member : ⟨first, last, 1, 0⟩ ∈ barredRuns) :
      n < first ∨ last < n := by
    have none := unlisted _ (List.mem_append_right _ member)
    rw [← Bool.not_eq_true, CaseRun.has_iff] at none
    simp only [Nat.mod_one, and_true] at none
    omega
  have surrogate := barred 0xD800 0xDFFF (by simp [barredRuns])
  have valid : n.isValidChar := by
    unfold Nat.isValidChar
    omega
  have number : (Char.ofNat n).toNat = n := by
    rw [Char.ofNat, dif_pos valid]
    rfl
  refine ⟨?_, ?_, ?_, .inr (by rw [number]; exact beyond), ?_⟩
  · apply lowerChar_of_unlisted (by rw [number]; exact beyond)
    intro run member
    rw [number]
    exact unlisted run (List.mem_append_left _ member)
  · intro same
    have sigma : n = 0x3A3 := by rw [← number, same]; rfl
    have listed : lowerCaseRuns.any (·.has 0x3A3) = true := by decide +kernel
    obtain ⟨run, member, has⟩ := List.any_eq_true.1 listed
    rw [← sigma, unlisted run (List.mem_append_left _ member)] at has
    cases has
  · intro same
    have apart := barred 0x130 0x130 (by simp [barredRuns])
    have dotted : n = 0x130 := by rw [← number, same]; rfl
    omega
  · have b0 := barred 0x85 0x85 (by simp [barredRuns])
    have b1 := barred 0xA0 0xA0 (by simp [barredRuns])
    have b2 := barred 0x1680 0x1680 (by simp [barredRuns])
    have b3 := barred 0x2000 0x200A (by simp [barredRuns])
    have b4 := barred 0x2028 0x2029 (by simp [barredRuns])
    have b5 := barred 0x202F 0x202F (by simp [barredRuns])
    have b6 := barred 0x205F 0x205F (by simp [barredRuns])
    have b7 := barred 0x3000 0x3000 (by simp [barredRuns])
    rw [← Bool.not_eq_true]
    simp only [isBlank, number, Bool.or_eq_true, Bool.and_eq_true, decide_eq_true_eq, beq_iff_eq]
    omega

/-- The two forms of a small sigma and the dot above, which lower case puts in by rule. -/
theorem isLowerForm_byRule {n : Nat} (brought : n ∈ [0x3C2, 0x3C3, 0x307]) :
    IsLowerForm (Char.ofNat n) := by
  have all : [0x3C2, 0x3C3, 0x307].all (fun n => Nat.ble 0x80 n && Nat.ble n 0x10FFFF &&
      (lowerCaseRuns ++ barredRuns).all fun run => !run.has n) = true := by decide +kernel
  have here := List.all_eq_true.1 all n brought
  simp only [Bool.and_eq_true, Nat.ble_eq, List.all_eq_true, Bool.not_eq_true'] at here
  exact isLowerForm_large here.1.1 here.1.2 here.2

/-- A character is its own lower-case form, or has one that is a letter. -/
theorem lowerChar_cases (c : Char) : lowerChar c = c ∨ IsLowerForm (lowerChar c) := by
  by_cases ascii : c.toNat < 0x80
  · by_cases capital : 0x41 ≤ c.toNat ∧ c.toNat ≤ 0x5A
    · right
      simp only [lowerChar, if_pos ascii]
      rw [if_pos (by simpa using capital)]
      exact isLowerForm_small (by omega) (by omega)
    · left
      simp only [lowerChar, if_pos ascii]
      rw [if_neg (by simpa using capital)]
  · cases found : lowerCaseRuns.find? (·.has c.toNat) with
    | none => exact .inl (by simp only [lowerChar, if_neg ascii, found])
    | some run =>
      right
      have member := List.mem_of_find?_eq_some found
      have has : run.has c.toNat = true := by simpa using List.find?_some found
      have letters := List.all_eq_true.1 lowerCaseRuns_letters run member
      have avoid := List.all_eq_true.1 (List.all_eq_true.1 lowerCaseRuns_avoid run member)
      have away : ∀ other ∈ lowerCaseRuns ++ barredRuns,
          other.has (c.toNat + run.shift).toNat = false :=
        fun other listed => CaseRun.has_of_avoids (avoid other listed) letters has
      obtain ⟨low, high, _⟩ := CaseRun.has_iff.1 has
      simp only [CaseRun.formsLetters, Bool.and_eq_true, Bool.or_eq_true, Nat.ble_eq] at letters
      simp only [lowerChar, if_neg ascii, found]
      rcases letters.2 with small | large
      · exact isLowerForm_small (by omega) (by omega)
      · exact isLowerForm_large (by omega) (by omega) away

namespace Text

theorem mem_lowerAfter {before t : Text} {d : Char} (member : d ∈ lowerAfter before t) :
    d ∈ t ∧ lowerChar d = d ∧ d ≠ 'Σ' ∧ d ≠ 'İ' ∨ IsLowerForm d := by
  induction t generalizing before with
  | nil => cases member
  | cons c rest ih =>
    have later (earlier : Text) (inside : d ∈ lowerAfter earlier rest) :
        d ∈ c :: rest ∧ lowerChar d = d ∧ d ≠ 'Σ' ∧ d ≠ 'İ' ∨ IsLowerForm d := by
      rcases ih inside with ⟨same, settled⟩ | brought
      · exact .inl ⟨List.mem_cons_of_mem _ same, settled⟩
      · exact .inr brought
    unfold lowerAfter at member
    split at member
    · rcases List.mem_cons.1 member with rfl | member
      · right
        split
        · exact isLowerForm_byRule (n := 0x3C2) (by decide)
        · exact isLowerForm_byRule (n := 0x3C3) (by decide)
      · exact later _ member
    · next sigma =>
      split at member
      · rcases List.mem_cons.1 member with rfl | member
        · exact .inr (isLowerForm_small (n := 0x69) (by decide) (by decide))
        · rcases List.mem_cons.1 member with rfl | member
          · exact .inr (isLowerForm_byRule (n := 0x307) (by decide))
          · exact later _ member
      · next dotted =>
        rcases List.mem_cons.1 member with rfl | member
        · rcases lowerChar_cases c with settled | brought
          · left
            rw [settled]
            exact ⟨List.mem_cons_self, settled, sigma, dotted⟩
          · exact .inr brought
        · exact later _ member

theorem lower_cons (c : Char) (rest : Text) :
    ∃ d tail, lower (c :: rest) = d :: tail ∧ (d = c ∨ IsLowerForm d) ∧
      ∀ e ∈ tail, e ∈ rest ∨ IsLowerForm e := by
  have later (before : Text) : ∀ e ∈ lowerAfter before rest, e ∈ rest ∨ IsLowerForm e := by
    intro e member
    rcases mem_lowerAfter member with ⟨inside, _⟩ | brought
    · exact .inl inside
    · exact .inr brought
  unfold lower lowerAfter
  split
  · refine ⟨_, _, rfl, .inr ?_, later _⟩
    split
    · exact isLowerForm_byRule (n := 0x3C2) (by decide)
    · exact isLowerForm_byRule (n := 0x3C3) (by decide)
  · split
    · refine ⟨_, _, rfl, .inr (isLowerForm_small (n := 0x69) (by decide) (by decide)), ?_⟩
      intro e member
      rcases List.mem_cons.1 member with rfl | member
      · exact .inr (isLowerForm_byRule (n := 0x307) (by decide))
      · exact later _ e member
    · exact ⟨_, _, rfl, lowerChar_cases c, later _⟩

theorem lowerAfter_settled {t : Text} (settled : ∀ c ∈ t, lowerChar c = c ∧ c ≠ 'Σ' ∧ c ≠ 'İ')
    (before : Text) : lowerAfter before t = t := by
  induction t generalizing before with
  | nil => rfl
  | cons c rest ih =>
    obtain ⟨same, sigma, dotted⟩ := settled c List.mem_cons_self
    rw [lowerAfter, if_neg sigma, if_neg dotted, same,
      ih fun d member => settled d (List.mem_cons_of_mem _ member)]

theorem lower_lower (t : Text) : t.lower.lower = t.lower := by
  apply lowerAfter_settled
  intro c member
  rcases mem_lowerAfter member with ⟨_, settled⟩ | brought
  · exact settled
  · exact ⟨brought.settled, brought.sigma, brought.dotted⟩

theorem lowerName_toList (t : Text) : lowerName (lowerName t).toList = lowerName t := by
  rw [lowerName, lowerName, String.toList_ofList, lower_lower]

theorem lowerAfter_ascii {t : Text} (ascii : ∀ c ∈ t, c.toNat < 0x80) (before : Text) :
    lowerAfter before t = t.map Char.toLower := by
  induction t generalizing before with
  | nil => rfl
  | cons c rest ih =>
    have first := ascii c List.mem_cons_self
    have sigma : c ≠ 'Σ' := by
      rintro rfl
      exact absurd first (by decide)
    have dotted : c ≠ 'İ' := by
      rintro rfl
      exact absurd first (by decide)
    rw [lowerAfter, if_neg sigma, if_neg dotted, lowerChar_ascii first, List.map_cons,
      ih fun d member => ascii d (List.mem_cons_of_mem _ member)]

theorem lowerName_ascii {t : Text} (ascii : ∀ c ∈ t, c.toNat < 0x80) :
    lowerName t = String.ofList (t.map Char.toLower) := by
  rw [lowerName, lower, lowerAfter_ascii ascii]

end Text

end LocatedHtml
