import LocatedHtml.Bytes.Utf8
import Mathlib.Data.List.Infix

/-!
What the decoder of UTF-8 makes of bytes, told by the encoding alone. Where a character stands it is read, and
where none does the longest stretch that starts a character is passed over, or one byte if there is no such
stretch.
-/

namespace LocatedHtml

open String (utf8EncodeChar)

/-- The bytes that finish a character, as many as are owed, with the bounds of the first of them; they add
their bits to a number and make it another one. -/
inductive Finishes : (tail low high code : Nat) → Bytes → Nat → Prop
  | done {low high code : Nat} : Finishes 0 low high code [] code
  | more {tail low high code n : Nat} {b : UInt8} {bs : Bytes} (above : low ≤ b.toNat) (below : b.toNat ≤ high)
    (rest : Finishes tail 0x80 0xBF (code * 64 + (b.toNat - 0x80)) bs n) :
    Finishes (tail + 1) low high code (b :: bs) n

/-- Bytes that could go on to finish a character. -/
inductive Starts : (tail low high : Nat) → Bytes → Prop
  | nil {tail low high : Nat} : Starts (tail + 1) low high []
  | more {tail low high : Nat} {b : UInt8} {bs : Bytes} (above : low ≤ b.toNat) (below : b.toNat ≤ high)
    (rest : Starts tail 0x80 0xBF bs) : Starts (tail + 1) low high (b :: bs)

/-- The bytes start a character. -/
def BeginsCharacter (p : Bytes) : Prop := ∃ c, p <+: utf8EncodeChar c

/-- The longest stretch at a place where no character stands that starts a character, or one byte. -/
structure IllFormed (part rest : Bytes) : Prop where
  nonempty : part ≠ []
  unconvertible : ∀ c, ¬ utf8EncodeChar c <+: part ++ rest
  begins : part.length = 1 ∨ BeginsCharacter part
  maximal : ∀ p, p <+: part ++ rest → BeginsCharacter p → p.length ≤ part.length

variable {tail low high code used n : Nat} {b : UInt8} {p cs rest bytes : Bytes} {c d : Char}

theorem Finishes.starts (finished : Finishes tail low high code cs n) (start : p <+: cs) (proper : p ≠ cs) :
    Starts tail low high p := by
  induction finished generalizing p with
  | done => exact absurd (List.prefix_nil.1 start) proper
  | more above below rest ih =>
    cases p with
    | nil => exact .nil
    | cons b p =>
      obtain ⟨rfl, behind⟩ := List.cons_prefix_cons.1 start
      exact .more above below (ih behind fun same => proper (by rw [same]))

theorem exists_finishes (within : low ≤ high) (byte : high < 256) (code tail : Nat) :
    ∃ cs n, Finishes tail low high code cs n := by
  induction tail generalizing low high code with
  | zero => exact ⟨_, _, .done⟩
  | succ tail ih =>
    obtain ⟨cs, n, rest⟩ := ih (show 0x80 ≤ 0xBF by decide) (show 0xBF < 256 by decide)
      (code * 64 + ((UInt8.ofNat low).toNat - 0x80))
    have value : (UInt8.ofNat low).toNat = low := UInt8.toNat_ofNat_of_lt' (by simp [UInt8.size]; omega)
    exact ⟨_, _, .more (by omega) (by omega) rest⟩

/-- What starts a character can be gone on with. -/
theorem Starts.exists_finishes (started : Starts tail low high p) (within : low ≤ high) (byte : high < 256)
    (code : Nat) : ∃ cs n, Finishes tail low high code (p ++ cs) n := by
  induction started generalizing code with
  | nil => exact LocatedHtml.exists_finishes within byte code _
  | more above below rest ih =>
    obtain ⟨cs, n, finished⟩ := ih (by omega) (by omega) _
    exact ⟨cs, n, .more above below finished⟩

/-- Where the first byte does not fit nothing starts, and nothing finishes. -/
theorem stops_of_unfit (unfit : ∀ b rest, bytes = b :: rest → ¬(low ≤ b.toNat ∧ b.toNat ≤ high)) :
    (∀ q, q <+: bytes → Starts (tail + 1) low high q → q.length ≤ ([] : Bytes).length) ∧
      ∀ cs n, Finishes (tail + 1) low high code cs n → ¬ cs <+: bytes := by
  constructor
  · rintro q ⟨rest, rfl⟩ started
    cases started with
    | nil => exact Nat.le_refl 0
    | more above below _ => exact absurd ⟨above, below⟩ (unfit _ _ rfl)
  · rintro cs n finished ⟨rest, rfl⟩
    cases finished with
    | more above below _ => exact unfit _ _ rfl ⟨above, below⟩

/-- A character goes on until it is finished, or as far as it can. -/
theorem continue_cases (tail low high code used : Nat) (bytes : Bytes) :
    (∃ cs rest n, bytes = cs ++ rest ∧ Finishes tail low high code cs n ∧
      Utf8Piece.continue tail low high code used bytes = ⟨some (Char.ofNat n), used + cs.length⟩) ∨
    ∃ p rest, bytes = p ++ rest ∧ Starts tail low high p ∧
      Utf8Piece.continue tail low high code used bytes = ⟨none, used + p.length⟩ ∧
      (∀ q, q <+: bytes → Starts tail low high q → q.length ≤ p.length) ∧
      ∀ cs n, Finishes tail low high code cs n → ¬ cs <+: bytes := by
  induction tail generalizing low high code used bytes with
  | zero => exact .inl ⟨[], bytes, code, rfl, .done, by rw [Utf8Piece.continue]; rfl⟩
  | succ tail ih =>
    cases bytes with
    | nil => exact .inr ⟨[], [], rfl, .nil, rfl, stops_of_unfit (by simp)⟩
    | cons b bytes =>
      by_cases fit : low ≤ b.toNat ∧ b.toNat ≤ high
      · have next : Utf8Piece.continue (tail + 1) low high code used (b :: bytes) =
            Utf8Piece.continue tail 0x80 0xBF (code * 64 + (b.toNat - 0x80)) (used + 1) bytes := by
          simp [Utf8Piece.continue, fit]
        rw [next]
        rcases ih 0x80 0xBF (code * 64 + (b.toNat - 0x80)) (used + 1) bytes with
          ⟨cs, rest, n, rfl, finished, result⟩ | ⟨p, rest, rfl, started, result, longest, unfinished⟩
        · refine .inl ⟨b :: cs, rest, n, rfl, .more fit.1 fit.2 finished, ?_⟩
          rw [result, List.length_cons, Nat.add_assoc, Nat.add_comm 1]
        · refine .inr ⟨b :: p, rest, rfl, .more fit.1 fit.2 started, ?_, fun q start further => ?_,
            fun cs n finished start => ?_⟩
          · rw [result, List.length_cons, Nat.add_assoc, Nat.add_comm 1]
          · cases further with
            | nil => exact Nat.zero_le _
            | more above below further =>
              obtain ⟨rfl, behind⟩ := List.cons_prefix_cons.1 start
              exact Nat.succ_le_succ (longest _ behind further)
          · cases finished with
            | more above below finished =>
              obtain ⟨rfl, behind⟩ := List.cons_prefix_cons.1 start
              exact unfinished _ _ finished behind
      · refine .inr ⟨[], b :: bytes, rfl, .nil, by simp [Utf8Piece.continue, fit], stops_of_unfit ?_⟩
        rintro _ _ same
        cases same
        exact fit

section Leads

variable {m v : Nat} {lead : Utf8Lead}

/-- The bounds of the second of three bytes keep out what two bytes can write, and the surrogates. -/
theorem lead_three (small : m < 0x10) : ∃ low high, Utf8Lead.of? (0xE0 + m) = some ⟨2, low, high, m⟩ ∧
    ∀ k, low ≤ k ∧ k ≤ high ↔ 0x80 ≤ k ∧ k ≤ 0xBF ∧ 0x20 ≤ m * 64 + (k - 0x80) ∧
      ¬(0x360 ≤ m * 64 + (k - 0x80) ∧ m * 64 + (k - 0x80) ≤ 0x37F) := by
  unfold Utf8Lead.of?
  by_cases first : m = 0
  · exact ⟨0xA0, 0xBF, by subst first; rfl, by omega⟩
  · by_cases surrogate : m = 0xD
    · exact ⟨0x80, 0x9F, by subst surrogate; rfl, by omega⟩
    · refine ⟨0x80, 0xBF, ?_, by omega⟩
      rw [if_neg (by omega), if_neg (by omega), if_neg (by omega), if_neg (by omega), if_neg (by omega),
        if_pos (by omega), Nat.add_sub_cancel_left]

/-- The bounds of the second of four bytes keep out what three bytes can write, and what is too large. -/
theorem lead_four (small : m < 5) : ∃ low high, Utf8Lead.of? (0xF0 + m) = some ⟨3, low, high, m⟩ ∧
    ∀ k, low ≤ k ∧ k ≤ high ↔ 0x80 ≤ k ∧ k ≤ 0xBF ∧ 0x10 ≤ m * 64 + (k - 0x80) ∧
      m * 64 + (k - 0x80) < 0x110 := by
  unfold Utf8Lead.of?
  by_cases first : m = 0
  · exact ⟨0x90, 0xBF, by subst first; rfl, by omega⟩
  · by_cases last : m = 4
    · exact ⟨0x80, 0x8F, by subst last; rfl, by omega⟩
    · refine ⟨0x80, 0xBF, ?_, by omega⟩
      rw [if_neg (by omega), if_neg (by omega), if_neg (by omega), if_neg (by omega), if_neg (by omega),
        if_neg (by omega), if_neg (by omega), if_pos (by omega), Nat.add_sub_cancel_left]

theorem lead_two (large : 2 ≤ m) (small : m < 0x20) :
    Utf8Lead.of? (0xC0 + m) = some ⟨1, 0x80, 0xBF, m⟩ := by
  rw [Utf8Lead.of?, if_neg (by omega), if_neg (by omega), if_pos (by omega), Nat.add_sub_cancel_left]

theorem lead_one (small : v < 0x80) : Utf8Lead.of? v = some ⟨0, 0, 0, v⟩ := by
  rw [Utf8Lead.of?, if_pos small]

theorem lead_cases (first : Utf8Lead.of? v = some lead) :
    v < 0x80 ∨ (∃ m, 2 ≤ m ∧ m < 0x20 ∧ v = 0xC0 + m) ∨
    (∃ m < 0x10, v = 0xE0 + m) ∨ ∃ m < 5, v = 0xF0 + m := by
  by_cases known : v < 0x80 ∨ 0xC2 ≤ v ∧ v < 0xF5
  · rcases known with small | ⟨large, small⟩
    · exact .inl small
    · by_cases two : v < 0xE0
      · exact .inr (.inl ⟨v - 0xC0, by omega, by omega, by omega⟩)
      · by_cases three : v < 0xF0
        · exact .inr (.inr (.inl ⟨v - 0xE0, by omega, by omega⟩))
        · exact .inr (.inr (.inr ⟨v - 0xF0, by omega, by omega⟩))
  · rw [Utf8Lead.of?] at first
    split_ifs at first <;> omega

theorem lead_bounds {tail low high code : Nat} (first : Utf8Lead.of? v = some ⟨tail, low, high, code⟩) :
    low ≤ high ∧ high ≤ 0xBF ∧ (tail = 0 ∨ 0x80 ≤ low) := by
  rw [Utf8Lead.of?] at first
  split_ifs at first <;> cases first <;> decide

theorem toNat_byte (small : v < 256) : (UInt8.ofNat v).toNat = v := UInt8.toNat_ofNat_of_lt' small

/-- A byte behind the first one adds six bits. -/
theorem Finishes.next {tail low high code n : Nat} {bs : Bytes} (small : v < 0x40)
    (fits : low ≤ v + 0x80 ∧ v + 0x80 ≤ high) (rest : Finishes tail 0x80 0xBF (code * 64 + v) bs n) :
    Finishes (tail + 1) low high code (UInt8.ofNat (v + 0x80) :: bs) n := by
  have value : (UInt8.ofNat (v + 0x80)).toNat = v + 0x80 := toNat_byte (by omega)
  refine .more (by omega) (by omega) ?_
  rwa [value, Nat.add_sub_cancel]

theorem Finishes.last {code n : Nat} (same : code = n) : Finishes 0 0x80 0xBF code [] n := same ▸ .done

/-- The bytes that stand for a number, told by its digits to the base 64. -/
def numberBytes (v : Nat) : Bytes :=
  if v ≤ 0x7F then [UInt8.ofNat v]
  else if v ≤ 0x7FF then [UInt8.ofNat (v / 64 + 0xC0), UInt8.ofNat (v % 64 + 0x80)]
  else if v ≤ 0xFFFF then
    [UInt8.ofNat (v / 64 / 64 + 0xE0), UInt8.ofNat (v / 64 % 64 + 0x80), UInt8.ofNat (v % 64 + 0x80)]
  else [UInt8.ofNat (v / 64 / 64 / 64 + 0xF0), UInt8.ofNat (v / 64 / 64 % 64 + 0x80),
    UInt8.ofNat (v / 64 % 64 + 0x80), UInt8.ofNat (v % 64 + 0x80)]

theorem utf8EncodeChar_eq (c : Char) : utf8EncodeChar c = numberBytes c.toNat := by
  have valid : c.val.toNat < 0xD800 ∨ 0xDFFF < c.val.toNat ∧ c.val.toNat < 0x110000 := c.valid
  unfold utf8EncodeChar numberBytes Char.toNat
  dsimp only
  generalize c.val.toNat = v at valid
  simp only [Nat.div_div_eq_div_mul, Nat.reduceMul]
  split_ifs with one two three
  · rfl
  · rw [Nat.mod_eq_of_lt (by omega)]
  · rw [Nat.mod_eq_of_lt (by omega)]
  · rw [Nat.mod_eq_of_lt (by omega)]

/-- A byte of seven bits is a character of its own. -/
theorem toNat_eq_of_mem {b : UInt8} (member : b ∈ utf8EncodeChar c) (small : b.toNat < 0x80) :
    c.toNat = b.toNat := by
  have valid : c.toNat < 0xD800 ∨ 0xDFFF < c.toNat ∧ c.toNat < 0x110000 := c.valid
  rw [utf8EncodeChar_eq] at member
  generalize c.toNat = v at valid member
  have large {n : Nat} (range : 0x80 ≤ n ∧ n < 256) : b ≠ UInt8.ofNat n := by
    rintro rfl
    rw [toNat_byte range.2] at small
    omega
  unfold numberBytes at member
  split_ifs at member with one two three
  · rw [List.mem_singleton.1 member, toNat_byte (by omega)]
  all_goals simp only [List.mem_cons, List.not_mem_nil, or_false] at member
  · rcases member with same | same <;> exact absurd same (large (by omega))
  · rcases member with same | same | same <;> exact absurd same (large (by omega))
  · rcases member with same | same | same | same <;> exact absurd same (large (by omega))

/-- The bytes of a character, the first of which tells what the others are. -/
theorem exists_lead (c : Char) : ∃ b cs tail low high code, utf8EncodeChar c = b :: cs ∧
    Utf8Lead.of? b.toNat = some ⟨tail, low, high, code⟩ ∧ Finishes tail low high code cs c.toNat := by
  have valid : c.toNat < 0xD800 ∨ 0xDFFF < c.toNat ∧ c.toNat < 0x110000 := c.valid
  rw [utf8EncodeChar_eq]
  generalize c.toNat = v at valid
  unfold numberBytes
  split_ifs with one two three
  · have lead : Utf8Lead.of? (UInt8.ofNat v).toNat = some ⟨0, 0, 0, v⟩ := by
      rw [toNat_byte (by omega), lead_one (by omega)]
    exact ⟨_, _, _, _, _, _, rfl, lead, .done⟩
  · have lead := lead_two (m := v / 64) (by omega) (by omega)
    rw [Nat.add_comm, ← toNat_byte (v := v / 64 + 0xC0) (by omega)] at lead
    exact ⟨_, _, _, _, _, _, rfl, lead, .next (by omega) (by omega) (.last (by omega))⟩
  · obtain ⟨low, high, lead, bounds⟩ := lead_three (m := v / 64 / 64) (by omega)
    rw [Nat.add_comm, ← toNat_byte (v := v / 64 / 64 + 0xE0) (by omega)] at lead
    exact ⟨_, _, _, _, _, _, rfl, lead, .next (by omega) ((bounds _).2 (by omega))
      (.next (by omega) (by omega) (.last (by omega)))⟩
  · obtain ⟨low, high, lead, bounds⟩ := lead_four (m := v / 64 / 64 / 64) (by omega)
    rw [Nat.add_comm, ← toNat_byte (v := v / 64 / 64 / 64 + 0xF0) (by omega)] at lead
    exact ⟨_, _, _, _, _, _, rfl, lead, .next (by omega) ((bounds _).2 (by omega))
      (.next (by omega) (by omega) (.next (by omega) (by omega) (.last (by omega))))⟩

theorem Finishes.zero_inv {low high code n : Nat} {cs : Bytes} (finished : Finishes 0 low high code cs n) :
    cs = [] ∧ n = code := by
  cases finished
  exact ⟨rfl, rfl⟩

/-- The next byte of what finishes a character, by the six bits that it adds. -/
theorem Finishes.succ_inv {tail low high code n : Nat} {cs : Bytes} (continuing : 0x80 ≤ low ∧ high ≤ 0xBF)
    (finished : Finishes (tail + 1) low high code cs n) : ∃ v bs, v < 0x40 ∧ low ≤ v + 0x80 ∧ v + 0x80 ≤ high ∧
      cs = UInt8.ofNat (v + 0x80) :: bs ∧ Finishes tail 0x80 0xBF (code * 64 + v) bs n := by
  cases finished with
  | @more _ _ _ _ _ b bs above below rest =>
    have same : b.toNat - 0x80 + 0x80 = b.toNat := by omega
    exact ⟨b.toNat - 0x80, bs, by omega, by omega, by omega, by rw [same, UInt8.ofNat_toNat], rest⟩

theorem front_digit {j : Nat} (small : j < 0x40) (a : Nat) : (a * 64 + j) / 64 = a := by omega

theorem last_digit {j : Nat} (small : j < 0x40) (a : Nat) : (a * 64 + j) % 64 = j := by omega

theorem toNat_ofNat_char (valid : v < 0xD800 ∨ 0xDFFF < v ∧ v < 0x110000) : (Char.ofNat v).toNat = v := by
  rw [Char.ofNat, dif_pos valid]
  rfl

/-- What the first byte lets follow finishes the bytes of a character. -/
theorem utf8EncodeChar_of_finishes {b : UInt8} {cs : Bytes} {tail low high code : Nat}
    (first : Utf8Lead.of? b.toNat = some ⟨tail, low, high, code⟩) (finished : Finishes tail low high code cs v) :
    utf8EncodeChar (Char.ofNat v) = b :: cs := by
  suffices (v < 0xD800 ∨ 0xDFFF < v ∧ v < 0x110000) ∧ numberBytes v = b :: cs by
    rw [utf8EncodeChar_eq, toNat_ofNat_char this.1, this.2]
  rw [← UInt8.ofNat_toNat (x := b)]
  rcases lead_cases first with small | ⟨m, large, small, value⟩ | ⟨m, small, value⟩ | ⟨m, small, value⟩
  · cases first.symm.trans (lead_one small)
    obtain ⟨rfl, rfl⟩ := finished.zero_inv
    exact ⟨by omega, by rw [numberBytes, if_pos (by omega)]⟩
  · rw [value] at first ⊢
    cases first.symm.trans (lead_two large small)
    obtain ⟨j, _, last, _, _, rfl, done⟩ := finished.succ_inv (by omega)
    obtain ⟨rfl, rfl⟩ := done.zero_inv
    refine ⟨by omega, ?_⟩
    rw [numberBytes, if_neg (by omega), if_pos (by omega), front_digit last, last_digit last, Nat.add_comm code]
  · rw [value] at first ⊢
    obtain ⟨_, _, lead, bounds⟩ := lead_three small
    cases first.symm.trans lead
    obtain ⟨i, _, middle, above, below, rfl, rest⟩ := finished.succ_inv (by have := lead_bounds first; omega)
    obtain ⟨j, _, last, _, _, rfl, done⟩ := rest.succ_inv (by omega)
    obtain ⟨rfl, rfl⟩ := done.zero_inv
    have range := (bounds _).1 ⟨above, below⟩
    rw [Nat.add_sub_cancel] at range
    refine ⟨by omega, ?_⟩
    rw [numberBytes, if_neg (by omega), if_neg (by omega), if_pos (by omega), front_digit last, last_digit last,
      front_digit middle, last_digit middle, Nat.add_comm code]
  · rw [value] at first ⊢
    obtain ⟨_, _, lead, bounds⟩ := lead_four small
    cases first.symm.trans lead
    obtain ⟨h, _, second, above, below, rfl, rest⟩ := finished.succ_inv (by have := lead_bounds first; omega)
    obtain ⟨i, _, third, _, _, rfl, rest'⟩ := rest.succ_inv (by omega)
    obtain ⟨j, _, last, _, _, rfl, done⟩ := rest'.succ_inv (by omega)
    obtain ⟨rfl, rfl⟩ := done.zero_inv
    have range := (bounds _).1 ⟨above, below⟩
    rw [Nat.add_sub_cancel] at range
    refine ⟨by omega, ?_⟩
    rw [numberBytes, if_neg (by omega), if_neg (by omega), if_neg (by omega), front_digit last, last_digit last,
      front_digit third, last_digit third, front_digit second, last_digit second, Nat.add_comm code]

end Leads

theorem utf8EncodeChar_ne_nil (c : Char) : utf8EncodeChar c ≠ [] := by
  obtain ⟨b, cs, _, _, _, _, bytes, _⟩ := exists_lead c
  rw [bytes]
  exact List.cons_ne_nil b cs

/-- No character is the start of another one. -/
theorem eq_of_utf8EncodeChar_append {r r' : Bytes} (same : utf8EncodeChar c ++ r = utf8EncodeChar d ++ r') :
    c = d := by
  have first := ByteArray.utf8DecodeChar?_utf8EncodeChar_append (b := r.toByteArray) (c := c)
  have second := ByteArray.utf8DecodeChar?_utf8EncodeChar_append (b := r'.toByteArray) (c := d)
  rw [← List.toByteArray_append] at first second
  rw [same, second] at first
  exact (Option.some.inj first).symm

/-- A stretch that starts a character has the first byte of the character in front. -/
theorem exists_lead_of_prefix {q : Bytes} (begun : b :: q <+: utf8EncodeChar c) :
    ∃ cs tail low high code, utf8EncodeChar c = b :: cs ∧ q <+: cs ∧
      Utf8Lead.of? b.toNat = some ⟨tail, low, high, code⟩ ∧ Finishes tail low high code cs c.toNat := by
  obtain ⟨b', cs, tail, low, high, code, encoded, lead, finished⟩ := exists_lead c
  rw [encoded] at begun
  obtain ⟨rfl, behind⟩ := List.cons_prefix_cons.1 begun
  exact ⟨cs, tail, low, high, code, encoded, behind, lead, finished⟩

/-- Behind a byte that leads to no character there is nothing that starts one. -/
theorem illFormed_of_no_lead (first : Utf8Lead.of? b.toNat = none) (rest : Bytes) : IllFormed [b] rest := by
  have nothing {p : Bytes} (start : p <+: b :: rest) (begun : BeginsCharacter p) : p = [] := by
    obtain ⟨c, begun⟩ := begun
    cases p with
    | nil => rfl
    | cons a p =>
      obtain ⟨rfl, _⟩ := List.cons_prefix_cons.1 start
      obtain ⟨_, _, _, _, _, _, _, lead, _⟩ := exists_lead_of_prefix begun
      rw [first] at lead
      cases lead
  refine ⟨List.cons_ne_nil _ _, fun c start => ?_, .inl rfl, fun p start begun => ?_⟩
  · exact utf8EncodeChar_ne_nil c (nothing start ⟨c, List.prefix_rfl⟩)
  · rw [nothing start begun]
    exact Nat.zero_le _

/-- A stretch that starts a character and cannot go on is ill-formed. -/
theorem illFormed_of_unfinished (first : Utf8Lead.of? b.toNat = some ⟨tail, low, high, code⟩)
    (started : Starts tail low high p)
    (longest : ∀ q, q <+: p ++ rest → Starts tail low high q → q.length ≤ p.length)
    (unfinished : ∀ cs n, Finishes tail low high code cs n → ¬ cs <+: p ++ rest) : IllFormed (b :: p) rest := by
  obtain ⟨within, byte, _⟩ := lead_bounds first
  have unconvertible : ∀ c, ¬ utf8EncodeChar c <+: b :: (p ++ rest) := fun c start => by
    obtain ⟨b', cs, _, _, _, _, encoded, lead, finished⟩ := exists_lead c
    rw [encoded] at start
    obtain ⟨rfl, behind⟩ := List.cons_prefix_cons.1 start
    cases first.symm.trans lead
    exact unfinished _ _ finished behind
  refine ⟨List.cons_ne_nil _ _, unconvertible, .inr ?_, fun q start begun => ?_⟩
  · obtain ⟨cs, n, finished⟩ := started.exists_finishes within (by omega) code
    refine ⟨Char.ofNat n, ?_⟩
    rw [utf8EncodeChar_of_finishes first finished]
    exact List.prefix_append (b :: p) cs
  · obtain ⟨c, begun⟩ := begun
    cases q with
    | nil => exact Nat.zero_le _
    | cons a q =>
      have proper : a :: q ≠ utf8EncodeChar c := fun same => unconvertible c (same ▸ start)
      obtain ⟨rfl, behind⟩ := List.cons_prefix_cons.1 start
      obtain ⟨cs, _, _, _, _, encoded, part, lead, finished⟩ := exists_lead_of_prefix begun
      cases first.symm.trans lead
      have further := finished.starts part fun same => proper (by rw [encoded, same])
      exact Nat.succ_le_succ (longest q behind further)

/-- The piece at the front of some bytes is the character that stands there, or what is ill-formed there. -/
theorem first_cases (b : UInt8) (bytes : Bytes) :
    (∃ c rest, b :: bytes = utf8EncodeChar c ++ rest ∧
      Utf8Piece.first b bytes = ⟨some c, (utf8EncodeChar c).length⟩) ∨
    ∃ part rest, b :: bytes = part ++ rest ∧ IllFormed part rest ∧
      Utf8Piece.first b bytes = ⟨none, part.length⟩ := by
  unfold Utf8Piece.first
  cases first : Utf8Lead.of? b.toNat with
  | none => exact .inr ⟨[b], bytes, rfl, illFormed_of_no_lead first bytes, rfl⟩
  | some lead =>
    obtain ⟨tail, low, high, code⟩ := lead
    rcases continue_cases tail low high code 1 bytes with
      ⟨cs, rest, n, rfl, finished, result⟩ | ⟨p, rest, rfl, started, result, longest, unfinished⟩
    · have encoded := utf8EncodeChar_of_finishes first finished
      refine .inl ⟨Char.ofNat n, rest, by rw [encoded]; rfl, ?_⟩
      rw [encoded, List.length_cons, Nat.add_comm, ← result]
    · refine .inr ⟨b :: p, rest, rfl, illFormed_of_unfinished first started longest unfinished, ?_⟩
      rw [List.length_cons, Nat.add_comm, ← result]

end LocatedHtml
