import LocatedHtml.Proofs.Bytes.Utf8Character

/-!
Texts and their bytes in UTF-8. Bytes fall apart in one way into characters and what is ill-formed; the strict
decoder takes the former alone, and the lenient one puts a replacement character for each of the latter.
-/

namespace LocatedHtml

open String (utf8EncodeChar)

/-- The bytes with the replacement character in place of everything in them that is ill-formed. -/
inductive Mends : Bytes → Bytes → Prop
  | nil : Mends [] []
  | character (c : Char) {rest out : Bytes} (mended : Mends rest out) :
    Mends (utf8EncodeChar c ++ rest) (utf8EncodeChar c ++ out)
  | illFormed {part rest out : Bytes} (ill : IllFormed part rest) (mended : Mends rest out) :
    Mends (part ++ rest) (utf8EncodeChar '\ufffd' ++ out)

variable {t : Text} {part rest part' rest' bytes out : Bytes}

theorem IllFormed.eq (ill : IllFormed part rest) (ill' : IllFormed part' rest')
    (same : part ++ rest = part' ++ rest') : part = part' ∧ rest = rest' := by
  have le {p r p' r' : Bytes} (ill : IllFormed p r) (ill' : IllFormed p' r') (same : p ++ r = p' ++ r') :
      p.length ≤ p'.length := by
    rcases ill.begins with one | begun
    · rw [one]
      exact List.length_pos_of_ne_nil ill'.nonempty
    · exact ill'.maximal p (same ▸ List.prefix_append p r) begun
  exact List.append_inj same (Nat.le_antisymm (le ill ill' same) (le ill' ill same.symm))

theorem utf8Pieces_cons (b : UInt8) (bytes : Bytes) : utf8Pieces (b :: bytes) =
    Utf8Piece.first b bytes :: utf8Pieces (bytes.drop ((Utf8Piece.first b bytes).length - 1)) := by
  rw [utf8Pieces]

theorem drop_part {b : UInt8} (whole : b :: bytes = part ++ rest) (some_ : part ≠ []) :
    bytes.drop (part.length - 1) = rest := by
  obtain ⟨a, part, rfl⟩ := List.exists_cons_of_ne_nil some_
  rw [List.cons_append, List.cons.injEq] at whole
  rw [whole.2, List.length_cons, Nat.add_sub_cancel, List.drop_left]

theorem utf8Pieces_nil : utf8Pieces [] = [] := by rw [utf8Pieces]

/-- A character in front is one piece. -/
theorem utf8Pieces_append (c : Char) (rest : Bytes) : utf8Pieces (utf8EncodeChar c ++ rest) =
    ⟨some c, (utf8EncodeChar c).length⟩ :: utf8Pieces rest := by
  obtain ⟨b, bytes, encoded⟩ := List.exists_cons_of_ne_nil (utf8EncodeChar_ne_nil c)
  have whole : b :: (bytes ++ rest) = utf8EncodeChar c ++ rest := by rw [encoded]; rfl
  rw [← whole, utf8Pieces_cons]
  rcases first_cases b (bytes ++ rest) with ⟨d, rest', other, first⟩ | ⟨part, rest', other, ill, _⟩
  · cases eq_of_utf8EncodeChar_append (whole.symm.trans other)
    rw [first, drop_part whole (utf8EncodeChar_ne_nil c)]
  · exact absurd (other ▸ whole ▸ List.prefix_append _ rest) (ill.unconvertible c)

/-- What is ill-formed in front is one piece. -/
theorem IllFormed.utf8Pieces_append (ill : IllFormed part rest) :
    utf8Pieces (part ++ rest) = ⟨none, part.length⟩ :: utf8Pieces rest := by
  obtain ⟨b, bytes, front⟩ := List.exists_cons_of_ne_nil ill.nonempty
  have whole : b :: (bytes ++ rest) = part ++ rest := by rw [front]; rfl
  rw [← whole, utf8Pieces_cons]
  rcases first_cases b (bytes ++ rest) with ⟨d, rest', other, _⟩ | ⟨part', rest', other, ill', first⟩
  · exact absurd (whole ▸ other ▸ List.prefix_append _ rest') (ill.unconvertible d)
  · obtain ⟨rfl, rfl⟩ := ill.eq ill' (whole.symm.trans other)
    rw [first, drop_part whole ill.nonempty]

/-- All bytes fall apart into characters and what is ill-formed. -/
theorem utf8_induction {motive : Bytes → Prop} (nil : motive [])
    (character : ∀ c rest, motive rest → motive (utf8EncodeChar c ++ rest))
    (illFormed : ∀ part rest, IllFormed part rest → motive rest → motive (part ++ rest)) (bytes : Bytes) :
    motive bytes := by
  induction length : bytes.length using Nat.strongRecOn generalizing bytes with
  | ind n ih =>
    have shorter {part rest : Bytes} (whole : bytes = part ++ rest) (some_ : part ≠ []) : motive rest := by
      have pos := List.length_pos_of_ne_nil some_
      rw [whole, List.length_append] at length
      exact ih rest.length (by omega) rest rfl
    cases bytes with
    | nil => exact nil
    | cons b bytes =>
      rcases first_cases b bytes with ⟨c, rest, whole, _⟩ | ⟨part, rest, whole, ill, _⟩
      · rw [whole]
        exact character c rest (shorter whole (utf8EncodeChar_ne_nil c))
      · rw [whole]
        exact illFormed part rest ill (shorter whole ill.nonempty)

theorem encodeUtf8_cons (c : Char) (t : Text) : encodeUtf8 (c :: t) = utf8EncodeChar c ++ encodeUtf8 t := rfl

theorem decodeUtf8?_append (c : Char) (rest : Bytes) :
    decodeUtf8? (utf8EncodeChar c ++ rest) = (decodeUtf8? rest).map (c :: ·) := by
  rw [decodeUtf8?, utf8Pieces_append, List.mapM_cons, ← decodeUtf8?]
  cases decodeUtf8? rest <;> rfl

theorem IllFormed.decodeUtf8?_append (ill : IllFormed part rest) : decodeUtf8? (part ++ rest) = none := by
  rw [decodeUtf8?, ill.utf8Pieces_append, List.mapM_cons]
  rfl

theorem decodeUtf8?_encodeUtf8 (t : Text) : decodeUtf8? (encodeUtf8 t) = some t := by
  induction t with
  | nil => rw [encodeUtf8, List.flatMap_nil, decodeUtf8?, utf8Pieces_nil]; rfl
  | cons c t ih => rw [encodeUtf8_cons, decodeUtf8?_append, ih, Option.map_some]

/-- The strict decoder takes the encodings of texts and nothing else. -/
theorem decodeUtf8?_eq_some_iff : decodeUtf8? bytes = some t ↔ bytes = encodeUtf8 t := by
  refine ⟨fun decoded => ?_, fun encoded => by rw [encoded, decodeUtf8?_encodeUtf8]⟩
  induction bytes using utf8_induction generalizing t with
  | nil =>
    rw [decodeUtf8?, utf8Pieces_nil] at decoded
    cases decoded
    rfl
  | character c rest ih =>
    rw [decodeUtf8?_append] at decoded
    obtain ⟨t, there, rfl⟩ := Option.map_eq_some_iff.1 decoded
    rw [encodeUtf8_cons, ← ih there]
  | illFormed part rest ill ih =>
    rw [ill.decodeUtf8?_append] at decoded
    cases decoded

theorem decodeUtf8Lossy_append (c : Char) (rest : Bytes) :
    decodeUtf8Lossy (utf8EncodeChar c ++ rest) = c :: decodeUtf8Lossy rest := by
  rw [decodeUtf8Lossy, utf8Pieces_append]
  rfl

theorem IllFormed.decodeUtf8Lossy_append (ill : IllFormed part rest) :
    decodeUtf8Lossy (part ++ rest) = '\ufffd' :: decodeUtf8Lossy rest := by
  rw [decodeUtf8Lossy, ill.utf8Pieces_append]
  rfl

/-- The lenient decoder gives the text of the mended bytes. -/
theorem mends_iff : Mends bytes out ↔ out = encodeUtf8 (decodeUtf8Lossy bytes) := by
  constructor
  · intro mended
    induction mended with
    | nil => rw [decodeUtf8Lossy, utf8Pieces_nil]; rfl
    | character c _ ih => rw [decodeUtf8Lossy_append, encodeUtf8_cons, ih]
    | illFormed ill _ ih => rw [ill.decodeUtf8Lossy_append, encodeUtf8_cons, ih]
  · rintro rfl
    induction bytes using utf8_induction with
    | nil =>
      rw [decodeUtf8Lossy, utf8Pieces_nil]
      exact .nil
    | character c rest ih =>
      rw [decodeUtf8Lossy_append, encodeUtf8_cons]
      exact .character c ih
    | illFormed part rest ill ih =>
      rw [ill.decodeUtf8Lossy_append, encodeUtf8_cons]
      exact .illFormed ill ih

/-- Bytes that are not UTF-8 leave a replacement character. -/
theorem replacement_mem (undecoded : decodeUtf8? bytes = none) : '\ufffd' ∈ decodeUtf8Lossy bytes := by
  induction bytes using utf8_induction with
  | nil =>
    rw [decodeUtf8?, utf8Pieces_nil] at undecoded
    cases undecoded
  | character c rest ih =>
    rw [decodeUtf8?_append, Option.map_eq_none_iff] at undecoded
    rw [decodeUtf8Lossy_append]
    exact List.mem_cons_of_mem _ (ih undecoded)
  | illFormed part rest ill _ =>
    rw [ill.decodeUtf8Lossy_append]
    exact List.mem_cons_self

end LocatedHtml
