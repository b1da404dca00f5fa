import LocatedHtml.JsonLines
import LocatedHtml.Proofs.Bytes.Utf8
import LocatedHtml.Proofs.Json.Reading

/-!
Files of records. What is written for a record has no newline in it and no padding around it, so a file falls
apart into the lines that it was made of, and each of them is read as its record.
-/

namespace LocatedHtml.JsonLines

open Json (Reordered)

variable {records others : List Json} {record : Json} {bytes line rest : Bytes} {t : Text}

/-- The record is an object. -/
def IsRecord (j : Json) : Prop := ∃ entries, j = .object entries

/-- A line that is a text with its newline behind it is the first one. -/
theorem byteLines_append (apart : 0x0A ∉ line) (rest : Bytes) :
    byteLines (line ++ 0x0A :: rest) = line :: byteLines rest := by
  induction line with
  | nil => rw [List.nil_append, byteLines, if_pos rfl]
  | cons b line ih =>
    rw [List.mem_cons, not_or] at apart
    rw [List.cons_append, byteLines, if_neg (Ne.symm apart.1), ih apart.2]

theorem byteLines_flatMap {lines : List Bytes} (apart : ∀ line ∈ lines, 0x0A ∉ line) :
    byteLines (lines.flatMap (· ++ [0x0A])) = lines ++ [[]] := by
  induction lines with
  | nil => rfl
  | cons line lines ih =>
    obtain ⟨first, others⟩ := List.forall_mem_cons.1 apart
    rw [List.flatMap_cons, List.append_assoc]
    exact (byteLines_append first _).trans (congrArg (line :: ·) (ih others))

/-- A line with brackets around it has no padding. -/
theorem stripLine_eq {first last : UInt8} {inside : Bytes} (front : isPadding first = false)
    (back : isPadding last = false) : stripLine (first :: inside ++ [last]) = first :: inside ++ [last] := by
  have keep {b : UInt8} {bs : Bytes} (solid : isPadding b = false) : (b :: bs).dropWhile isPadding = b :: bs :=
    List.dropWhile_cons_of_neg (by rw [solid]; exact Bool.false_ne_true)
  rw [stripLine, List.cons_append, keep front, ← List.cons_append, List.reverse_concat, keep back,
    ← List.reverse_concat, List.reverse_reverse]

theorem written_eq_ok : written records = .ok t ↔
    ∃ texts, List.Forall₂ (fun record s => record.written = .ok s) records texts ∧
      t = texts.flatMap (· ++ ['\n']) := by
  induction records generalizing t with
  | nil =>
    constructor
    · rintro ⟨⟩
      exact ⟨[], .nil, rfl⟩
    · intro ⟨_, .nil, same⟩
      rw [same]
      rfl
  | cons record records ih =>
    rw [written, Json.bind_eq_ok]
    simp only [Json.bind_eq_ok, ih]
    constructor
    · intro ⟨s, first, _, ⟨texts, others, same⟩, result⟩
      cases result
      exact ⟨s :: texts, .cons first others, by rw [same, List.flatMap_cons, List.append_assoc]; rfl⟩
    · intro ⟨_, .cons first others, same⟩
      exact ⟨_, first, _, ⟨_, others, rfl⟩, by rw [same, List.flatMap_cons, List.append_assoc]; rfl⟩

theorem encode_eq_ok : encode records = .ok bytes ↔
    ∃ texts, List.Forall₂ (fun record s => record.written = .ok s) records texts ∧
      bytes = (texts.map encodeUtf8).flatMap (· ++ [0x0A]) := by
  have bytes_of (texts : List Text) :
      encodeUtf8 (texts.flatMap (· ++ ['\n'])) = (texts.map encodeUtf8).flatMap (· ++ [0x0A]) := by
    simp only [encodeUtf8, List.flatMap_assoc, List.flatMap_append, List.flatMap_map]
    rfl
  constructor
  · intro encoded
    cases made : written records with
    | error e => rw [encode, made] at encoded; cases encoded
    | ok t =>
      rw [encode, made] at encoded
      cases encoded
      obtain ⟨texts, each, rfl⟩ := written_eq_ok.1 made
      exact ⟨texts, each, bytes_of texts⟩
  · rintro ⟨texts, each, rfl⟩
    rw [encode, written_eq_ok.2 ⟨texts, each, rfl⟩, ← bytes_of]
    rfl

/-- The line holds the record: it is cut out of a file as it stands, and the record is read from it. -/
structure Holds (record : Json) (line : Bytes) : Prop where
  apart : 0x0A ∉ line
  unpadded : stripLine line = line
  some_ : line ≠ []
  back : ∃ back, decodeLine line = some back ∧ Reordered record back

/-- There is no newline in the bytes of visible characters. -/
theorem newline_notMem (visible : Json.Visible t) : 0x0A ∉ encodeUtf8 t := by
  intro member
  obtain ⟨c, among, inside⟩ := List.mem_flatMap.1 member
  have small := visible c among
  rw [toNat_eq_of_mem inside (by decide)] at small
  exact absurd small (by decide)

/-- What is written for a record is the line of the record. -/
theorem holds (plain : record.Plain) (object : IsRecord record) (text : record.written = .ok t) :
    Holds record (encodeUtf8 t) := by
  obtain ⟨entries, rfl⟩ := object
  have sorted := plain.sorted
  obtain ⟨_, texts, _, _, braces⟩ := Json.write_object.1 text
  have ends : encodeUtf8 t = 0x7B :: encodeUtf8 (Json.commas texts) ++ [0x7D] := by
    rw [braces, encodeUtf8, List.flatMap_append]
    rfl
  refine ⟨newline_notMem (sorted.visible text), ?_, ?_, _, ?_, plain.reordered_sorted⟩
  · rw [ends]
    exact stripLine_eq (by decide) (by decide)
  · rw [ends]
    exact List.cons_ne_nil _ _
  · rw [decodeLine, decodeUtf8?_encodeUtf8]
    exact sorted.read?_eq text (by decide)

/-- A file of the lines of some records is read as the records. -/
theorem decode_lines {lines : List Bytes} (held : List.Forall₂ Holds records lines) :
    ∃ back, decode (lines.flatMap (· ++ [0x0A])) = some back ∧ List.Forall₂ Reordered records back := by
  have each : ∀ line ∈ lines, ∃ record, Holds record line := fun line member =>
    have ⟨record, _, holds⟩ := Json.exists_of_mem_right held member
    ⟨record, holds⟩
  have cut : ((byteLines (lines.flatMap (· ++ [0x0A]))).map stripLine).filter (fun line => !line.isEmpty) = lines := by
    have unpadded : lines.map stripLine = lines :=
      (List.map_congr_left fun line member => (each line member).elim fun _ holds => holds.unpadded).trans
        (List.map_id lines)
    have kept : lines.filter (fun line => !line.isEmpty) = lines :=
      List.filter_eq_self.2 fun line member => by
        obtain ⟨_, holds⟩ := each line member
        simpa using holds.some_
    rw [byteLines_flatMap fun line member => (each line member).elim fun _ holds => holds.apart, List.map_append,
      List.filter_append, unpadded, kept]
    exact List.append_nil lines
  rw [decode, cut]
  clear cut each
  induction held with
  | nil => exact ⟨[], rfl, .nil⟩
  | cons first _ ih =>
    obtain ⟨value, read, same⟩ := first.back
    obtain ⟨values, rest, others⟩ := ih
    refine ⟨value :: values, ?_, .cons same others⟩
    rw [List.mapM_cons, read, rest]
    rfl

theorem written_congr {record other : Json} (plain : record.Plain) (reordered : Reordered record other) :
    other.written = record.written := by
  rw [Json.written, Json.written, (reordered.sorted_eq plain).2]

theorem encode_congr (plain : ∀ record ∈ records, record.Plain)
    (reordered : List.Forall₂ Reordered records others) : encode others = encode records := by
  suffices written others = written records by rw [encode, encode, this]
  induction reordered with
  | nil => rfl
  | cons first _ ih =>
    obtain ⟨plain, rest⟩ := List.forall_mem_cons.1 plain
    rw [written, written, written_congr plain first, ih rest]

theorem exists_written (plain : record.Plain) :
    (∃ t, record.written = .ok t) ↔ record.Within Json.maxWrittenDepth :=
  plain.sorted.exists_write.trans plain.reordered_sorted.within_iff.symm

theorem exists_encode (plain : ∀ record ∈ records, record.Plain) :
    (∃ bytes, encode records = .ok bytes) ↔ ∀ record ∈ records, record.Within Json.maxWrittenDepth := by
  have texts : (∃ bytes, encode records = .ok bytes) ↔ ∀ record ∈ records, ∃ s, record.written = .ok s := by
    rw [← Json.exists_forall₂]
    constructor
    · rintro ⟨bytes, encoded⟩
      obtain ⟨texts, each, _⟩ := encode_eq_ok.1 encoded
      exact ⟨texts, each⟩
    · rintro ⟨texts, each⟩
      exact ⟨_, encode_eq_ok.2 ⟨texts, each, rfl⟩⟩
  exact texts.trans (forall₂_congr fun record member => exists_written (plain record member))

theorem count_newlines {lines : List Bytes} (apart : ∀ line ∈ lines, 0x0A ∉ line) :
    (lines.flatMap (· ++ [0x0A])).count 0x0A = lines.length := by
  induction lines with
  | nil => rfl
  | cons line lines ih =>
    obtain ⟨first, others⟩ := List.forall_mem_cons.1 apart
    rw [List.flatMap_cons, List.count_append, List.count_append, List.count_eq_zero.2 first, ih others,
      List.length_cons, Nat.add_comm]
    rfl

/-- Records are written unless one of them is nested too deeply, the order of entries having no part in what is
written. The file is read as the records, and it has one newline a record, at the end of the line that holds the
record. -/
theorem decode_encode (plain : ∀ record ∈ records, record.Plain ∧ IsRecord record) :
    ((∃ bytes, encode records = .ok bytes) ↔ ∀ record ∈ records, record.Within Json.maxWrittenDepth) ∧
    (∀ others, List.Forall₂ Reordered records others → encode others = encode records) ∧
    ∀ bytes, encode records = .ok bytes →
      (∃ back, decode bytes = some back ∧ List.Forall₂ Reordered records back) ∧
      bytes.count 0x0A = records.length ∧
      ∃ lines, bytes = lines.flatMap (· ++ [0x0A]) ∧ List.Forall₂ Holds records lines := by
  have values : ∀ record ∈ records, record.Plain := fun record member => (plain record member).1
  refine ⟨exists_encode values, fun others => encode_congr values, fun bytes encoded => ?_⟩
  obtain ⟨texts, each, rfl⟩ := encode_eq_ok.1 encoded
  have held : List.Forall₂ Holds records (texts.map encodeUtf8) :=
    List.forall₂_map_right_iff.2 (((List.forall₂_and_left _ _).2 ⟨plain, each⟩).imp fun record t part =>
      holds part.1.1 part.1.2 part.2)
  have apart : ∀ line ∈ texts.map encodeUtf8, 0x0A ∉ line := fun line member =>
    have ⟨_, _, holds⟩ := Json.exists_of_mem_right held member
    holds.apart
  refine ⟨decode_lines held, ?_, _, rfl, held⟩
  rw [count_newlines apart, held.length_eq]

/-- A record with a list in it, written with its entries in either order. -/
theorem decode_encode_nested : ∃ list : Json, ∃ bytes back,
    list = .array [.number (-1), .string ['"', '\n', 'é'], .object []] ∧
    bytes = encodeUtf8 "\x7b\"a\":null,\"b\":[-1,\"\\\"\\né\",\x7b\x7d]\x7d\n".toList ∧
    encode [.object [Json.entry "b" list, Json.entry "a" .null]] = .ok bytes ∧
    encode [.object [Json.entry "a" .null, Json.entry "b" list]] = .ok bytes ∧
    decode bytes = some back ∧
    List.Forall₂ Reordered [.object [Json.entry "b" list, Json.entry "a" .null]] back := by
  obtain ⟨list, value⟩ : ∃ list : Json, list = .array [.number (-1), .string ['"', '\n', 'é'], .object []] :=
    ⟨_, rfl⟩
  have inside : list.Plain := by
    rw [value]
    refine .array ?_
    simp only [List.forall_mem_cons]
    exact ⟨.number _ (by decide) (by decide), .string _, .object List.nodup_nil (by simp), by simp⟩
  have plain : ∀ record ∈ [Json.object [Json.entry "b" list, Json.entry "a" .null]],
      record.Plain ∧ IsRecord record :=
    List.forall_mem_singleton.2 ⟨.object (by simp [Json.entry])
      (List.forall_mem_cons.2 ⟨inside, List.forall_mem_singleton.2 .null⟩), _, rfl⟩
  have encoded : encode [.object [Json.entry "b" list, Json.entry "a" .null]] =
      .ok (encodeUtf8 "\x7b\"a\":null,\"b\":[-1,\"\\\"\\né\",\x7b\x7d]\x7d\n".toList) := by
    rw [value]
    rfl
  obtain ⟨_, same, read⟩ := decode_encode plain
  obtain ⟨⟨back, decoded, reordered⟩, _⟩ := read _ encoded
  exact ⟨list, _, back, value, rfl, encoded, (same _ (.cons (.order (.swap _ _ _)) .nil)).trans encoded, decoded,
    reordered⟩

end LocatedHtml.JsonLines
