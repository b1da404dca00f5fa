import LocatedHtml.Proofs.Lexing.Pieces
import LocatedHtml.Proofs.Lexing.Values

/-!
The pieces of a start tag that look like attributes, as they stand in the tag: one behind the other, each with
its name first, and none with the bracket that closes the tag.
-/

namespace LocatedHtml

/-- The text does not end with a closing bracket. -/
def EndsOpen (t : Text) : Prop := ∀ c ∈ t.getLast?, c ≠ '>'

namespace EndsOpen

variable {s t : Text}

theorem of_forall (all : ∀ c ∈ t, c ≠ '>') : EndsOpen t := fun c last => all c (List.mem_of_getLast? last)

theorem behind (open_ : EndsOpen t) (some_ : t ≠ []) (s : Text) : EndsOpen (s ++ t) := by
  intro c last
  rw [List.getLast?_append_of_ne_nil s some_] at last
  exact open_ c last

/-- What stands in a text with a closing bracket at its end stands in front of that bracket. -/
theorem length_lt (open_ : EndsOpen s) (some_ : s ≠ []) {before back inner : Text}
    (whole : inner ++ ['>'] = before ++ s ++ back) : (before ++ s).length ≤ inner.length := by
  have more : back ≠ [] := by
    rintro rfl
    have last := congrArg List.getLast? whole
    rw [List.append_nil, List.getLast?_concat, List.getLast?_append_of_ne_nil before some_] at last
    exact open_ '>' last.symm rfl
  have length := congrArg List.length whole
  have one := List.length_pos_of_ne_nil more
  rw [List.length_append, List.length_append, List.length_singleton] at length
  omega

end EndsOpen

variable {m : Mark} {t : Text}

/-- What a piece has behind its name. -/
theorem exists_pieceValue (t : Text) :
    ∃ value back, t = value ++ back ∧ pieceValueLength t = value.length ∧ EndsOpen value := by
  have nothing (none : pieceValueLength t = 0) :
      ∃ value back, t = value ++ back ∧ pieceValueLength t = value.length ∧ EndsOpen value :=
    ⟨[], t, rfl, none, .of_forall (List.forall_mem_nil _)⟩
  obtain ⟨before, behind, whole, front, _, _, dropped⟩ := Text.exists_blanks t
  by_cases equals : behind.head? = some '='
  · obtain ⟨tail, rfl⟩ := List.head?_eq_some_iff.1 equals
    obtain ⟨between, rest, rfl, inner, dark, _, skipped⟩ := Text.exists_blanks tail
    cases rest with
    | nil => exact nothing (by simp only [pieceValueLength, dropped, skipped])
    | cons c rest =>
      have length := pieceValueLength_equals front inner dark
      rw [← whole] at length
      by_cases quoted : (isQuote c && rest.contains c) = true
      · have quotes := (Bool.and_eq_true_iff.1 quoted).1
        obtain ⟨value, back, rfl, apart⟩ :=
          List.eq_append_cons_of_mem (List.contains_iff_mem.1 (Bool.and_eq_true_iff.1 quoted).2)
        refine ⟨before ++ '=' :: (between ++ c :: value) ++ [c], back, by rw [whole]; simp, ?_, ?_⟩
        · rw [whole, pieceValueLength_quote front inner quotes apart]
          simp only [List.length_append, List.length_cons, List.length_nil]
          omega
        · apply EndsOpen.behind (.of_forall _) (List.cons_ne_nil c [])
          rw [List.forall_mem_singleton]
          rintro rfl
          exact absurd quotes (by decide)
      · rw [if_neg quoted] at length
        obtain ⟨back, apart, bare, _⟩ := Text.exists_takeWhile isBareValueChar (c :: rest)
        generalize (c :: rest).takeWhile isBareValueChar = value at length apart bare
        split at length
        · exact nothing length
        · next some_ =>
          refine ⟨before ++ '=' :: between ++ value, back, by rw [whole, apart]; simp, ?_, ?_⟩
          · rw [length]
            simp only [List.length_append, List.length_cons]
            omega
          · apply EndsOpen.behind (.of_forall _) (mt List.length_eq_zero_iff.2 some_)
            intro d member
            rintro rfl
            exact absurd (bare '>' member) (by decide)
  · refine nothing ?_
    unfold pieceValueLength
    dsimp only
    rw [dropped]
    split
    · exact absurd rfl equals
    · rfl

/-- A piece of a text: its name, what it has behind that, and the rest of the text. -/
theorem exists_piece {c : Char} (starts : startsPiece c = true) (rest : Text) :
    ∃ value back, rest = rest.takeWhile isAttributeNameChar ++ value ++ back ∧
      (rest.takeWhile isAttributeNameChar).length +
        pieceValueLength (rest.drop (rest.takeWhile isAttributeNameChar).length) =
          (rest.takeWhile isAttributeNameChar ++ value).length ∧
      EndsOpen (c :: rest.takeWhile isAttributeNameChar ++ value) := by
  obtain ⟨behind, whole, named, _⟩ := Text.exists_takeWhile isAttributeNameChar rest
  obtain ⟨value, back, rfl, length, open_⟩ := exists_pieceValue behind
  generalize rest.takeWhile isAttributeNameChar = name at whole named
  subst whole
  refine ⟨value, back, (List.append_assoc _ _ _).symm, ?_, ?_⟩
  · rw [List.drop_left, length, List.length_append]
  · cases value with
    | nil =>
      rw [List.append_nil]
      apply EndsOpen.of_forall
      intro d member
      rintro rfl
      rcases List.mem_cons.1 member with rfl | member
      · exact absurd starts (by decide)
      · exact absurd (named '>' member) (by decide)
    | cons d value => exact open_.behind (List.cons_ne_nil d value) _

/-- The pieces stand in a text that starts at a mark, one behind the other and each with its name first, and
their extents are where they stand. -/
inductive PiecesIn : Mark → Text → List (Text × Extent) → Prop
  | nil {m : Mark} {t : Text} : PiecesIn m t []
  | cons {m : Mark} {t front name value back : Text} {pieces : List (Text × Extent)}
      (whole : t = front ++ (name ++ value ++ back)) (some_ : name ≠ []) (open_ : EndsOpen (name ++ value))
      (more : PiecesIn (m.after (front ++ (name ++ value))) back pieces) :
      PiecesIn m t ((name, .ofMark (m.after front) (m.after (front ++ (name ++ value))).offset) :: pieces)

namespace PiecesIn

variable {pieces : List (Text × Extent)} {front : Text}

theorem behind (here : PiecesIn (m.after front) t pieces) : PiecesIn m (front ++ t) pieces := by
  cases here with
  | nil => exact .nil
  | cons whole some_ open_ more =>
    rw [← Mark.after_append] at more
    rw [← Mark.after_append, ← Mark.after_append]
    rw [← List.append_assoc] at more ⊢
    exact .cons (by simp only [whole, List.append_assoc]) some_ open_ more

/-- Every piece stands somewhere in the text, with its name first, and starts and ends there. -/
theorem written (here : PiecesIn m t pieces) : ∀ piece ∈ pieces, ∃ front value back,
    t = front ++ (piece.1 ++ value ++ back) ∧ piece.1 ≠ [] ∧ EndsOpen (piece.1 ++ value) ∧
      piece.2 = .ofMark (m.after front) (m.after (front ++ (piece.1 ++ value))).offset := by
  induction here with
  | nil => exact List.forall_mem_nil _
  | @cons m t front name value back pieces whole some_ open_ more ih =>
    refine List.forall_mem_cons.2 ⟨⟨front, value, back, whole, some_, open_, rfl⟩, fun piece member => ?_⟩
    obtain ⟨between, value', back', rfl, some_', open_', place⟩ := ih piece member
    refine ⟨front ++ (name ++ value) ++ between, value', back', ?_, some_', open_', ?_⟩
    · simp only [whole, List.append_assoc]
    · rw [place, List.append_assoc _ between, ← Mark.after_append, ← Mark.after_append]

theorem start_le (here : PiecesIn m t pieces) : ∀ piece ∈ pieces, (m.offset : Int) ≤ piece.2.start := by
  intro piece member
  obtain ⟨front, value, back, _, _, _, place⟩ := here.written piece member
  rw [place]
  exact Int.ofNat_le.2 (Nat.le_add_right _ _)

theorem forward (here : PiecesIn m t pieces) : ∀ piece ∈ pieces, piece.2.start ≤ piece.2.stop := by
  intro piece member
  obtain ⟨front, value, back, _, _, _, place⟩ := here.written piece member
  rw [place, Mark.after_append]
  exact Int.ofNat_le.2 (Nat.le_add_right _ _)

/-- A piece ends before the next ones start. -/
theorem apart (here : PiecesIn m t pieces) : pieces.Pairwise fun a b => a.2.stop ≤ b.2.start := by
  induction here with
  | nil => exact .nil
  | cons _ _ _ more ih => exact .cons more.start_le ih

end PiecesIn

/-- The search finds pieces that stand in the text. -/
theorem attributePieces_in (m : Mark) (t : Text) : PiecesIn m t (attributePieces m t) := by
  fun_induction attributePieces m t with
  | case1 => exact .nil
  | case2 m c rest starts name used ih =>
    obtain ⟨value, back, whole, length, open_⟩ := exists_piece starts rest
    change PiecesIn (m.after (c :: rest.take used)) _ _ at ih
    have used_ : used = (name ++ value).length := length
    have whole_ : rest = name ++ value ++ back := whole
    have taken : rest.take used = name ++ value := by rw [used_, whole_, List.take_left]
    have left_ : rest.drop used = back := by rw [used_, whole_, List.drop_left]
    have stop : m.offset + used + 1 = (m.after ([] ++ (c :: name ++ value))).offset := by
      rw [used_]
      exact Nat.add_assoc _ _ _
    rw [taken, left_] at ih
    rw [stop, left_, taken]
    refine @PiecesIn.cons m _ [] (c :: name) value back _ ?_ (List.cons_ne_nil c name) open_ ih
    rw [whole_]
    rfl
  | case3 m c rest other ih => exact ih.behind

/-- An attribute of a tag that starts at a mark: something of the tag is before it and something behind it,
and it starts with its name, in whatever case. -/
def AttributeIn (m : Mark) (tag : Text) (name : String) (e : Extent) : Prop :=
  ∃ front written value back, tag = front ++ (written ++ value) ++ back ∧ front ≠ [] ∧ written ≠ [] ∧ back ≠ [] ∧
    Text.lowerName written = name ∧ e = .ofMark (m.after front) ((m.after front).after (written ++ value)).offset

/-- A tag is searched for attributes from behind its first word on. -/
theorem attributeExtents_behind {word rest : Text}
    (dark : ∀ c ∈ word, (!(isBlank c || c = '/' || c = '>')) = true)
    (stop : Text.StopsAt (fun c => !(isBlank c || c = '/' || c = '>')) rest) (m : Mark) :
    attributeExtents m ('<' :: (word ++ rest)) = OrderedMap.insertAllNew []
      ((attributePieces (m.after ('<' :: word)) rest).map fun piece => (Text.lowerName piece.1, piece.2)) := by
  unfold attributeExtents
  dsimp only
  rw [List.tail_cons, Text.takeWhile_append_stop dark stop, Nat.add_comm, List.take_succ_cons, List.take_left,
    List.drop_succ_cons, List.drop_left]

/-- A start tag is searched for attributes up to its bracket. -/
theorem exists_attributeExtents {name : String} {tag : Text} (reads : IsStartTag name tag) (m : Mark) :
    ∃ front inner, tag = front ++ (inner ++ ['>']) ∧ front ≠ [] ∧ attributeExtents m tag =
      OrderedMap.insertAllNew [] ((attributePieces (m.after front) (inner ++ ['>'])).map fun piece =>
        (Text.lowerName piece.1, piece.2)) := by
  obtain ⟨written, rest, rfl, _⟩ := reads
  obtain ⟨behind, whole, dark, stop⟩ :=
    Text.exists_takeWhile (fun c => !(isBlank c || c = '/' || c = '>')) (written ++ rest ++ ['>'])
  generalize (written ++ rest ++ ['>']).takeWhile (fun c => !(isBlank c || c = '/' || c = '>')) = word
    at whole dark
  have more : behind ≠ [] := by
    rintro rfl
    have inside : '>' ∈ word := by
      rw [← List.append_nil word, ← whole]
      exact List.mem_append_right _ (List.mem_singleton_self _)
    exact absurd (dark '>' inside) (by decide)
  have last := congrArg List.getLast? whole
  rw [List.getLast?_concat, List.getLast?_append_of_ne_nil word more] at last
  obtain ⟨inner, rfl⟩ := List.getLast?_eq_some_iff.1 last.symm
  rw [List.cons_append, List.cons_append, whole]
  exact ⟨'<' :: word, inner, rfl, List.cons_ne_nil _ _, attributeExtents_behind dark stop m⟩

/-- The attributes that are found in a start tag stand in it, behind its first bracket and before its last. -/
theorem attributeExtents_in {name : String} {tag : Text} (reads : IsStartTag name tag) (m : Mark) :
    ∀ entry ∈ attributeExtents m tag, AttributeIn m tag entry.1 entry.2 := by
  intro entry member
  obtain ⟨front, inner, whole, some_, found⟩ := exists_attributeExtents reads m
  rw [found] at member
  rcases OrderedMap.mem_insertAllNew member with none | member
  · cases none
  · obtain ⟨piece, inside, rfl⟩ := List.mem_map.1 member
    obtain ⟨between, value, back, split_, named, open_, place⟩ := (attributePieces_in _ _).written piece inside
    refine ⟨front ++ between, piece.1, value, back, by simp only [whole, split_, List.append_assoc],
      List.append_ne_nil_of_left_ne_nil some_ _, named, ?_, rfl, ?_⟩
    · rintro rfl
      have whole := split_.trans (List.append_assoc _ _ _).symm
      have bound : (between ++ (piece.1 ++ value)).length ≤ inner.length :=
        open_.length_lt (List.append_ne_nil_of_left_ne_nil named value) whole
      have length := congrArg List.length split_
      simp only [List.length_append, List.length_singleton, List.length_nil] at bound length
      omega
    · rw [place, ← Mark.after_append, ← Mark.after_append, ← Mark.after_append, List.append_assoc]

/-- The attributes that are found in a start tag do not overlap, and they are found in the order in which they
stand there. -/
theorem attributeExtents_apart (m : Mark) (tag : Text) :
    (attributeExtents m tag).Pairwise fun a b => a.2.stop ≤ b.2.start := by
  apply List.Pairwise.sublist (OrderedMap.insertAllNew_sublist [] _)
  rw [List.nil_append, List.pairwise_map]
  exact (attributePieces_in _ _).apart

end LocatedHtml
