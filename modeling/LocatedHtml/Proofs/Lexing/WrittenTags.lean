import LocatedHtml.Markup.Written
import LocatedHtml.Proofs.Lexing.Escapes
import LocatedHtml.Proofs.Lexing.Pieces
import LocatedHtml.Proofs.Lexing.Values

/-!
Written tags are read as the tags that they were written for.
-/

namespace LocatedHtml

/-- The attributes of a start tag, each behind a blank. -/
def writtenAttributes (attributes : OrderedMap Text) : Text :=
  attributes.flatMap fun (key, value) => ' ' :: key.toList ++ '=' :: quotedValue value

theorem writtenStartTag_eq (name : String) (attributes : OrderedMap Text) (rest : Text) :
    writtenStartTag name attributes ++ rest =
      '<' :: (name.toList ++ (writtenAttributes attributes ++ '>' :: rest)) := by
  simp only [writtenStartTag, writtenAttributes, List.cons_append, List.append_assoc,
    List.nil_append]

theorem writtenAttributes_cons (key : String) (value : Text) (more : OrderedMap Text) :
    writtenAttributes ((key, value) :: more) =
      ' ' :: (key.toList ++ '=' :: (quotedValue value ++ writtenAttributes more)) := by
  simp only [writtenAttributes, List.flatMap_cons, List.cons_append, List.append_assoc]

theorem attributeValue?_quoted (value rest : Text) :
    ∃ inner, attributeValue? ('=' :: (quotedValue value ++ rest)) =
        some (inner, (quotedValue value).length + 1) ∧ decodeReferences inner = .ok value := by
  obtain ⟨quote, inner, written, quotes, apart, back⟩ := quotedValue_eq value
  have read := attributeValue?_quote (List.forall_mem_nil _) (List.forall_mem_nil _) quotes apart rest
  have whole : quotedValue value ++ rest = quote :: (inner ++ quote :: rest) := by
    rw [written, List.append_assoc, List.cons_append, List.singleton_append]
  have length : (quotedValue value).length = inner.length + 2 := by
    rw [written, List.length_append, List.length_cons, List.length_singleton]
  refine ⟨inner, ?_, back⟩
  rw [whole, length]
  exact read.trans (by simp; omega)

theorem separatorCount_bracket (rest : Text) : separatorCount ('>' :: rest) = 0 := rfl

theorem separatorCount_attribute {key : String} (named : IsAttributeName key) (rest : Text) :
    separatorCount (' ' :: (key.toList ++ rest)) = 1 := by
  have first := named.first
  cases written : key.toList with
  | nil =>
    rw [written] at first
    cases first
  | cons c tail =>
    rw [written] at first
    have starts : startsAttributeName c = true := first
    simp only [startsAttributeName, Bool.not_eq_true', Bool.or_eq_false_iff,
      decide_eq_false_iff_not] at starts
    have blank : isBlank ' ' = true := by decide
    simp only [List.cons_append, separatorCount, blank, starts.1.1, starts.1.2, Bool.true_or, if_true,
      decide_false, Bool.false_and, Bool.or_self, Bool.false_eq_true, if_false]

theorem decodeAttributes_cons {name : Text} {inner value : Text} {key : String}
    {ws : List WrittenAttribute} {more : List (String × Text)} (lower : Text.lowerName name = key)
    (back : decodeReferences inner = .ok value) (later : decodeAttributes ws = .ok more) :
    decodeAttributes (⟨name, some inner⟩ :: ws) = .ok ((key, value) :: more) := by
  unfold decodeAttributes at later ⊢
  rw [List.mapM_cons, later]
  simp only [Option.getD_some, back, lower]
  rfl

/-- The first of written attributes is read up to the end of its value, and the others behind it. -/
theorem scanAttributes_attribute {key : String} (named : IsAttributeName key) (value rest : Text) :
    ∃ c tail inner, key.toList = c :: tail ∧ decodeReferences inner = .ok value ∧
      ∀ front, front = tail ++ '=' :: quotedValue value →
        ∀ ws n, scanAttributes (((front ++ rest).take (front.length + separatorCount rest)).getLastD c)
            (rest.drop (separatorCount rest)) = (ws, n) →
          scanAttributes ' ' (key.toList ++ '=' :: (quotedValue value ++ rest)) =
            (⟨key.toList, some inner⟩ :: ws, front.length + separatorCount rest + 1 + n) := by
  obtain ⟨inner, valued, back⟩ := attributeValue?_quoted value rest
  have starts := named.first
  have all := named.rest
  cases written : key.toList with
  | nil =>
    rw [written] at starts
    cases starts
  | cons c tail =>
    rw [written] at starts all
    refine ⟨c, tail, inner, rfl, back, fun front shape ws n scanned => ?_⟩
    have opens : startsAttribute ' ' c = true := by
      have blank : isBlank ' ' = true := by decide
      rw [startsAttribute, blank]
      exact starts
    have stop : Text.StopsAt isAttributeNameChar ('=' :: (quotedValue value ++ rest)) :=
      Text.stopsAt_cons (by decide) _
    have size : front.length = tail.length + ((quotedValue value).length + 1) := by
      rw [shape, List.length_append, List.length_cons]
    have whole : tail ++ '=' :: (quotedValue value ++ rest) = front ++ rest := by
      rw [shape, List.append_assoc, List.cons_append]
    have behindValue : (tail ++ '=' :: (quotedValue value ++ rest)).drop
        (tail.length + ((quotedValue value).length + 1)) = rest := by
      rw [whole, ← size, List.drop_left]
    rw [scanAttributes.eq_def]
    simp only [List.cons_append, List.tail_cons, opens, if_true] at all ⊢
    rw [Text.takeWhile_append_stop all stop, List.drop_left, valued]
    simp only [Option.map_some, Option.getD_some, behindValue]
    rw [← size, ← List.drop_drop, whole, List.drop_left, scanned]

/-- Written attributes are read up to the closing bracket, whatever stands before them. -/
theorem scanAttributes_written {attributes : OrderedMap Text}
    (named : ∀ entry ∈ attributes, IsAttributeName entry.1) (front : Text) (first : Char)
    {behind : Text} (rest : Text) (shape : behind = writtenAttributes attributes ++ '>' :: rest) :
    ∃ ws n, scanAttributes
        (((front ++ behind).take (front.length + separatorCount behind)).getLastD first)
        (behind.drop (separatorCount behind)) = (ws, n) ∧
      separatorCount behind + n = (writtenAttributes attributes).length ∧
      decodeAttributes ws = .ok attributes := by
  induction attributes generalizing front first behind with
  | nil =>
    have bracket : behind = '>' :: rest := shape
    have stop (previous : Char) : startsAttribute previous '>' = false := by
      simp [startsAttribute]
    rw [bracket, separatorCount_bracket, List.drop_zero, scanAttributes.eq_def]
    simp only [stop, Bool.false_eq_true, if_false]
    exact ⟨[], 0, rfl, rfl, rfl⟩
  | cons entry more ih =>
    obtain ⟨key, value⟩ := entry
    rw [List.forall_mem_cons] at named
    have separators := separatorCount_attribute named.1
      ('=' :: (quotedValue value ++ (writtenAttributes more ++ '>' :: rest)))
    simp only [writtenAttributes_cons, List.cons_append, List.append_assoc] at shape
    rw [← shape] at separators
    have previous : ((front ++ behind).take (front.length + 1)).getLastD first = ' ' := by
      rw [shape, List.take_length_add_append]
      simp
    obtain ⟨c, tail, inner, written, back, step⟩ :=
      scanAttributes_attribute named.1 value (writtenAttributes more ++ '>' :: rest)
    obtain ⟨ws, n, scanned, length, decoded⟩ := ih named.2 (tail ++ '=' :: quotedValue value) c rfl
    rw [separators, previous, shape, List.drop_succ_cons, List.drop_zero, step _ rfl ws n scanned]
    refine ⟨_, _, rfl, ?_, decodeAttributes_cons named.1.lower back decoded⟩
    simp only [writtenAttributes_cons, written, List.length_cons, List.length_append] at length ⊢
    omega

/-- Attributes that are read again as they are. -/
structure WritableAttributes (attributes : OrderedMap Text) : Prop where
  named : ∀ entry ∈ attributes, IsAttributeName entry.1
  distinct : attributes.keys.Nodup

theorem isTagNameChar_stops (attributes : OrderedMap Text) (rest : Text) :
    Text.StopsAt isTagNameChar (writtenAttributes attributes ++ '>' :: rest) := by
  cases attributes with
  | nil => exact Text.stopsAt_cons (by decide) rest
  | cons entry more =>
    obtain ⟨key, value⟩ := entry
    rw [writtenAttributes_cons]
    exact Text.stopsAt_cons (by decide) _

theorem scanStartTag_written {name : String} {attributes : OrderedMap Text} (tag : IsTagName name)
    (named : ∀ entry ∈ attributes, IsAttributeName entry.1) (rest : Text) :
    ∃ ws, scanStartTag (name.toList ++ (writtenAttributes attributes ++ '>' :: rest)) =
        .complete name.toList ws false (name.toList.length + (writtenAttributes attributes).length + 1) ∧
      decodeAttributes ws = .ok attributes := by
  obtain ⟨ws, n, scanned, length, decoded⟩ :=
    scanAttributes_written named name.toList '<' rest rfl
  refine ⟨ws, ?_, decoded⟩
  have behind : (name.toList ++ (writtenAttributes attributes ++ '>' :: rest)).drop
      (name.toList.length + (writtenAttributes attributes).length) = '>' :: rest := by
    rw [← List.drop_drop, List.drop_left, List.drop_left]
  unfold scanStartTag
  dsimp only
  rw [Text.takeWhile_append_stop tag.all (isTagNameChar_stops attributes rest), List.drop_left]
  rw [← List.drop_drop (j := name.toList.length), List.drop_left, scanned]
  dsimp only
  rw [Nat.add_assoc, length, behind]
  rfl

theorem foundStartTag_written {name : String} {attributes : OrderedMap Text} (tag : IsTagName name)
    (writable : WritableAttributes attributes) (rest : Text) :
    foundStartTag (name.toList ++ (writtenAttributes attributes ++ '>' :: rest)) =
      .ok (some ⟨.startTag name attributes false,
        name.toList.length + (writtenAttributes attributes).length + 1,
        if isRawText name then some name else none⟩) := by
  obtain ⟨ws, complete, decoded⟩ := scanStartTag_written tag writable.named rest
  unfold foundStartTag
  rw [complete]
  dsimp only
  rw [decoded, tag.lower]
  rfl

/-- An end tag without blanks in its name is read as one of this name. -/
theorem endTagToken_written {name : String} (tag : IsTagName name)
    (dark : ∀ c ∈ name.toList, isBlank c = false) : endTagToken name.toList = .endTag name := by
  unfold endTagToken
  split
  · next written plain =>
    obtain ⟨before, after, whole, front, back, _, _⟩ := plainEndName?_eq_some plain
    have nothing {blanks : Text} (all : ∀ c ∈ blanks, isBlank c = true)
        (inside : ∀ c ∈ blanks, c ∈ name.toList) : blanks = [] := by
      rw [List.eq_nil_iff_forall_not_mem]
      intro c member
      have blank := all c member
      rw [dark c (inside c member)] at blank
      cases blank
    have first : before = [] := by
      apply nothing front
      intro c member
      rw [whole]
      simp [member]
    have last : after = [] := by
      apply nothing back
      intro c member
      rw [whole]
      simp [member]
    rw [first, last, List.nil_append, List.append_nil] at whole
    rw [← whole, tag.lower]
  · have all : name.toList.takeWhile isTagNameChar = name.toList := by
      have taken := Text.takeWhile_append_stop tag.all (Text.stopsAt_nil (p := isTagNameChar))
      rwa [List.append_nil] at taken
    rw [if_pos tag.letter, all, tag.lower]

end LocatedHtml
