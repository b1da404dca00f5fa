import LocatedHtml.Proofs.Lexing.AttributePieces

/-!
Start tags whose attributes are written in one of the usual ways: names that start with neither a quote nor
an equals sign, values in quotes that are closed, or without quotes and blanks. A start tag is searched for
attributes twice, when it is read and when its attributes are located, and in these both searches find the
same names.
-/

namespace LocatedHtml

/-- A text that both searches take for the name of an attribute. -/
def IsUsualName (name : Text) : Prop :=
  ∃ c rest, name = c :: rest ∧ startsPiece c = true ∧ ∀ d ∈ rest, isAttributeNameChar d = true

/-- What stands behind an equals sign and starts with one of these is no value without quotes. -/
def spoilsBareValue (c : Char) : Bool := isBlank c || isQuote c

/-- What is written for a value behind the name of an attribute, with what comes behind the value. -/
inductive UsualValue : Text → Text → Prop
  /-- Nothing is written for it. -/
  | none {rest : Text} (stop : Text.StopsAt isAttributeNameChar rest) : UsualValue [] rest
  /-- The value stands in quotes that are closed. -/
  | quoted {before between value rest : Text} {quote : Char} (front : ∀ c ∈ before, isBlank c = true)
      (inner : ∀ c ∈ between, isBlank c = true) (quotes : isQuote quote = true) (apart : quote ∉ value) :
      UsualValue (before ++ '=' :: (between ++ quote :: (value ++ [quote]))) rest
  /-- The value goes on to a blank or a bracket, and may be empty. -/
  | bare {before between value rest : Text} (front : ∀ c ∈ before, isBlank c = true)
      (inner : ∀ c ∈ between, isBlank c = true) (all : ∀ c ∈ value, isBareValueChar c = true)
      (stop : Text.StopsAt isBareValueChar rest) (first : Text.StopsAt spoilsBareValue (value ++ rest))
      (single : Text.StopsAt (· == '=') (between ++ (value ++ rest))) :
      UsualValue (before ++ '=' :: (between ++ value)) rest

/-- The rest of a start tag behind its name, with the names of the attributes in it. -/
inductive UsualAttributes : Text → List Text → Prop
  | close : UsualAttributes ['>'] []
  | separator {c : Char} {rest : Text} {names : List Text} (separates : isBlank c = true ∨ c = '/')
      (more : UsualAttributes rest names) : UsualAttributes (c :: rest) names
  | entry {name value rest : Text} {names : List Text} (named : IsUsualName name)
      (valued : UsualValue value rest) (more : UsualAttributes rest names) :
      UsualAttributes (name ++ (value ++ rest)) (name :: names)

/-- A start tag with the names of its attributes. Its own name ends where both searches take it to end. -/
inductive UsualTag : Text → List Text → Prop
  | mk {name rest : Text} {names : List Text}
      (front : ∀ c ∈ name, isTagNameChar c = true ∧ isBlank c = false)
      (ends : ∀ c ∈ rest.head?, isTagNameChar c = false ∧ c ≠ '\x00')
      (attributes : UsualAttributes rest names) : UsualTag ('<' :: (name ++ rest)) names

variable {t rest value after : Text} {c : Char} {names : List Text}

theorem startsPiece_iff : startsPiece c = true ↔
    isBlank c = false ∧ c ≠ '/' ∧ c ≠ '>' ∧ c ≠ '=' ∧ isQuote c = false := by
  simp only [startsPiece, Bool.not_eq_true', Bool.or_eq_false_iff, decide_eq_false_iff_not]
  tauto

theorem isAttributeNameChar_of_startsPiece (starts : startsPiece c = true) :
    isAttributeNameChar c = true := by
  obtain ⟨dark, slash, bracket, equals, _⟩ := startsPiece_iff.1 starts
  simp [isAttributeNameChar, dark, slash, bracket, equals]

theorem isBareValueChar_of_startsPiece (starts : startsPiece c = true) : isBareValueChar c = true := by
  obtain ⟨dark, _, bracket, _⟩ := startsPiece_iff.1 starts
  simp [isBareValueChar, dark, bracket]

namespace UsualAttributes

/-- The first character that is not blank is no equals sign. -/
theorem exists_dark (usual : UsualAttributes rest names) :
    ∃ blanks c tail, rest = blanks ++ c :: tail ∧ (∀ d ∈ blanks, isBlank d = true) ∧
      isBlank c = false ∧ c ≠ '=' := by
  induction usual with
  | close => exact ⟨[], '>', [], rfl, List.forall_mem_nil _, by decide, by decide⟩
  | @separator c rest names separates _ ih =>
    by_cases blank : isBlank c = true
    · obtain ⟨blanks, d, tail, whole, all, dark, other⟩ := ih
      exact ⟨c :: blanks, d, tail, by rw [whole, List.cons_append], List.forall_mem_cons.2 ⟨blank, all⟩,
        dark, other⟩
    · obtain rfl := separates.resolve_left blank
      exact ⟨[], '/', rest, rfl, List.forall_mem_nil _, by decide, by decide⟩
  | @entry name value rest names named _ _ _ =>
    obtain ⟨c, tail, rfl, starts, _⟩ := named
    obtain ⟨dark, _, _, equals, _⟩ := startsPiece_iff.1 starts
    exact ⟨[], c, tail ++ (value ++ rest), rfl, List.forall_mem_nil _, dark, equals⟩

theorem ne_nil (usual : UsualAttributes rest names) : rest ≠ [] := by
  obtain ⟨blanks, c, tail, rfl, _⟩ := usual.exists_dark
  simp

/-- A closing bracket ends the tag. -/
theorem names_eq_nil (usual : UsualAttributes rest names) (bracket : rest.head? = some '>') : names = [] := by
  cases usual with
  | close => rfl
  | separator separates =>
    cases bracket
    exact absurd separates (by decide)
  | entry named =>
    obtain ⟨c, tail, rfl, starts, _⟩ := named
    cases bracket
    exact absurd starts (by decide)

end UsualAttributes

theorem spoilsBareValue_eq_false : spoilsBareValue c = false ↔ isBlank c = false ∧ isQuote c = false :=
  Bool.or_eq_false_iff

namespace UsualValue

variable (valued : UsualValue value rest) (usual : UsualAttributes rest names)

include valued

/-- An attribute that comes behind the value without a separator comes behind a quote. -/
theorem last (starts : rest.head?.any startsPiece = true) : value.getLast?.any isQuote = true := by
  have stops {p : Char → Bool} (stop : Text.StopsAt p rest)
      (implies : ∀ c, startsPiece c = true → p c = true) : False := by
    obtain ⟨c, first, starts⟩ := Option.any_eq_true _ _ |>.1 starts
    have holds := implies c starts
    rw [stop c first] at holds
    cases holds
  cases valued with
  | none stop => exact (stops stop fun _ => isAttributeNameChar_of_startsPiece).elim
  | quoted front inner quotes apart => simpa [List.getLast?_append, List.getLast?_cons] using quotes
  | bare front inner all stop first => exact (stops stop fun _ => isBareValueChar_of_startsPiece).elim

include usual

/-- The name of an attribute ends where its value is written. -/
theorem stopsAt (after : Text) : Text.StopsAt isAttributeNameChar (value ++ (rest ++ after)) := by
  have equals {before : Text} (front : ∀ c ∈ before, isBlank c = true) (behind : Text) :
      Text.StopsAt isAttributeNameChar (before ++ '=' :: behind) := by
    cases before with
    | nil => exact Text.stopsAt_cons (by decide) _
    | cons c before =>
      refine Text.stopsAt_cons ?_ _
      simp [isAttributeNameChar, front c List.mem_cons_self]
  cases valued with
  | none stop => exact stop.append usual.ne_nil after
  | quoted front inner quotes apart =>
    rw [List.append_assoc]
    exact equals front _
  | bare front inner all stop first =>
    rw [List.append_assoc]
    exact equals front _

/-- The search of a tag that is read goes over the value to its end. -/
theorem attributeValue?_length (after : Text) :
    ((attributeValue? (value ++ (rest ++ after))).map Prod.snd).getD 0 = value.length := by
  cases valued with
  | none stop =>
    obtain ⟨blanks, c, tail, rfl, all, dark, other⟩ := usual.exists_dark
    have count := Text.blankCount_append_stop all (Text.stopsAt_cons dark (tail ++ after))
    have absent : attributeValue? (blanks ++ c :: (tail ++ after)) = Option.none := by
      simp [attributeValue?, count, other]
    rw [List.nil_append, List.append_assoc, List.cons_append, absent]
    rfl
  | @quoted before between value rest quote front inner quotes apart =>
    have whole : before ++ '=' :: (between ++ quote :: (value ++ [quote])) ++ (rest ++ after) =
        before ++ '=' :: (between ++ quote :: (value ++ quote :: (rest ++ after))) := by simp
    rw [whole, attributeValue?_quote front inner quotes apart]
    simp only [Option.map_some, Option.getD_some, List.length_append, List.length_cons, List.length_nil]
    omega
  | @bare before between value rest front inner all stop first single =>
    have whole : before ++ '=' :: (between ++ value) ++ (rest ++ after) =
        before ++ '=' :: (between ++ (value ++ rest ++ after)) := by simp
    have some_ : value ++ rest ≠ [] := by simp [usual.ne_nil]
    have taken : (value ++ rest ++ after).takeWhile isBareValueChar = value := by
      rw [List.append_assoc]
      exact Text.takeWhile_append_stop all (stop.append usual.ne_nil after)
    have single := single.append (by simp [usual.ne_nil]) after
    rw [List.append_assoc] at single
    obtain ⟨c, tail, shape⟩ := List.exists_cons_of_ne_nil some_
    rw [shape] at first taken single whole
    obtain ⟨dark, unquoted⟩ := spoilsBareValue_eq_false.1 (first c rfl)
    have dark : Text.StopsAt isBlank (c :: tail ++ after) := Text.stopsAt_cons dark _
    rw [whole, attributeValue?_equals front inner dark single, List.cons_append, valueAfterEquals?, unquoted,
      ← List.cons_append, taken]
    simp only [Bool.false_eq_true, if_false, Option.map_some, Option.getD_some, List.length_append,
      List.length_cons]
    omega

/-- The search for attribute pieces goes over the value, but for an equals sign with nothing behind it. -/
theorem pieceValueLength_eq : ∃ kept skipped, value = kept ++ skipped ∧
    pieceValueLength (value ++ rest) = kept.length ∧ ∀ c ∈ skipped, startsPiece c = false := by
  cases valued with
  | none stop =>
    obtain ⟨blanks, c, tail, rfl, all, dark, other⟩ := usual.exists_dark
    have count := Text.blankCount_append_stop all (Text.stopsAt_cons dark tail)
    refine ⟨[], [], rfl, ?_, List.forall_mem_nil _⟩
    simp [pieceValueLength, count, other]
  | @quoted before between value rest quote front inner quotes apart =>
    have whole : before ++ '=' :: (between ++ quote :: (value ++ [quote])) ++ rest =
        before ++ '=' :: (between ++ quote :: (value ++ quote :: rest)) := by simp
    refine ⟨_, [], (List.append_nil _).symm, ?_, List.forall_mem_nil _⟩
    rw [whole, pieceValueLength_quote front inner quotes apart]
    simp only [List.length_append, List.length_cons, List.length_nil]
    omega
  | @bare before between value rest front inner all stop first _ =>
    have whole : before ++ '=' :: (between ++ value) ++ rest =
        before ++ '=' :: (between ++ (value ++ rest)) := by simp
    have taken : (value ++ rest).takeWhile isBareValueChar = value := Text.takeWhile_append_stop all stop
    obtain ⟨c, tail, shape⟩ := List.exists_cons_of_ne_nil (l := value ++ rest) (by simp [usual.ne_nil])
    rw [shape] at first taken
    obtain ⟨dark, unquoted⟩ := spoilsBareValue_eq_false.1 (first c rfl)
    have length := pieceValueLength_equals (t := tail) front inner (Text.stopsAt_cons dark _)
    rw [unquoted, taken] at length
    rw [whole, shape, length]
    cases value with
    | nil =>
      refine ⟨[], before ++ '=' :: (between ++ []), rfl, by simp, ?_⟩
      have blank {d : Char} (blank : isBlank d = true) : startsPiece d = false := by simp [startsPiece, blank]
      rw [List.append_nil, List.forall_mem_append, List.forall_mem_cons]
      exact ⟨fun d member => blank (front d member), by decide, fun d member => blank (inner d member)⟩
    | cons d value =>
      refine ⟨_, [], (List.append_nil _).symm, ?_, List.forall_mem_nil _⟩
      simp only [Bool.false_and, Bool.false_eq_true, if_false, List.length_append, List.length_cons,
        Nat.add_eq_zero_iff, Nat.one_ne_zero, and_false]
      omega

end UsualValue

/-- An attribute can follow the character when the tag is read. -/
def separates (c : Char) : Bool := isBlank c || c = '/' || isQuote c

theorem startsAttribute_of_startsPiece {previous : Char} (free : separates previous = true)
    (starts : startsPiece c = true) : startsAttribute previous c = true := by
  obtain ⟨dark, slash, bracket, _⟩ := startsPiece_iff.1 starts
  have free : (isBlank previous || previous = '/' || isQuote previous) = true := free
  rw [startsAttribute, free]
  simp [dark, slash, bracket]

theorem scanAttributes_stops {previous : Char} (ends : startsAttribute previous c = false) (t : Text) :
    scanAttributes previous (c :: t) = ([], 0) := by
  rw [scanAttributes.eq_def]
  dsimp only
  rw [if_neg (by simp [ends])]

theorem attributePieces_skip {skipped : Text} (none : ∀ c ∈ skipped, startsPiece c = false) (m : Mark)
    (t : Text) : ∃ m', attributePieces m (skipped ++ t) = attributePieces m' t := by
  induction skipped generalizing m with
  | nil => exact ⟨m, rfl⟩
  | cons c skipped ih =>
    rw [List.forall_mem_cons] at none
    obtain ⟨m', same⟩ := ih none.2 (m.after [c])
    refine ⟨m', ?_⟩
    rw [List.cons_append, attributePieces.eq_def]
    dsimp only
    rw [if_neg (by simp [none.1]), same]

namespace UsualAttributes

/-- The search of a tag that is read finds the names, behind some text of the tag and the separators there. -/
theorem scan_names (usual : UsualAttributes rest names) (before after : Text) (first : Char)
    (free : rest.head?.any startsPiece = true → separates (before.getLastD first) = true) :
    (scanAttributes
      (((before ++ (rest ++ after)).take (before.length + separatorCount (rest ++ after))).getLastD first)
      ((rest ++ after).drop (separatorCount (rest ++ after)))).1.map WrittenAttribute.name = names := by
  induction usual generalizing before first with
  | close =>
    have none : separatorCount (['>'] ++ after) = 0 := rfl
    rw [none, List.drop_zero, List.cons_append, scanAttributes_stops (by simp [startsAttribute])]
    rfl
  | @separator c rest names blankOrSlash more ih =>
    rw [List.cons_append, separatorCount]
    split
    · have behind : before ++ c :: (rest ++ after) = before ++ [c] ++ (rest ++ after) := by simp
      have length : before.length + (separatorCount (rest ++ after) + 1) =
          (before ++ [c]).length + separatorCount (rest ++ after) := by
        rw [List.length_append, List.length_singleton]
        omega
      rw [List.drop_succ_cons, behind, length]
      refine ih (before ++ [c]) first fun _ => ?_
      rcases blankOrSlash with blank | rfl <;> simp [separates, *]
    · next last =>
      -- This is the slash of a tag that closes itself.
      simp only [Bool.or_eq_true, Bool.and_eq_true, decide_eq_true_eq, bne_iff_ne, ne_eq, not_or, not_and,
        not_not] at last
      obtain rfl := blankOrSlash.resolve_left last.1
      have bracket : rest.head? = some '>' := by
        rw [← last.2 rfl, List.head?_append_of_ne_nil _ more.ne_nil]
      rw [List.drop_zero, scanAttributes_stops (by simp [startsAttribute]), more.names_eq_nil bracket]
      rfl
  | @entry name value rest names named valued more ih =>
    obtain ⟨c, tail, rfl, starts, all⟩ := named
    obtain ⟨dark, slash, _⟩ := startsPiece_iff.1 starts
    have whole : c :: tail ++ (value ++ rest) ++ after = c :: (tail ++ (value ++ (rest ++ after))) := by simp
    have none : separatorCount (c :: (tail ++ (value ++ (rest ++ after)))) = 0 := by
      simp [separatorCount, dark, slash]
    have opens := startsAttribute_of_startsPiece (free starts) starts
    rw [whole, none, Nat.add_zero, List.take_left, List.drop_zero, scanAttributes.eq_def]
    dsimp only
    rw [if_pos opens, Text.takeWhile_append_stop all (valued.stopsAt more after), List.drop_left,
      valued.attributeValue?_length more after, List.map_cons]
    -- The next search goes on behind the value, and has a quote before it where it starts at once.
    have behind : tail ++ (value ++ (rest ++ after)) = tail ++ value ++ (rest ++ after) := by simp
    have length : tail.length + value.length = (tail ++ value).length := List.length_append.symm
    have more_ := ih (tail ++ value) c fun starts => by
      have quote := valued.last starts
      cases last : value.getLast? with
      | none =>
        rw [last] at quote
        cases quote
      | some q =>
        rw [last] at quote
        have quote : isQuote q = true := quote
        rw [List.getLastD_eq_getLast?, List.getLast?_append, last]
        simp [separates, quote]
    rw [behind, length, List.drop_left, ← List.drop_drop, List.drop_left, more_]

/-- The search for attribute pieces finds the names. -/
theorem piece_names (usual : UsualAttributes rest names) (m : Mark) :
    (attributePieces m rest).map Prod.fst = names := by
  induction usual generalizing m with
  | close =>
    have passed : startsPiece '>' = false := by decide
    obtain ⟨m', same⟩ := attributePieces_skip (List.forall_mem_singleton.2 passed) m []
    rw [List.append_nil] at same
    rw [same, attributePieces.eq_def]
    rfl
  | @separator c rest names blankOrSlash more ih =>
    have passed : startsPiece c = false := by
      rcases blankOrSlash with blank | rfl
      · simp [startsPiece, blank]
      · decide
    obtain ⟨m', same⟩ := attributePieces_skip (List.forall_mem_singleton.2 passed) m rest
    rw [← List.singleton_append, same, ih]
  | @entry name value rest names named valued more ih =>
    obtain ⟨c, tail, rfl, starts, all⟩ := named
    have stop := valued.stopsAt more []
    rw [List.append_nil] at stop
    obtain ⟨kept, skipped, rfl, length, skips⟩ := valued.pieceValueLength_eq more
    have behind : (tail ++ (kept ++ skipped ++ rest)).drop (tail.length + kept.length) = skipped ++ rest := by
      rw [← List.drop_drop, List.drop_left, List.append_assoc, List.drop_left]
    obtain ⟨m', same⟩ := attributePieces_skip skips
      (m.after (c :: (tail ++ (kept ++ skipped ++ rest)).take (tail.length + kept.length))) rest
    rw [List.cons_append, attributePieces.eq_def]
    dsimp only
    rw [if_pos starts, Text.takeWhile_append_stop all stop, List.drop_left, length, behind, List.map_cons, same,
      ih]

end UsualAttributes

theorem blank_or_mark_of_ends (ends : isTagNameChar c = false) (other : c ≠ '\x00') :
    (isBlank c || c = '/' || c = '>') = true := by
  simp only [isTagNameChar, Bool.not_eq_false', Bool.or_eq_true, decide_eq_true_eq, other, or_false] at ends
  rcases ends with (((((rfl | rfl) | rfl) | rfl) | rfl) | rfl) | rfl <;> decide

namespace UsualTag

variable {raw : Text}

/-- The attributes that are read from the tag have the names, whatever comes behind it. -/
theorem scan_names (usual : UsualTag raw names) {tag name : Text} {written : List WrittenAttribute}
    {selfClosing : Bool} {length : Nat} (shape : raw = '<' :: tag)
    (complete : scanStartTag (tag ++ after) = .complete name written selfClosing length) :
    written.map WrittenAttribute.name = names := by
  have scans := scanStartTag_scans complete
  obtain ⟨rfl, _⟩ := scanStartTag_complete complete
  obtain @⟨name, rest, names, front, ends, attributes⟩ := usual
  obtain rfl : name ++ rest = tag := List.tail_eq_of_cons_eq shape
  have stop : Text.StopsAt isTagNameChar (rest ++ after) :=
    Text.StopsAt.append (fun c first => (ends c first).1) attributes.ne_nil after
  rw [List.append_assoc, Text.takeWhile_append_stop (fun c member => (front c member).1) stop] at scans
  dsimp only at scans
  rw [List.drop_left, ← List.drop_drop, List.drop_left] at scans
  rw [scans]
  refine attributes.scan_names name after '<' fun starts => ?_
  -- An attribute directly behind the name would have belonged to it.
  obtain ⟨c, first, starts⟩ := (Option.any_eq_true _ _).1 starts
  obtain ⟨dark, slash, bracket, _⟩ := startsPiece_iff.1 starts
  have apart := blank_or_mark_of_ends (ends c first).1 (ends c first).2
  simp [dark, slash, bracket] at apart

/-- So have the attributes that are located in it. -/
theorem keys_attributeExtents (usual : UsualTag raw names) (m : Mark) {entries : List (String × Text)}
    (same : entries.map Prod.fst = names.map Text.lowerName) :
    (attributeExtents m raw).keys = (OrderedMap.insertAllNew [] entries).keys := by
  obtain @⟨name, rest, names, front, ends, attributes⟩ := usual
  have dark : ∀ c ∈ name, (!(isBlank c || c = '/' || c = '>')) = true := by
    intro c member
    obtain ⟨inner, dark⟩ := front c member
    simp only [isTagNameChar, Bool.not_eq_true', Bool.or_eq_false_iff, decide_eq_false_iff_not] at inner
    simp [dark, inner]
  have stop : Text.StopsAt (fun c => !(isBlank c || c = '/' || c = '>')) rest := by
    intro c first
    dsimp only
    rw [blank_or_mark_of_ends (ends c first).1 (ends c first).2]
    rfl
  rw [attributeExtents_behind dark stop]
  refine @OrderedMap.keys_insertAllNew_congr Extent Text [] [] rfl _ entries ?_
  rw [same, ← attributes.piece_names, List.map_map, List.map_map]
  rfl

end UsualTag

end LocatedHtml
