import LocatedHtml.Proofs.Lexing.Names
import Mathlib.Data.List.Forall2

/-!
The lexemes of a source follow one another from its start, and each is written the way that its meaning
says: a tag with its name behind the opening bracket and a closing bracket at the end, a declaration in
its brackets.
-/

namespace LocatedHtml

/-- The text is a start tag with a name that is the given one in lower case. -/
def IsStartTag (name : String) (raw : Text) : Prop :=
  ∃ written rest, raw = '<' :: written ++ rest ++ ['>'] ∧ Text.lowerName written = name ∧
    written ≠ [] ∧ (∀ c ∈ written, isTagNameChar c = true) ∧
    Text.StopsAt isTagNameChar (rest ++ ['>'])

/-- The text is an end tag with a name that is the given one in lower case, up to the first closing
bracket. -/
def IsEndTag (name : String) (raw : Text) : Prop :=
  ∃ blanks written rest, raw = '<' :: '/' :: blanks ++ written ++ rest ++ ['>'] ∧
    (∀ c ∈ blanks, isBlank c = true) ∧ Text.lowerName written = name ∧ written ≠ [] ∧
    '>' ∉ blanks ++ written ++ rest

/-- The text can have been read as the token. -/
def Token.Reads (raw : Text) : Token → Prop
  | .startTag name _ _ => IsStartTag name raw
  | .endTag name => IsEndTag name raw
  | .declaration value => raw = '<' :: '!' :: value ++ ['>']
  | .text _ | .comment _ | .instruction _ | .skipped => True

/-- The lexemes follow one another from the start of a text on. -/
inductive Chained : Mark → Text → List Lexeme → Prop
  | nil {start : Mark} {t : Text} : Chained start t []
  | cons {x : Lexeme} {rest : Text} {xs : List Lexeme} (nonempty : x.raw ≠ [])
      (reads : x.token.Reads x.raw) (more : Chained x.stop rest xs) :
      Chained x.start (x.raw ++ rest) (x :: xs)

variable {t : Text}

/-- The part of a text up to a place behind its name. -/
theorem exists_take_name {length : Nat} (longer : (t.takeWhile isTagNameChar).length ≤ length)
    {behind : Text} (stop : Text.StopsAt isTagNameChar behind) :
    ∃ rest, t.take length = t.takeWhile isTagNameChar ++ rest ∧
      Text.StopsAt isTagNameChar (rest ++ behind) := by
  obtain ⟨after, whole, _, stops⟩ := Text.exists_takeWhile isTagNameChar t
  refine ⟨after.take (length - (t.takeWhile isTagNameChar).length), ?_, ?_⟩
  · conv => lhs; rw [whole]
    rw [List.take_append, List.take_of_length_le longer]
  · cases taken : after.take (length - (t.takeWhile isTagNameChar).length) with
    | nil => exact stop
    | cons c rest =>
      have first : after.head? = some c := by
        cases after with
        | nil => rw [List.take_nil] at taken; cases taken
        | cons d after =>
          cases amount : length - (t.takeWhile isTagNameChar).length with
          | zero => rw [amount] at taken; cases taken
          | succ n => rw [amount] at taken; cases taken; rfl
      exact Text.stopsAt_cons (stops c first) _

/-- A complete start tag has its name in front and ends in a bracket, with or without a slash. -/
theorem scanStartTag_complete {name : Text} {attributes : List WrittenAttribute}
    {selfClosing : Bool} {length : Nat}
    (complete : scanStartTag t = .complete name attributes selfClosing length) :
    name = t.takeWhile isTagNameChar ∧ ∃ inner slash after, name.length ≤ inner ∧
      t.drop inner = slash ++ '>' :: after ∧ length = inner + slash.length + 1 ∧
      slash = if selfClosing then ['/'] else [] := by
  unfold scanStartTag at complete
  dsimp only at complete
  split at complete
  · next after drop =>
    injection complete with found _ plain measured
    subst found plain measured
    exact ⟨rfl, _, [], after, by omega, drop, rfl, rfl⟩
  · next after drop =>
    injection complete with found _ closing measured
    subst found closing measured
    exact ⟨rfl, _, ['/'], after, by omega, drop, rfl, rfl⟩
  · cases complete
  · split at complete <;> cases complete

/-- The attributes of a complete start tag stand behind its name and the separators there. -/
theorem scanStartTag_scans {name : Text} {attributes : List WrittenAttribute}
    {selfClosing : Bool} {length : Nat}
    (complete : scanStartTag t = .complete name attributes selfClosing length) :
    let used := name.length + separatorCount (t.drop name.length)
    attributes = (scanAttributes ((t.take used).getLastD '<') (t.drop used)).1 := by
  unfold scanStartTag at complete
  dsimp only at complete
  split at complete
  · injection complete with named found
    rw [← named, ← found]
  · injection complete with named found
    rw [← named, ← found]
  · cases complete
  · split at complete <;> cases complete

theorem scanStartTag_attributes {name : Text} {attributes : List WrittenAttribute}
    {selfClosing : Bool} {length : Nat}
    (complete : scanStartTag t = .complete name attributes selfClosing length) :
    ∃ previous used, attributes = (scanAttributes previous (t.drop used)).1 :=
  ⟨_, _, scanStartTag_scans complete⟩

theorem decodeAttributes_names {ws : List WrittenAttribute} {entries : List (String × Text)}
    (decoded : decodeAttributes ws = .ok entries) :
    entries.map Prod.fst = (ws.map WrittenAttribute.name).map Text.lowerName := by
  induction ws generalizing entries with
  | nil =>
    cases decoded
    rfl
  | cons w ws ih =>
    unfold decodeAttributes at decoded
    rw [List.mapM_cons] at decoded
    dsimp only [bind, Except.bind] at decoded
    split at decoded
    · cases decoded
    · next entry first =>
      split at decoded
      · cases decoded
      · next more later =>
        cases decoded
        split at first
        · cases first
        · cases first
          rw [List.map_cons, List.map_cons, List.map_cons, ih later]

theorem isStartTag_of_complete {name : Text} {attributes : List WrittenAttribute}
    {selfClosing : Bool} {length : Nat} (letter : t.head?.any isLetter = true)
    (complete : scanStartTag t = .complete name attributes selfClosing length) :
    IsStartTag (Text.lowerName name) ('<' :: t.take length) := by
  obtain ⟨rfl, inner, slash, after, longer, drop, rfl, closing⟩ := scanStartTag_complete complete
  have named : t.takeWhile isTagNameChar ≠ [] := by
    cases t with
    | nil => cases letter
    | cons c rest =>
      rw [List.takeWhile_cons_of_pos (isTagNameChar_of_isLetter letter)]
      exact List.cons_ne_nil _ _
  have stops : Text.StopsAt isTagNameChar (slash ++ ['>']) := by
    rw [closing]
    cases selfClosing <;> exact Text.stopsAt_cons (by decide) _
  obtain ⟨rest, taken, stop⟩ := exists_take_name longer stops
  have whole : t.take (inner + slash.length + 1) = t.take inner ++ slash ++ ['>'] := by
    rw [Nat.add_assoc, List.take_add, drop, List.append_assoc, List.take_length_add_append]
    rfl
  refine ⟨t.takeWhile isTagNameChar, rest ++ slash, ?_, rfl, named,
    fun c => List.mem_takeWhile_imp, ?_⟩
  · rw [whole, taken]
    simp
  · rwa [List.append_assoc]

theorem isPlainNameChar_of_isLetter {c : Char} (letter : isLetter c = true) :
    isPlainNameChar c = true := by
  simp only [isPlainNameChar, isSectionNameChar, letter, Bool.true_or]

theorem plainEndName?_eq_some {inner written : Text} (plain : plainEndName? inner = some written) :
    ∃ before after, inner = before ++ written ++ after ∧ (∀ c ∈ before, isBlank c = true) ∧
      (∀ c ∈ after, isBlank c = true) ∧ (∀ c ∈ written, isPlainNameChar c = true) ∧
      written.head?.any isLetter = true := by
  unfold plainEndName? at plain
  dsimp only at plain
  split at plain
  · next named =>
    injection plain with found
    rw [Bool.and_eq_true] at named
    obtain ⟨after, whole, all, _⟩ := Text.exists_takeWhile isPlainNameChar (inner.dropWhile isBlank)
    rw [found] at whole all
    have blank : (∀ c ∈ after, isBlank c = true) := by
      have behind := named.2
      rw [found] at behind
      conv at behind => lhs; rw [whole, List.drop_left]
      exact List.all_eq_true.1 behind
    refine ⟨inner.takeWhile isBlank, after, ?_, fun c => List.mem_takeWhile_imp, blank, all, ?_⟩
    · rw [List.append_assoc, ← whole, List.takeWhile_append_dropWhile]
    · rw [← found]
      cases behind : inner.dropWhile isBlank with
      | nil =>
        rw [behind] at named
        cases named.1
      | cons c rest =>
        rw [behind] at named
        rw [List.takeWhile_cons_of_pos (isPlainNameChar_of_isLetter named.1)]
        exact named.1
  · cases plain

theorem endTagToken_reads {inner : Text} (apart : '>' ∉ inner) :
    (endTagToken inner).Reads ('<' :: '/' :: inner ++ ['>']) := by
  unfold endTagToken
  split
  · next written plain =>
    obtain ⟨before, after, rfl, blank, _, _, letter⟩ := plainEndName?_eq_some plain
    refine ⟨before, written, after, by simp, blank, rfl, ?_, apart⟩
    rintro rfl
    cases letter
  · split
    · next letter =>
      obtain ⟨rest, whole, _, _⟩ := Text.exists_takeWhile isTagNameChar inner
      refine ⟨[], inner.takeWhile isTagNameChar, rest, ?_, by simp, rfl, ?_, ?_⟩
      · conv => lhs; rw [whole]
        simp
      · cases inner with
        | nil => cases letter
        | cons c inner =>
          rw [List.takeWhile_cons_of_pos (isTagNameChar_of_isLetter letter)]
          exact List.cons_ne_nil _ _
      · rwa [List.nil_append, ← whole]
    · split <;> trivial

theorem endTagToken_ne_startTag (inner : Text) {name : String} {entries : List (String × Text)}
    {selfClosing : Bool} : endTagToken inner ≠ .startTag name entries selfClosing := by
  unfold endTagToken
  split
  · rintro ⟨⟩
  · split
    · rintro ⟨⟩
    · split <;> rintro ⟨⟩

theorem ascii_of_isPlainNameChar {c : Char} (plain : isPlainNameChar c = true) : c.toNat < 0x80 := by
  simp only [isPlainNameChar, isSectionNameChar, isLetter, isDigit, Bool.or_eq_true,
    Bool.and_eq_true, decide_eq_true_eq] at plain
  rcases plain with (((((⟨_, high⟩ | ⟨_, high⟩) | ⟨_, high⟩) | rfl) | rfl) | rfl) | rfl
  · exact Nat.lt_of_le_of_lt high (by decide)
  · exact Nat.lt_of_le_of_lt high (by decide)
  · exact Nat.lt_of_le_of_lt high (by decide)
  all_goals decide

theorem writesName_iff {name written rest : Text} (length : written.length = name.length) :
    writesName name (written ++ rest) = true ↔ List.Forall₂ (writesLetter · · = true) name written := by
  induction name generalizing written with
  | nil =>
    rw [List.length_nil, List.length_eq_zero_iff] at length
    simp [length, writesName]
  | cons letter name ih =>
    cases written with
    | nil => cases length
    | cons c written =>
      rw [List.cons_append, writesName, Bool.and_eq_true, List.forall₂_cons,
        ih (Nat.succ.inj length)]

theorem writesName_length {name t : Text} (writes : writesName name t = true) :
    name.length ≤ t.length := by
  induction name generalizing t with
  | nil => exact Nat.zero_le _
  | cons letter name ih =>
    cases t with
    | nil => cases writes
    | cons c t =>
      rw [writesName, Bool.and_eq_true] at writes
      exact Nat.succ_le_succ (ih writes.2)

theorem rawTextEnd?_eq_some {name t : Text} {n : Nat} (found : rawTextEnd? name t = some n) :
    ∃ before written after rest, t = '<' :: '/' :: (before ++ written ++ after) ++ '>' :: rest ∧
      (∀ c ∈ before, isBlank c = true) ∧ List.Forall₂ (writesLetter · · = true) name written ∧
      (∀ c ∈ after, isBlank c = true) ∧ n = (before ++ written ++ after).length + 3 := by
  unfold rawTextEnd? at found
  split at found
  · next behind =>
    obtain ⟨before, inner, whole, blank, _, count, drop⟩ := Text.exists_blanks behind
    dsimp only at found
    rw [drop, count] at found
    split at found
    · next writes =>
      obtain ⟨k, closing, rfl⟩ := Option.map_eq_some_iff.1 found
      obtain ⟨after, rest, tail, blanks, rfl⟩ := bracketLength?_eq_some.1 closing
      have taken : (inner.take name.length).length = name.length := by
        rw [List.length_take]
        exact Nat.min_eq_left (writesName_length writes)
      refine ⟨before, inner.take name.length, after, rest, ?_, blank, ?_, blanks, ?_⟩
      · have split_ := List.take_append_drop name.length inner
        rw [tail] at split_
        rw [whole]
        nth_rewrite 1 [← split_]
        simp
      · rw [← List.take_append_drop name.length inner, writesName_iff taken] at writes
        exact writes
      · simp only [List.length_append, taken]
        omega
    · cases found
  · cases found

theorem isBlank_toLower {c : Char} (blank : isBlank c = true) : c.toLower = c := by
  unfold Char.toLower
  rw [dif_neg]
  rintro ⟨low, high⟩
  have low : 0x41 ≤ c.toNat := low
  have high : c.toNat ≤ 0x5A := high
  simp only [isBlank, Bool.or_eq_true, Bool.and_eq_true, decide_eq_true_eq, beq_iff_eq] at blank
  omega

theorem writesLetter_ne_blank {letter c : Char} (ordinary : isBlank letter = false)
    (writes : writesLetter letter c = true) : isBlank c = false := by
  simp only [writesLetter, Bool.or_eq_true, Bool.and_eq_true, decide_eq_true_eq] at writes
  rcases writes with (same | ⟨_, rfl⟩) | ⟨_, rfl | rfl⟩
  · rw [← Bool.not_eq_true]
    intro blank
    rw [isBlank_toLower blank] at same
    rw [same, ordinary] at blank
    cases blank
  all_goals decide

theorem writesLetter_plain {letter c : Char} (plain : isPlainNameChar c = true)
    (writes : writesLetter letter c = true) : c.toLower = letter := by
  simp only [writesLetter, Bool.or_eq_true, Bool.and_eq_true, decide_eq_true_eq] at writes
  rcases writes with (same | ⟨_, rfl⟩) | ⟨_, rfl | rfl⟩
  · exact same
  all_goals exact absurd plain (by decide)

theorem isRawText_ordinary {name : String} (raw : isRawText name = true) :
    ∀ letter ∈ name.toList, isBlank letter = false := by
  have all : name.toList.all (fun letter => !isBlank letter) = true := by
    rcases isRawText_iff.1 raw with rfl | rfl <;> decide
  simpa only [List.all_eq_true, Bool.not_eq_true'] using all

theorem isRawText_ne_nil {name : String} (raw : isRawText name = true) : name.toList ≠ [] := by
  rcases isRawText_iff.1 raw with rfl | rfl <;> decide

theorem writes_ne_blank {name written : Text}
    (writes : List.Forall₂ (writesLetter · · = true) name written)
    (ordinary : ∀ letter ∈ name, isBlank letter = false) : ∀ c ∈ written, isBlank c = false := by
  induction writes with
  | nil => simp
  | cons first _ ih =>
    rw [List.forall_mem_cons] at ordinary ⊢
    exact ⟨writesLetter_ne_blank ordinary.1 first, ih ordinary.2⟩

theorem writes_plain {name written : Text}
    (writes : List.Forall₂ (writesLetter · · = true) name written)
    (plain : ∀ c ∈ written, isPlainNameChar c = true) : written.map Char.toLower = name := by
  induction writes with
  | nil => rfl
  | cons first _ ih =>
    rw [List.forall_mem_cons] at plain
    rw [List.map_cons, writesLetter_plain plain.1 first, ih plain.2]

/-- Letters written in ASCII without blanks around them are the name in lower case. -/
theorem lowerName_of_writes {name : String} {before written after found : Text}
    (ordinary : ∀ letter ∈ name.toList, isBlank letter = false)
    (writes : List.Forall₂ (writesLetter · · = true) name.toList written)
    (plain : plainEndName? (before ++ written ++ after) = some found) :
    (∀ c ∈ written, isPlainNameChar c = true) ∧ Text.lowerName written = name := by
  have all : ∀ c ∈ written, isPlainNameChar c = true := by
    obtain ⟨front, back, whole, blankFront, blankBack, allPlain, _⟩ := plainEndName?_eq_some plain
    intro c member
    have dark := writes_ne_blank writes ordinary c member
    have inside : c ∈ front ++ found ++ back := by
      rw [← whole]
      exact List.mem_append_left _ (List.mem_append_right _ member)
    rcases List.mem_append.1 inside with inside | last
    · rcases List.mem_append.1 inside with first | middle
      · rw [blankFront c first] at dark
        cases dark
      · exact allPlain c middle
    · rw [blankBack c last] at dark
      cases dark
  refine ⟨all, ?_⟩
  rw [Text.lowerName_ascii fun c member => ascii_of_isPlainNameChar (all c member),
    writes_plain writes all, String.ofList_toList]

/-- What the scanner finds in front of a text is written the way that it is read. -/
theorem scanInside_reads {name : String} {c : Char} {rest : Text} {found : Found}
    (raw : isRawText name = true) (scanned : scanInside name (c :: rest) = some found) :
    found.token.Reads (c :: rest.take found.extra) ∧ ∀ name ∈ found.inside, isRawText name = true := by
  have ordinary := isRawText_ordinary raw
  obtain ⟨⟨before, n⟩, matched, same⟩ := Option.map_eq_some_iff.1 scanned
  obtain ⟨after, whole, ended, _⟩ := Text.untilMatch_eq_some matched
  dsimp only at same
  split at same
  · subst same
    refine ⟨trivial, ?_⟩
    rintro _ ⟨⟩
    exact raw
  · next empty =>
    have none : before = [] := by simpa using empty
    subst none
    split at same
    · subst same
      refine ⟨trivial, ?_⟩
      rintro _ ⟨⟩
      exact raw
    · next plain =>
      subst same
      refine ⟨?_, by rintro _ ⟨⟩⟩
      obtain ⟨front, written, back, behind, split_, blank, writes, blanks, rfl⟩ :=
        rawTextEnd?_eq_some ended
      rw [List.nil_append] at whole
      rw [← whole] at split_
      generalize inner_eq : front ++ written ++ back = inner at split_ plain
      injection split_ with first second
      subst first second
      have taken : ('/' :: (inner ++ '>' :: behind)).take (inner.length + 2) = '/' :: inner ++ ['>'] := by
        rw [List.take_succ_cons, List.take_length_add_append]
        rfl
      have within : (('<' :: '/' :: (inner ++ '>' :: behind)).take (inner.length + 2)).drop 2 = inner := by
        rw [List.take_succ_cons, List.take_succ_cons, List.take_left']
        · rfl
        · rfl
      have named : plainEndName? inner ≠ none := by
        rw [← within]
        exact plain
      obtain ⟨found, named⟩ := Option.ne_none_iff_exists'.1 named
      rw [← inner_eq] at named
      obtain ⟨all, lower⟩ := lowerName_of_writes ordinary writes named
      change IsEndTag name ('<' :: ('/' :: (inner ++ '>' :: behind)).take (inner.length + 2))
      rw [taken, ← inner_eq]
      refine ⟨front, written, back, by simp, blank, lower, ?_, ?_⟩
      · rintro rfl
        rw [List.forall₂_nil_right_iff] at writes
        exact isRawText_ne_nil raw writes
      · intro member
        rcases List.mem_append.1 member with member | last
        · rcases List.mem_append.1 member with first | middle
          · exact absurd (blank _ first) (by decide)
          · exact absurd (all _ middle) (by decide)
        · exact absurd (blanks _ last) (by decide)

/-- A declaration is a comment, a section that leaves nothing, or what stands in front of the first closing
bracket. -/
theorem scanDeclaration_cases {found : Found} (scanned : scanDeclaration t = .ok (some found)) :
    (∃ body value n, t = '-' :: '-' :: body ∧ Text.untilMatch commentEnd? body = some (value, n) ∧
      found = ⟨.comment value, value.length + n + 3, none⟩) ∨
    (∃ length, found = ⟨.skipped, length + 2, none⟩) ∨
      ∃ value rest, t = value ++ '>' :: rest ∧ '>' ∉ value ∧ found = ⟨
        if Text.lower (t.take 7) = "doctype".toList then .declaration value else .comment value,
        value.length + 2, none⟩ := by
  unfold scanDeclaration at scanned
  split at scanned
  · next body =>
    injection scanned with scanned
    obtain ⟨⟨value, n⟩, ended, rfl⟩ := Option.map_eq_some_iff.1 scanned
    exact .inl ⟨body, value, n, rfl, ended, rfl⟩
  · unfold scanSection at scanned
    split at scanned
    · cases scanned
    · split at scanned
      · cases scanned
      · dsimp only at scanned
        split at scanned
        · cases scanned
        · split at scanned
          · cases scanned
          · injection scanned with scanned
            obtain ⟨⟨before, n⟩, _, rfl⟩ := Option.map_eq_some_iff.1 scanned
            exact .inr (.inl ⟨before.length + n, rfl⟩)
  · injection scanned with scanned
    obtain ⟨value, closed, rfl⟩ := Option.map_eq_some_iff.1 scanned
    obtain ⟨rest, whole, apart⟩ := upToBracket?_eq_some.1 closed
    exact .inr (.inr ⟨value, rest, whole, apart, rfl⟩)

theorem scanDeclaration_reads {found : Found} (scanned : scanDeclaration t = .ok (some found)) :
    found.token.Reads ('<' :: '!' :: t.take (found.extra - 1)) ∧ 0 < found.extra ∧
      found.inside = none := by
  rcases scanDeclaration_cases scanned with
    ⟨_, value, n, _, _, rfl⟩ | ⟨length, rfl⟩ | ⟨value, rest, rfl, _, rfl⟩
  · exact ⟨trivial, Nat.succ_pos _, rfl⟩
  · exact ⟨trivial, Nat.succ_pos _, rfl⟩
  · refine ⟨?_, Nat.succ_pos _, rfl⟩
    dsimp only
    split
    · change '<' :: '!' :: (value ++ '>' :: rest).take (value.length + 1) = _
      rw [take_bracket]
      rfl
    · trivial

theorem scanDeclaration_ne_startTag {found : Found} (scanned : scanDeclaration t = .ok (some found))
    {name : String} {entries : List (String × Text)} {selfClosing : Bool} :
    found.token ≠ .startTag name entries selfClosing := by
  rcases scanDeclaration_cases scanned with ⟨_, _, _, _, _, rfl⟩ | ⟨_, rfl⟩ | ⟨_, _, _, _, rfl⟩
  · rintro ⟨⟩
  · rintro ⟨⟩
  · dsimp only
    split <;> rintro ⟨⟩

/-- Behind an opening bracket and a letter there is text or a start tag. -/
theorem foundStartTag_cases {found : Found} (scanned : foundStartTag t = .ok (some found)) :
    (∃ length, found = ⟨.text ('<' :: t.take length), length, none⟩) ∨
      ∃ name ws selfClosing length entries, scanStartTag t = .complete name ws selfClosing length ∧
        decodeAttributes ws = .ok entries ∧ found = ⟨.startTag (Text.lowerName name) entries selfClosing, length,
          if !selfClosing && isRawText (Text.lowerName name) then some (Text.lowerName name) else none⟩ := by
  unfold foundStartTag at scanned
  split at scanned
  · cases scanned
  · cases scanned
    exact .inl ⟨_, rfl⟩
  · next name ws selfClosing length complete =>
    dsimp only at scanned
    cases decoded : decodeAttributes ws with
    | error e =>
      rw [decoded] at scanned
      cases scanned
    | ok entries =>
      rw [decoded] at scanned
      cases scanned
      exact .inr ⟨name, ws, selfClosing, length, entries, complete, decoded, rfl⟩

theorem foundStartTag_reads {found : Found} (letter : t.head?.any isLetter = true)
    (scanned : foundStartTag t = .ok (some found)) :
    found.token.Reads ('<' :: t.take found.extra) ∧ ∀ name ∈ found.inside, isRawText name = true := by
  rcases foundStartTag_cases scanned with
    ⟨length, rfl⟩ | ⟨name, ws, selfClosing, length, entries, complete, _, rfl⟩
  · exact ⟨trivial, by rintro _ ⟨⟩⟩
  · refine ⟨isStartTag_of_complete letter complete, ?_⟩
    intro name inside
    dsimp only at inside
    split at inside
    · next raw =>
      cases inside
      rw [Bool.and_eq_true] at raw
      exact raw.2
    · cases inside

/-- Behind an opening bracket there is an end tag, a declaration, an instruction, a start tag or text. -/
theorem scanMarkup_cases {found : Found} (scanned : scanMarkup t = .ok (some found)) :
    (∃ inner rest, t = '/' :: (inner ++ '>' :: rest) ∧ '>' ∉ inner ∧
      found = ⟨endTagToken inner, inner.length + 2, none⟩) ∨
    (∃ rest, t = '!' :: rest ∧ scanDeclaration rest = .ok (some found)) ∨
    (∃ value rest, t = '?' :: (value ++ '>' :: rest) ∧ '>' ∉ value ∧
      found = ⟨.instruction value, value.length + 2, none⟩) ∨
    (t.head?.any isLetter = true ∧ foundStartTag t = .ok (some found)) ∨
      found = ⟨.text ['<'], 0, none⟩ := by
  unfold scanMarkup at scanned
  split at scanned
  · injection scanned with scanned
    obtain ⟨inner, closed, rfl⟩ := Option.map_eq_some_iff.1 scanned
    obtain ⟨rest, rfl, apart⟩ := upToBracket?_eq_some.1 closed
    exact .inl ⟨inner, rest, rfl, apart, rfl⟩
  · next rest => exact .inr (.inl ⟨rest, rfl, scanned⟩)
  · injection scanned with scanned
    obtain ⟨value, closed, rfl⟩ := Option.map_eq_some_iff.1 scanned
    obtain ⟨rest, rfl, apart⟩ := upToBracket?_eq_some.1 closed
    exact .inr (.inr (.inl ⟨value, rest, rfl, apart, rfl⟩))
  · split at scanned
    · next letter => exact .inr (.inr (.inr (.inl ⟨letter, scanned⟩)))
    · cases scanned
      exact .inr (.inr (.inr (.inr rfl)))
  · cases scanned
    exact .inr (.inr (.inr (.inr rfl)))

theorem scanMarkup_reads {found : Found} (scanned : scanMarkup t = .ok (some found)) :
    found.token.Reads ('<' :: t.take found.extra) ∧ ∀ name ∈ found.inside, isRawText name = true := by
  rcases scanMarkup_cases scanned with
    ⟨inner, rest, rfl, apart, rfl⟩ | ⟨rest, rfl, scanned⟩ | ⟨value, _, rfl, _, rfl⟩ | ⟨letter, scanned⟩ | rfl
  · refine ⟨?_, by rintro _ ⟨⟩⟩
    change (endTagToken inner).Reads
      ('<' :: '/' :: (inner ++ '>' :: rest).take (inner.length + 1))
    rw [take_bracket]
    exact endTagToken_reads apart
  · obtain ⟨reads, some_, inside⟩ := scanDeclaration_reads scanned
    rw [inside]
    refine ⟨?_, by rintro _ ⟨⟩⟩
    rw [← Nat.succ_pred_eq_of_pos some_]
    exact reads
  · exact ⟨trivial, by rintro _ ⟨⟩⟩
  · exact foundStartTag_reads letter scanned
  · exact ⟨trivial, by rintro _ ⟨⟩⟩

/-- Outside of raw text elements there is markup or text with its references replaced. -/
theorem scanOutside_cases {c : Char} {rest : Text} {found : Found}
    (scanned : scanOutside c rest = .ok found) :
    (c = '<' ∧ scanMarkup rest = .ok (some found)) ∨
      ∃ value length, decodeReferences (c :: rest.take length) = .ok value ∧
        found = ⟨.text value, length, none⟩ := by
  unfold scanOutside at scanned
  split at scanned
  · next bracket =>
    cases markup : scanMarkup rest with
    | error e =>
      rw [markup] at scanned
      cases scanned
    | ok marked =>
      rw [markup] at scanned
      cases marked with
      | some other =>
        cases scanned
        exact .inl ⟨bracket, rfl⟩
      | none =>
        dsimp only [bind, Except.bind] at scanned
        split at scanned
        · cases scanned
        · next value decoded =>
          cases scanned
          exact .inr ⟨value, _, decoded, rfl⟩
  · dsimp only [bind, Except.bind] at scanned
    split at scanned
    · cases scanned
    · next value decoded =>
      cases scanned
      refine .inr ⟨value, _, ?_, rfl⟩
      rwa [← List.prefix_iff_eq_take.1 (List.takeWhile_prefix _)]

theorem scanOutside_reads {c : Char} {rest : Text} {found : Found}
    (scanned : scanOutside c rest = .ok found) :
    found.token.Reads (c :: rest.take found.extra) ∧ ∀ name ∈ found.inside, isRawText name = true := by
  rcases scanOutside_cases scanned with ⟨rfl, markup⟩ | ⟨value, length, _, rfl⟩
  · exact scanMarkup_reads markup
  · exact ⟨trivial, by rintro _ ⟨⟩⟩

theorem scanLexeme_outside {c : Char} {rest : Text} {found : Found}
    (scanned : scanLexeme none c rest = .ok (some found)) : scanOutside c rest = .ok found := by
  rw [scanLexeme] at scanned
  cases outside : scanOutside c rest with
  | error e =>
    rw [outside] at scanned
    cases scanned
  | ok other =>
    rw [outside] at scanned
    cases scanned
    rfl

theorem scanLexeme_reads {inside : Option String} {c : Char} {rest : Text} {found : Found}
    (raw : ∀ name ∈ inside, isRawText name = true)
    (scanned : scanLexeme inside c rest = .ok (some found)) :
    found.token.Reads (c :: rest.take found.extra) ∧ ∀ name ∈ found.inside, isRawText name = true := by
  unfold scanLexeme at scanned
  split at scanned
  · next name =>
    injection scanned with scanned
    exact scanInside_reads (raw name rfl) scanned
  · exact scanOutside_reads (scanLexeme_outside scanned)

/-- The lexemes of a text end in front of it, or there is a first one and the others come behind it. -/
theorem lexemesFrom_cases {inside : Option String} {start : Mark} {c : Char} {rest : Text}
    {xs : List Lexeme} (cut : lexemesFrom inside start (c :: rest) = .ok xs) :
    scanLexeme inside c rest = .ok none ∧ xs = [] ∨
      ∃ found more, scanLexeme inside c rest = .ok (some found) ∧
        lexemesFrom found.inside (start.after (c :: rest.take found.extra)) (rest.drop found.extra) =
          .ok more ∧
        xs = ⟨start, c :: rest.take found.extra, found.token⟩ :: more := by
  rw [lexemesFrom] at cut
  cases scanned : scanLexeme inside c rest with
  | error e =>
    rw [scanned] at cut
    cases cut
  | ok result =>
    rw [scanned] at cut
    cases result with
    | none =>
      cases cut
      exact .inl ⟨rfl, rfl⟩
    | some found =>
      dsimp only [bind, Except.bind] at cut
      split at cut
      · cases cut
      · next more behind =>
        cases cut
        exact .inr ⟨found, more, rfl, behind, rfl⟩

/-- What is true of whatever is found at the front of a text is true of all lexemes. -/
theorem lexemesFrom_forall {p : Lexeme → Prop} {inside : Option String} {start : Mark} {xs : List Lexeme}
    (first : ∀ inside start c rest found, scanLexeme inside c rest = .ok (some found) →
      p ⟨start, c :: rest.take found.extra, found.token⟩)
    (cut : lexemesFrom inside start t = .ok xs) : ∀ x ∈ xs, p x := by
  induction inside, start, t using lexemesFrom.induct generalizing xs with
  | case1 =>
    rw [lexemesFrom] at cut
    cases cut
    exact List.forall_mem_nil _
  | case2 inside start c rest ih =>
    rcases lexemesFrom_cases cut with ⟨_, rfl⟩ | ⟨found, more, scanned, behind, rfl⟩
    · exact List.forall_mem_nil _
    · exact List.forall_mem_cons.2 ⟨first inside start c rest found scanned, ih found behind⟩

/-- The lexemes of a text follow one another from its start, and each can have been read so. -/
theorem lexemesFrom_chained {inside : Option String} {start : Mark} {xs : List Lexeme}
    (raw : ∀ name ∈ inside, isRawText name = true) (cut : lexemesFrom inside start t = .ok xs) :
    Chained start t xs := by
  induction inside, start, t using lexemesFrom.induct generalizing xs with
  | case1 =>
    rw [lexemesFrom] at cut
    cases cut
    exact .nil
  | case2 inside start c rest ih =>
    rcases lexemesFrom_cases cut with ⟨_, rfl⟩ | ⟨found, more, scanned, behind, rfl⟩
    · exact .nil
    · obtain ⟨reads, within⟩ := scanLexeme_reads raw scanned
      have first := Chained.cons (x := ⟨start, c :: rest.take found.extra, found.token⟩)
        (List.cons_ne_nil _ _) reads (ih found within behind)
      rwa [List.cons_append, List.take_append_drop] at first

theorem lexemes_chained {source : Text} {xs : List Lexeme} (cut : lexemes source = .ok xs) :
    Chained .origin source xs := lexemesFrom_chained (by rintro _ ⟨⟩) cut

end LocatedHtml
