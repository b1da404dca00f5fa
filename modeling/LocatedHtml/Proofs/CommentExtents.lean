import LocatedHtml.Proofs.Lexing.Coverage
import LocatedHtml.Proofs.Spans.Markup

/-!
Which piece of the source a comment is located at. Its extent starts with the lexeme that brought it. It
stops with that lexeme if a processing instruction brought the comment, or if the comment is written with
two dashes right before its bracket, and otherwise elsewhere, since its end is told from its length.
-/

namespace LocatedHtml

/-- The ways in which the lexeme of a comment is written. -/
inductive WritesComment : Token → Text → Prop
  | dashed {value blanks : Text} (blank : ∀ c ∈ blanks, isBlank c = true) :
      WritesComment (.comment value) ('<' :: '!' :: '-' :: '-' :: (value ++ '-' :: '-' :: (blanks ++ ['>'])))
  | declared {value : Text} : WritesComment (.comment value) ('<' :: '!' :: (value ++ ['>']))
  | ended {value : Text} : WritesComment (.comment value) ('<' :: '/' :: (value ++ ['>']))
  | instruction {value : Text} : WritesComment (.instruction value) ('<' :: '?' :: (value ++ ['>']))

/-- An extent takes what a lexeme takes of the source, and the lexemes behind it are read on from its stop. -/
structure Extent.Takes (e : Extent) (source : Text) (x : Lexeme) (back : List Lexeme) : Prop where
  slice : e.slice source = x.raw
  inside : e.stop ≤ source.length
  stop : e.stop = x.stop.offset
  behind : lexemesFrom none x.stop (source.drop e.stop.toNat) = .ok back

variable {t raw value : Text} {found : Found} {token : Token}

theorem endTagToken_comment {inner : Text} (remark : (endTagToken inner).remark? = some (.comment value)) :
    endTagToken inner = .comment inner := by
  cases plain : plainEndName? inner with
  | some name =>
    rw [endTagToken, plain] at remark
    cases remark
  | none =>
    rw [endTagToken, plain] at remark ⊢
    dsimp only at remark ⊢
    split
    · next letter =>
      rw [if_pos letter] at remark
      cases remark
    · next other =>
      rw [if_neg other] at remark
      split
      · next empty =>
        rw [if_pos empty] at remark
        cases remark
      · rfl

theorem scanDeclaration_comment (scanned : scanDeclaration t = .ok (some found))
    (remark : found.token.remark? = some (.comment value)) :
    WritesComment found.token ('<' :: '!' :: t.take (found.extra - 1)) ∧ found.inside = none := by
  refine ⟨?_, (scanDeclaration_reads scanned).2.2⟩
  rcases scanDeclaration_cases scanned with
    ⟨body, inner, n, rfl, matched, rfl⟩ | ⟨_, rfl⟩ | ⟨inner, rest, rfl, _, rfl⟩
  · obtain ⟨after, rfl, ended, _⟩ := Text.untilMatch_eq_some matched
    obtain ⟨blanks, rest, rfl, blank, rfl⟩ := commentEnd?_eq_some.1 ended
    have whole : '-' :: '-' :: (inner ++ '-' :: '-' :: (blanks ++ '>' :: rest)) =
        '-' :: '-' :: (inner ++ '-' :: '-' :: (blanks ++ ['>'])) ++ rest := by simp
    have length : ('-' :: '-' :: (inner ++ '-' :: '-' :: (blanks ++ ['>']))).length =
        inner.length + (blanks.length + 3) + 3 - 1 := by
      simp only [List.length_cons, List.length_append, List.length_nil]
      omega
    rw [whole, List.take_left' length]
    exact .dashed blank
  · cases remark
  · dsimp only at remark ⊢
    split at remark
    · cases remark
    · next other =>
      rw [if_neg other]
      change WritesComment _ ('<' :: '!' :: (inner ++ '>' :: rest).take (inner.length + 1))
      rw [take_bracket]
      exact .declared

theorem scanMarkup_comment (scanned : scanMarkup t = .ok (some found))
    (remark : found.token.remark? = some (.comment value)) :
    WritesComment found.token ('<' :: t.take found.extra) ∧ found.inside = none := by
  rcases scanMarkup_cases scanned with
    ⟨inner, rest, rfl, _, rfl⟩ | ⟨rest, rfl, scanned⟩ | ⟨inner, rest, rfl, _, rfl⟩ | ⟨_, scanned⟩ | rfl
  · refine ⟨?_, rfl⟩
    dsimp only at remark ⊢
    rw [endTagToken_comment remark]
    change WritesComment _ ('<' :: '/' :: (inner ++ '>' :: rest).take (inner.length + 1))
    rw [take_bracket]
    exact .ended
  · obtain ⟨writes, outside⟩ := scanDeclaration_comment scanned remark
    have some_ := (scanDeclaration_reads scanned).2.1
    refine ⟨?_, outside⟩
    rw [← Nat.succ_pred_eq_of_pos some_]
    exact writes
  · refine ⟨?_, rfl⟩
    change WritesComment _ ('<' :: '?' :: (inner ++ '>' :: rest).take (inner.length + 1))
    rw [take_bracket]
    exact .instruction
  · rcases foundStartTag_cases scanned with ⟨_, rfl⟩ | ⟨_, _, _, _, _, _, _, rfl⟩ <;> cases remark
  · cases remark

/-- What brings a comment is written in one of these ways, and outside of raw text elements. -/
theorem scanLexeme_comment {inside : Option String} {c : Char} {rest : Text}
    (scanned : scanLexeme inside c rest = .ok (some found))
    (remark : found.token.remark? = some (.comment value)) :
    WritesComment found.token (c :: rest.take found.extra) ∧ found.inside = none := by
  cases inside with
  | some inner =>
    injection scanned with scanned
    obtain ⟨_, _, rfl⟩ := Option.map_eq_some_iff.1 scanned
    dsimp only at remark
    split at remark
    · cases remark
    · split at remark <;> cases remark
  | none =>
    rcases scanOutside_cases (scanLexeme_outside scanned) with ⟨rfl, markup⟩ | ⟨_, _, _, rfl⟩
    · exact scanMarkup_comment markup remark
    · cases remark

variable {x : Lexeme} {xs : List Lexeme} {source : Text} {tree : HtmlTree}

namespace WritesComment

theorem bracketed (writes : WritesComment token raw) : ∃ inner, raw = '<' :: inner ++ ['>'] := by
  cases writes with
  | @dashed value blanks _ => exact ⟨'!' :: '-' :: '-' :: (value ++ '-' :: '-' :: blanks), by simp⟩
  | declared => exact ⟨_ :: _, rfl⟩
  | ended => exact ⟨_ :: _, rfl⟩
  | instruction => exact ⟨_ :: _, rfl⟩

theorem eq_writtenComment (writes : WritesComment (.comment value) raw) (width : raw.length = value.length + 7) :
    raw = writtenComment value := by
  cases writes with
  | @dashed _ blanks _ =>
    simp only [List.length_cons, List.length_append, List.length_nil] at width
    obtain rfl : blanks = [] := List.length_eq_zero_iff.1 (by omega)
    simp [writtenComment]
  | declared =>
    simp only [List.length_cons, List.length_append, List.length_nil] at width
    omega
  | ended =>
    simp only [List.length_cons, List.length_append, List.length_nil] at width
    omega

/-- The end of a remark is told right where a comment is written as usual, and of an instruction. -/
theorem remarkStop_iff (writes : WritesComment x.token x.raw) (remark : x.token.remark? = some (.comment value)) :
    x.remarkStop = x.stop.offset ↔ x.raw = writtenComment value ∨ ∃ inner, x.token = .instruction inner := by
  obtain ⟨start, raw, token⟩ := x
  dsimp only at writes remark ⊢
  cases token with
  | comment inner =>
    cases remark
    rw [or_iff_left (by rintro ⟨_, ⟨⟩⟩)]
    change start.offset + value.length + 7 = start.offset + raw.length ↔ raw = writtenComment value
    constructor
    · intro same
      exact writes.eq_writtenComment (by omega)
    · rintro rfl
      rw [writtenComment_length]
      rfl
  | instruction inner => exact ⟨fun _ => .inr ⟨inner, rfl⟩, fun _ => rfl⟩
  | _ => cases remark

end WritesComment

theorem Content.eq_comment {content : Content} (isComment : content.isComment = true)
    (same : content.textValue = value) : content = .comment value := by
  cases content with
  | comment _ => rw [← same, textValue]
  | _ => cases isComment

/-- A comment is the remark of a lexeme. -/
def Node.Remarked (xs : List Lexeme) (v : Node) : Prop :=
  ∀ value, v.content = .comment value → ∃ x ∈ xs, x.remark? = some v

namespace Node.Remarked

theorem other {v : Node} (other : v.content.isComment = false) : v.Remarked xs := by
  intro value comment
  rw [comment] at other
  cases other

theorem remark {v : Node} (member : x ∈ xs) (remark : x.remark? = some v) : v.Remarked xs :=
  fun _ _ => ⟨x, member, remark⟩

end Node.Remarked

theorem nodeFact_remarked (member : x ∈ xs) : NodeFact (fun _ t => t.value.Remarked xs) x where
  started _ _ _ _ _ := ⟨.other rfl, fun _ _ => .other rfl⟩
  ended _ _ _ _ := .other rfl
  comment _ _ token := .remark member (by simp [Lexeme.remark?, Lexeme.remarkStop, Token.remark?, token, Tree.value])
  instruction _ _ token := .remark member (by simp [Lexeme.remark?, Lexeme.remarkStop, Token.remark?, token, Tree.value])
  declaration _ _ _ := .other rfl

theorem shellFact_remarked :
    ShellFact (fun name shell => name ∈ structuralNames → (shell.node name).Remarked xs) x where
  more _ _ _ _ _ _ _ _ := .other rfl
  started _ _ _ _ _ := .other rfl
  ended _ _ _ _ _ := .other rfl

/-- Every comment of a document is the remark of a lexeme of its source. -/
theorem parseHtml_remarked (parsed : parseHtml source = .ok tree) :
    ∃ xs, lexemes source = .ok xs ∧ ∀ t ∈ tree.subtrees, t.value.Remarked xs := by
  obtain ⟨xs, cut, rfl⟩ := parseHtml_eq_toTree parsed
  refine ⟨xs, cut, ?_⟩
  exact Construction.documentOf_nodes source.length (.other rfl) (fun _ => .other rfl) (fun _ _ => .other rfl)
    (fun x member => nodeFact_remarked member) fun x _ => shellFact_remarked

variable {front back : List Lexeme}

/-- Where a comment comes from is written in one of these ways, and the lexemes behind it are read outside of
raw text elements. -/
theorem lexemes_comment (cut : lexemes source = .ok (front ++ x :: back))
    (remark : x.token.remark? = some (.comment value)) :
    WritesComment x.token x.raw ∧ lexemesFrom none x.stop (source.drop x.stop.offset) = .ok back := by
  obtain ⟨_, c, rest, found, rfl, scanned, rfl, behind⟩ := lexemesFrom_split cut
  obtain ⟨writes, outside⟩ := scanLexeme_comment scanned remark
  refine ⟨writes, ?_⟩
  have whole : taken front ++ c :: rest = taken front ++ c :: rest.take found.extra ++ rest.drop found.extra := by
    rw [List.append_assoc, List.cons_append, List.take_append_drop]
  rw [outside] at behind
  rw [whole, List.drop_left']
  · exact behind
  · change _ = (Mark.origin.after (taken front)).offset + _
    rw [Mark.offset_after_origin, List.length_append]

theorem Lexeme.takes_iff (cut : lexemes source = .ok (front ++ x :: back))
    (remark : x.token.remark? = some (.comment value)) :
    (Extent.ofMark x.start x.remarkStop).Takes source x back ↔ x.remarkStop = x.stop.offset := by
  constructor
  · intro takes
    exact Int.ofNat_inj.1 takes.stop
  · intro same
    rw [same]
    have here := (lexemes_chained cut).inSource (List.nil_append source).symm rfl x List.mem_append_cons_self
    exact ⟨here.slice none, Int.ofNat_le.2 here.stop_le, rfl, (lexemes_comment cut remark).2⟩

/-- The extent of a comment starts with the lexeme that brought it, and it takes the lexeme if that is written
as comments usually are, or is a processing instruction. -/
theorem parseHtml_commentExtents (parsed : parseHtml source = .ok tree) :
    ∀ t ∈ tree.subtrees, ∀ value, t.value.content = .comment value →
      ∃ extent front x back, t.value.location = some (.plain extent) ∧
        lexemes source = .ok (front ++ x :: back) ∧ x.token.remark? = some (.comment value) ∧
        WritesComment x.token x.raw ∧ (∃ inner, x.raw = '<' :: inner ++ ['>']) ∧
        extent.start = x.start.offset ∧ extent.position = x.start.position ∧
        (extent.Takes source x back ↔
          x.raw = writtenComment value ∨ ∃ inner, x.token = .instruction inner) := by
  intro t member value comment
  obtain ⟨xs, cut, remarked⟩ := parseHtml_remarked parsed
  obtain ⟨x, inside, node⟩ := remarked t member value comment
  obtain ⟨content, remark, same⟩ := Option.map_eq_some_iff.1 node
  obtain rfl : content = .comment value := by rw [← comment, ← same]
  obtain ⟨front, back, rfl⟩ := List.append_of_mem inside
  have writes := (lexemes_comment cut remark).1
  refine ⟨.ofMark x.start x.remarkStop, front, x, back, ?_, cut, remark, writes, writes.bracketed, rfl, rfl, ?_⟩
  · rw [← same]
  · rw [Lexeme.takes_iff cut remark, writes.remarkStop_iff remark]

theorem parseHtml_commentExtents_instruction :
    ∃ tree t extent front x back, parseHtml "<!--a-- ><?b>c".toList = .ok tree ∧ t ∈ tree.subtrees ∧
      t.value.content = .comment "?b".toList ∧ t.value.location = some (.plain extent) ∧
      lexemes "<!--a-- ><?b>c".toList = .ok (front ++ x :: back) ∧ x.raw = "<?b>".toList ∧
      extent.Takes "<!--a-- ><?b>c".toList x back := by
  have known : (parseHtml "<!--a-- ><?b>c".toList).toOption.map (fun tree =>
      (tree.subtrees[2]?).map fun t => (t.value.content.isComment, t.value.content.textValue)) =
      some (some (true, "?b".toList)) := by decide +kernel
  obtain ⟨tree, parsed, seen⟩ := parseHtml_of_map known
  simp only [Prod.mk.injEq, Option.map_eq_some_iff] at seen
  obtain ⟨t, place, isComment, value⟩ := seen
  have content := Content.eq_comment isComment value
  obtain ⟨extent, front, x, back, located, cut, remark, _, _, _, _, takes⟩ :=
    parseHtml_commentExtents parsed t (List.mem_of_getElem? place) _ content
  have all : (lexemes "<!--a-- ><?b>c".toList).toOption.map (·.map fun x => (x.token, x.raw)) =
      some [(.comment ['a'], "<!--a-- >".toList), (.instruction ['b'], "<?b>".toList), (.text ['c'], ['c'])] := by
    decide +kernel
  rw [cut] at all
  have member : (x.token, x.raw) ∈ [(Token.comment ['a'], "<!--a-- >".toList),
      (.instruction ['b'], "<?b>".toList), (.text ['c'], ['c'])] := by
    rw [← Option.some.inj all]
    exact List.mem_map_of_mem List.mem_append_cons_self
  simp only [List.mem_cons, Prod.mk.injEq, List.not_mem_nil, or_false] at member
  rcases member with ⟨token, _⟩ | ⟨token, raw⟩ | ⟨token, _⟩ <;> rw [token] at remark
  · cases remark
  · exact ⟨tree, t, extent, front, x, back, parsed, List.mem_of_getElem? place, content, located, cut, raw,
      takes.2 (.inr ⟨_, token⟩)⟩
  · cases remark

/-- The end of a comment without dashes is told behind the end of the source. -/
theorem commentExtent_beyond_source :
    ∃ tree t location, parseHtml "<!x>".toList = .ok tree ∧ t ∈ tree.subtrees ∧
      t.value.content = .comment ['x'] ∧ t.value.location = some location ∧ location.start = 0 ∧
      location.stop = 8 ∧ ¬location.stop ≤ "<!x>".toList.length := by
  have known : (parseHtml "<!x>".toList).toOption.map (fun tree => (tree.subtrees[1]?).map fun t =>
      (t.value.content.isComment, t.value.content.textValue, t.value.location.map fun location =>
        [location.start, location.stop])) = some (some (true, ['x'], some [0, 8])) := by decide +kernel
  obtain ⟨tree, parsed, seen⟩ := parseHtml_of_map known
  simp only [Prod.mk.injEq, List.cons.injEq, and_true, Option.map_eq_some_iff] at seen
  obtain ⟨t, place, isComment, value, location, located, start, stop⟩ := seen
  refine ⟨tree, t, location, parsed, List.mem_of_getElem? place, Content.eq_comment isComment value, located, start,
    stop, ?_⟩
  rw [stop]
  decide

end LocatedHtml
