import LocatedHtml.Proofs.CanonicalReading
import LocatedHtml.Proofs.Written.NormalShape
import LocatedHtml.Proofs.Written.WritableTree

/-!
Elements whose texts are written without escapes, written as the body of a page and read again. Scripts and
styles are read as they are written. The others are read like any element, so they come back unless their
text has references or markup in it.
-/

namespace LocatedHtml

/-- A character with which markup goes on behind an opening bracket. -/
def startsMarkup (c : Char) : Bool := isLetter c || c = '/' || c = '!' || c = '?'

/-- A text that is read as it is written outside of raw text elements: its opening brackets start no markup,
and between them no references are replaced. -/
inductive PlainlyRead : Text → Prop
  | nil : PlainlyRead []
  | run {piece rest : Text} (some_ : piece ≠ []) (apart : '<' ∉ piece)
      (kept : decodeReferences piece = .ok piece) (stop : Text.StopsAt (· != '<') rest)
      (more : PlainlyRead rest) : PlainlyRead (piece ++ rest)
  | bracket {rest : Text} (stray : Text.StopsAt startsMarkup rest) (more : PlainlyRead rest) :
      PlainlyRead ('<' :: rest)

theorem PlainlyRead.of_not_mem {t : Text} (apart : '<' ∉ t) (plain : '&' ∉ t) : PlainlyRead t := by
  by_cases empty : t = []
  · rw [empty]
    exact .nil
  · rw [← List.append_nil t]
    exact .run empty apart (decodeReferences_plain plain) Text.stopsAt_nil .nil

theorem scanMarkup_stray {t : Text} (stray : Text.StopsAt startsMarkup t) :
    scanMarkup t = .ok (some ⟨.text ['<'], 0, none⟩) := by
  cases t with
  | nil => rfl
  | cons c t =>
    have other : startsMarkup c = false := stray c rfl
    simp only [startsMarkup, Bool.or_eq_false_iff, decide_eq_false_iff_not] at other
    obtain ⟨⟨⟨letter, slash⟩, mark⟩, question⟩ := other
    unfold scanMarkup
    split <;> simp_all

namespace Yields

variable {rest : Text} {tokens : List Token}

theorem stray (stray : Text.StopsAt startsMarkup rest) (more : Yields none rest tokens) :
    Yields none ('<' :: rest) (.text ['<'] :: tokens) :=
  @markup rest tokens [] ⟨.text ['<'], 0, none⟩ (scanMarkup_stray stray) rfl more

/-- A text that is read as it is written comes in pieces that make it up. -/
theorem plain {value : Text} (plain : PlainlyRead value) (more : Yields none ('<' :: rest) tokens) :
    ∃ values : List Text, values.flatten = value ∧ (∀ v ∈ values, v ≠ []) ∧
      Yields none (value ++ '<' :: rest) (values.map .text ++ tokens) := by
  have behind (value : Text) (p : Char → Bool) (other : p '<' = false) (stop : Text.StopsAt p value) :
      Text.StopsAt p (value ++ '<' :: rest) := by
    cases value with
    | nil => exact Text.stopsAt_cons other _
    | cons c value => exact Text.stopsAt_cons (stop c rfl) _
  induction plain with
  | nil => exact ⟨[], rfl, List.forall_mem_nil _, more⟩
  | @run piece value some_ apart kept stop _ ih =>
    obtain ⟨values, flat, nonempty, yields⟩ := ih
    refine ⟨piece :: values, by rw [List.flatten_cons, flat], List.forall_mem_cons.2 ⟨some_, nonempty⟩, ?_⟩
    rw [List.append_assoc]
    exact run some_ apart kept (behind value _ (by decide) stop) yields
  | @bracket value stop _ ih =>
    obtain ⟨values, flat, nonempty, yields⟩ := ih
    refine ⟨['<'] :: values, by rw [List.flatten_cons, flat, List.singleton_append],
      List.forall_mem_cons.2 ⟨List.cons_ne_nil _ _, nonempty⟩, ?_⟩
    exact stray (behind value _ (by decide) stop) yields

end Yields

variable {name : String} {value : Text}

theorem isPlainName_of_isVerbatim (verbatim : isVerbatim name = true) : isPlainName name = true := by
  have all : ∀ name ∈ verbatimNames, isPlainName name = true := by decide
  exact all name (List.contains_iff_mem.1 verbatim)

theorem ordinary_of_isVerbatim (verbatim : isVerbatim name = true) : name ∉ structuralNames := by
  intro structural
  rw [not_isVerbatim_of_structural structural] at verbatim
  cases verbatim

theorem not_isVoid_of_isVerbatim (verbatim : isVerbatim name = true) : isVoid name = false := by
  have all : ∀ name ∈ verbatimNames, isVoid name = false := by decide
  exact all name (List.contains_iff_mem.1 verbatim)

/-- The content of an element whose texts are written without escapes can be read as it is written. -/
def Readable (name : String) (value : Text) : Prop :=
  if isRawText name then WritableRaw name value else PlainlyRead value

theorem Readable.yields (readable : Readable name value) (verbatim : isVerbatim name = true) {rest : Text}
    {tokens : List Token} (more : Yields none rest tokens) :
    ∃ values : List Text, values.flatten = value ∧ (∀ v ∈ values, v ≠ []) ∧
      Yields (if isRawText name then some name else none) (value ++ (writtenEndTag name ++ rest))
        (values.map .text ++ .endTag name :: tokens) := by
  unfold Readable at readable
  cases raw : isRawText name with
  | true =>
    rw [raw, if_pos rfl] at readable
    exact Yields.rawText raw readable more
  | false =>
    rw [raw, if_neg Bool.false_ne_true] at readable
    have plain := isPlainName_of_isVerbatim verbatim
    exact Yields.plain readable (.endTag (isTagName_of_isPlainName plain) (dark_of_isPlainName plain) more)

section

variable {t : HtmlTree} {attributes : OrderedMap Text}
  (content : t.value.content = .element name attributes) (texts : ∀ c ∈ t.children, c.IsText)

include content texts

open Unwritten in
/-- What is written for an element whose texts are written without escapes. -/
theorem outerHtml_verbatim (verbatim : isVerbatim name = true) : t.outerHtml false =
    writtenStartTag name attributes ++ (Tree.joinedText t.children ++ writtenEndTag name) := by
  obtain ⟨v, cs⟩ := t
  dsimp only [Tree.value, Tree.children] at content texts ⊢
  rw [Tree.outerHtml, write, content]
  dsimp only
  rw [not_isVoid_of_isVerbatim verbatim, if_neg Bool.false_ne_true, write_append, ofChildren,
    Content.isVerbatimParent, verbatim, write_texts texts, write, write, List.append_nil]

/-- The shape of an element that holds nothing but texts. -/
theorem tidy_texts : t.tidy =
    .node (.element name attributes) (joinTexts [.node (.text (Tree.joinedText t.children)) []]) := by
  obtain ⟨v, cs⟩ := t
  dsimp only [Tree.value, Tree.children] at content texts ⊢
  rw [Tree.tidy, Tree.tidyAll_eq, content, joinTexts_texts texts]

end

/-- The tokens of a page that has nothing but the element. -/
theorem Readable.yields_page {attributes : OrderedMap Text} (readable : Readable name value)
    (verbatim : isVerbatim name = true) (writable : WritableAttributes attributes) :
    ∃ values : List Text, values.flatten = value ∧ (∀ v ∈ values, v ≠ []) ∧
      Yields none ("<body>".toList ++ (writtenStartTag name attributes ++ (value ++ writtenEndTag name)) ++
          "</body>".toList)
        (.startTag "body" [] false :: .startTag name attributes false ::
          (values.map .text ++ [.endTag name, .endTag "body"])) := by
  have body : isPlainName "body" = true := by decide
  have ends : Yields none (writtenEndTag "body" ++ []) [.endTag "body"] :=
    .endTag (isTagName_of_isPlainName body) (dark_of_isPlainName body) .nil
  obtain ⟨values, flat, nonempty, yields⟩ := readable.yields verbatim ends
  refine ⟨values, flat, nonempty, ?_⟩
  have front : "<body>".toList = writtenStartTag "body" [] := by decide
  have back : "</body>".toList = writtenEndTag "body" := by decide
  rw [List.append_nil] at yields
  simp only [front, back, List.append_assoc]
  refine .startTag (isTagName_of_isPlainName body) writableAttributes_nil ?_
  exact .startTag (isTagName_of_isPlainName (isPlainName_of_isVerbatim verbatim)) writable yields

theorem joinTexts_text (some_ : value ≠ []) :
    joinTexts [.node (.text value) []] = [.node (.text value) []] := by
  cases value with
  | nil => exact absurd rfl some_
  | cons c value => rfl

namespace Construction

variable {s : Construction} {x y : Lexeme} {attributes : OrderedMap Text} {texts : List Lexeme}
  {values : List Text}

/-- Texts in an element that stands in the body by itself are put in as one text, or none if they are
empty. -/
theorem foldl_body_element (stage : s.stage = .inBody) (settled : s.opened = []) (closed : s.openText = none)
    (ordinary : name ∉ structuralNames) (open_ : isVoid name = false) (distinct : attributes.keys.Nodup)
    (started : x.token = .startTag name attributes false) (pieces : texts.map (·.token) = values.map .text)
    (nonempty : ∀ v ∈ values, v ≠ []) (ended : y.token = .endTag name) :
    ∃ location cs, (x :: (texts ++ [y])).foldl add s =
        s.append (.node ⟨.element name attributes, some location⟩ cs) ∧
      cs.map (Tree.map Node.content) = joinTexts [.node (.text values.flatten) []] := by
  let e : OpenElement := ⟨name, attributes, startTagLocation x, []⟩
  let entered : Construction := { s with opened := e :: s.opened }
  have names : s.names = [] := opened_eq_nil_iff.1 settled
  have opened : s.add x = entered := by
    rw [add_startTag_inBody stage started ordinary distinct (by rw [names]; exact fun _ _ => rfl), open_,
      if_neg Bool.false_ne_true, endText_of_none closed]
  have texts_ : ∃ cs, (texts.foldl add entered).endText y.start.offset =
        { s with opened := { e with children := cs } :: s.opened } ∧
      cs.map (Tree.map Node.content) = joinTexts [.node (.text values.flatten) []] := by
    by_cases empty : values.flatten = []
    · have none : values = [] := by
        cases values with
        | nil => rfl
        | cons v values =>
          rw [List.forall_mem_cons] at nonempty
          exact absurd (List.append_eq_nil_iff.1 empty).1 nonempty.1
      rw [none] at pieces empty ⊢
      obtain rfl := List.map_eq_nil_iff.1 pieces
      exact ⟨[], endText_of_none (s := entered) closed _, rfl⟩
    · obtain ⟨start, same⟩ := foldl_pieces (s := entered) stage closed pieces empty
      refine ⟨[.node ⟨.text values.flatten, some (.plain (.ofMark start y.start.offset))⟩ []], ?_, ?_⟩
      · rw [same, endText]
        dsimp only
        rw [append_inside rfl, ← closed]
        rfl
      · rw [joinTexts_text empty]
        rfl
  obtain ⟨cs, same, shape⟩ := texts_
  refine ⟨(startTagLocation x).withEndTag (.ofMark y.start y.stop.offset), cs, ?_, shape⟩
  have closing := add_endTag_innermost ended ordinary (congrArg Construction.opened same)
  rw [List.foldl_cons, opened, List.foldl_append, List.foldl_cons, List.foldl_nil, closing, same]
  rfl

/-- The construction of a page that starts with its body, behind the start tag. -/
def behindBody (body : Lexeme) : Construction :=
  { stage := .inBody, body := some ⟨[], some (startTagLocation body)⟩ }

/-- A page with nothing but the tags of the body and one tree between them. -/
theorem documentOf_body {body bodyEnd : Lexeme} {xs : List Lexeme} {t : HtmlTree}
    (started : body.token = .startTag "body" [] false) (ended : bodyEnd.token = .endTag "body")
    (put : xs.foldl add (behindBody body) = (behindBody body).append t) (size : Nat) :
    (documentOf (body :: (xs ++ [bodyEnd])) size).map Node.content =
      pageContents [t.map Node.content] := by
  have opened : add {} body = behindBody body := by
    rw [add, started]
    rfl
  rw [documentOf, List.foldl_cons, opened, List.foldl_append, put, List.foldl_cons, List.foldl_nil, add,
    ended]
  rfl

end Construction

variable {source : Text} {tree t : HtmlTree} {attributes : OrderedMap Text}

open Construction in
/-- An element whose texts are written without escapes, and which holds nothing but texts, is read again as
it was, with its texts joined, where its text can be read as it is written. -/
theorem parseHtml_verbatim (parsed : parseHtml source = .ok tree) (member : t ∈ tree.subtrees)
    (content : t.value.content = .element name attributes) (verbatim : isVerbatim name = true)
    (texts : ∀ c ∈ t.children, c.IsText)
    (readable : isRawText name = true ∨ PlainlyRead (Tree.joinedText t.children)) :
    ∃ again, parseHtml ("<body>".toList ++ t.outerHtml false ++ "</body>".toList) = .ok again ∧
      again.map Node.content = pageContents [t.tidy] := by
  obtain ⟨_, writable⟩ := (parseHtml_writable parsed).at_subtree member
  rw [WritableNode, content] at writable
  obtain ⟨_, entries, rawText⟩ := writable
  have readable : Readable name (Tree.joinedText t.children) := by
    unfold Readable
    split
    · next raw => exact (rawText raw).2
    · next cooked => exact readable.resolve_left cooked
  obtain ⟨values, flat, nonempty, yields⟩ := readable.yields_page verbatim entries
  obtain ⟨xs, cut, lexed⟩ := yields .origin
  obtain ⟨body, xs, rfl, bodyToken, lexed⟩ := List.map_eq_cons_iff.1 lexed
  obtain ⟨x, xs, rfl, started, lexed⟩ := List.map_eq_cons_iff.1 lexed
  obtain ⟨xs, ends, rfl, pieces, lexed⟩ := List.map_eq_append_iff.1 lexed
  obtain ⟨y, ends, rfl, ended, lexed⟩ := List.map_eq_cons_iff.1 lexed
  obtain ⟨bodyEnd, ends, rfl, bodyEndToken, lexed⟩ := List.map_eq_cons_iff.1 lexed
  obtain rfl := List.map_eq_nil_iff.1 lexed
  obtain ⟨location, ds, put, shape⟩ := foldl_body_element (s := behindBody body) rfl rfl rfl
    (ordinary_of_isVerbatim verbatim) (not_isVoid_of_isVerbatim verbatim) entries.distinct started pieces
    nonempty ended
  have whole : body :: x :: (xs ++ [y, bodyEnd]) = body :: ((x :: (xs ++ [y])) ++ [bodyEnd]) := by simp
  refine ⟨_, by rw [outerHtml_verbatim content texts verbatim, parseHtml, lexemes, cut]; rfl, ?_⟩
  rw [whole, documentOf_body bodyToken bodyEndToken put, tidy_texts content texts, Tree.map, Tree.mapAll_eq,
    shape, flat]

/-- An element of a document whose children are texts, from what can be seen of the document. -/
theorem exists_element_of_text (source : Text) (index : Nat) (name : String) (value : Text)
    (known : (parseHtml source).toOption.map (fun tree => (tree.subtrees[index]?).map fun t =>
      (t.value.content.elementName?, t.value.content.attributes.isEmpty, t.children.all fun c =>
        c.value.content.isText && c.children.isEmpty, Tree.joinedText t.children)) =
          some (some (some name, true, true, value))) :
    ∃ tree t, parseHtml source = .ok tree ∧ t ∈ tree.subtrees ∧ t.value.content = .element name [] ∧
      (∀ c ∈ t.children, c.IsText) ∧ Tree.joinedText t.children = value := by
  obtain ⟨tree, parsed, seen⟩ := parseHtml_of_map known
  obtain ⟨t, place, same⟩ := Option.map_eq_some_iff.1 seen
  simp only [Prod.mk.injEq] at same
  obtain ⟨named, bare, texts, joined⟩ := same
  refine ⟨tree, t, parsed, List.mem_of_getElem? place, ?_, ?_, joined⟩
  · cases content : t.value.content <;>
      simp_all [Content.elementName?, Content.attributes]
  · intro c child
    have text := List.all_eq_true.1 texts c child
    obtain ⟨v, cs⟩ := c
    rw [Bool.and_eq_true, Tree.children, List.isEmpty_iff] at text
    obtain ⟨isText, rfl⟩ := text
    cases content : v.content <;> rw [Tree.value, content] at isText <;> cases isText
    exact ⟨v, _, rfl, content⟩

theorem parseHtml_verbatim_brackets :
    ∃ tree t again, parseHtml "<p><xmp>1 < 2</xmp>".toList = .ok tree ∧ t ∈ tree.subtrees ∧
      t.value.content = .element "xmp" [] ∧
      parseHtml ("<body>".toList ++ t.outerHtml false ++ "</body>".toList) = .ok again ∧
      again.map Node.content =
        pageContents [.node (.element "xmp" []) [.node (.text "1 < 2".toList) []]] := by
  obtain ⟨tree, t, parsed, member, content, texts, joined⟩ :=
    exists_element_of_text "<p><xmp>1 < 2</xmp>".toList 5 "xmp" "1 < 2".toList (by decide +kernel)
  have readable : PlainlyRead (Tree.joinedText t.children) := by
    have second : PlainlyRead " 2".toList := .of_not_mem (by decide) (by decide)
    have bracket : PlainlyRead ('<' :: " 2".toList) := .bracket (Text.stopsAt_cons (by decide) _) second
    have first : decodeReferences "1 ".toList = .ok "1 ".toList := decodeReferences_plain (by decide)
    rw [joined]
    exact .run (by decide) (by decide) first (Text.stopsAt_cons (by decide) _) bracket
  obtain ⟨again, reread, shape⟩ :=
    parseHtml_verbatim parsed member content (by decide) texts (.inr readable)
  refine ⟨tree, t, again, parsed, member, content, reread, ?_⟩
  rw [shape, tidy_texts content texts, joined]
  rfl

/-- A text with a reference in it is written without it, and what is written is read as markup. -/
theorem verbatim_reread_as_markup :
    ∃ tree t again, parseHtml "<body><xmp>&lt;b></xmp></body>".toList = .ok tree ∧ t ∈ tree.subtrees ∧
      t.value.content = .element "xmp" [] ∧ isVerbatim "xmp" = true ∧ (∀ c ∈ t.children, c.IsText) ∧
      parseHtml ("<body>".toList ++ t.outerHtml false ++ "</body>".toList) = .ok again ∧
      again.map Node.content ≠ pageContents [t.tidy] := by
  obtain ⟨tree, t, parsed, member, content, texts, joined⟩ :=
    exists_element_of_text "<body><xmp>&lt;b></xmp></body>".toList 4 "xmp" "<b>".toList (by decide +kernel)
  have written : t.outerHtml false = "<xmp><b></xmp>".toList := by
    rw [outerHtml_verbatim content texts (by decide), joined]
    decide
  have known : (parseHtml "<body><xmp><b></xmp></body>".toList).toOption.map
      (fun again => (again.map Node.content).subtrees.getLast?.map (·.value.elementName?)) =
        some (some (some "b")) := by decide +kernel
  obtain ⟨again, reread, last⟩ := parseHtml_of_map known
  refine ⟨tree, t, again, parsed, member, content, by decide, texts, by rw [written]; exact reread, ?_⟩
  intro same
  rw [same, tidy_texts content texts, joined] at last
  exact absurd last (by decide +kernel)

end LocatedHtml
