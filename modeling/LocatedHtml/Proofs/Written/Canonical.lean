import LocatedHtml.Proofs.Lexing.WritableTokens
import LocatedHtml.Proofs.Written.Rendering
import LocatedHtml.Proofs.Written.Spelling
import Mathlib.Data.List.Chain

/-!
Forests in which nothing has to be repaired when they are read: what is written for such a forest is cut
into the tokens of its nodes, one after another.
-/

namespace LocatedHtml

/-- True of an ASCII letter in lower case. -/
def isLowerLetter (c : Char) : Bool := 'a' ≤ c && c ≤ 'z'

/-- True of a letter in lower case with such letters, digits and hyphens behind it. -/
def isPlainName (name : String) : Bool :=
  match name.toList with
  | [] => false
  | c :: rest => isLowerLetter c && rest.all fun d => isLowerLetter d || isDigit d || d = '-'

/-- An element that is read as it is written, below elements of the given names. -/
structure CanonicalElement (above : List String) (name : String) (attributes : OrderedMap Text)
    (cs : List HtmlTree) : Prop where
  plain : isPlainName name = true
  ordinary : name ∉ structuralNames
  known : name ∉ misreadNames
  fits : ∀ rule ∈ ClosingRule.rulesFor name, rule.count above = 0
  keys : ∀ entry ∈ attributes, isPlainName entry.1 = true
  distinct : attributes.keys.Nodup
  void : isVoid name = true → cs = []
  raw : isRawText name = true → cs = [] ∨
    ∃ c value, cs = [c] ∧ c.value.content = .text value ∧ ¬['<', '/'] <:+: value
  apart : TextsApart cs

/-- A node that is read as it is written, below elements of the given names. -/
def CanonicalNode (above : List String) (t : HtmlTree) : Prop :=
  match t.value.content with
  | .element name attributes => CanonicalElement above name attributes t.children
  | .text value => value ≠ [] ∧ t.children = []
  | .comment value => '>' ∉ value ∧ t.children = []
  | .doctype _ | .document => False

/-- Trees next to each other that are read as they are written, below elements of the given names. -/
structure Canonical (above : List String) (ts : List HtmlTree) : Prop where
  nodes : ∀ t ∈ ts, Everywhere CanonicalNode above t
  apart : TextsApart ts

/-- A character of a plain name. -/
structure IsPlainChar (c : Char) : Prop where
  ascii : c.toNat < 0x80
  lower : c.toLower = c
  dark : isBlank c = false
  inTag : isTagNameChar c = true
  inAttribute : isAttributeNameChar c = true

theorem isPlainChar_of {c : Char} (plain : (isLowerLetter c || isDigit c || c = '-') = true) :
    IsPlainChar c := by
  have ascii : c.toNat < 0x80 := by
    simp only [isLowerLetter, isDigit, Bool.or_eq_true, Bool.and_eq_true, decide_eq_true_eq] at plain
    rcases plain with (⟨_, high⟩ | ⟨_, high⟩) | rfl
    · exact Nat.lt_of_le_of_lt high (by decide)
    · exact Nat.lt_of_le_of_lt high (by decide)
    · decide
  have all : ∀ n < 0x80, (isLowerLetter (Char.ofNat n) || isDigit (Char.ofNat n) ||
      Char.ofNat n = '-') = true → (Char.ofNat n).toLower = Char.ofNat n ∧
        isBlank (Char.ofNat n) = false ∧ isTagNameChar (Char.ofNat n) = true ∧
        isAttributeNameChar (Char.ofNat n) = true := by decide +kernel
  have here := all c.toNat ascii
  rw [Char.ofNat_toNat] at here
  obtain ⟨lower, dark, inTag, inAttribute⟩ := here plain
  exact ⟨ascii, lower, dark, inTag, inAttribute⟩

/-- A plain name and its characters. -/
theorem isPlainName_cases {name : String} (plain : isPlainName name = true) :
    (∀ c ∈ name.toList, IsPlainChar c) ∧ ∃ c rest, name.toList = c :: rest ∧ isLowerLetter c = true := by
  unfold isPlainName at plain
  split at plain
  · cases plain
  · next c rest written =>
    rw [Bool.and_eq_true, List.all_eq_true] at plain
    refine ⟨?_, c, rest, written, plain.1⟩
    rw [written, List.forall_mem_cons]
    refine ⟨isPlainChar_of (by rw [plain.1]; rfl), fun d member => isPlainChar_of (plain.2 d member)⟩

theorem lowerName_of_isPlainName {name : String} (plain : isPlainName name = true) :
    Text.lowerName name.toList = name := by
  have all := (isPlainName_cases plain).1
  rw [Text.lowerName_ascii fun c member => (all c member).ascii,
    List.map_congr_left fun c member => (all c member).lower, List.map_id', String.ofList_toList]

theorem isTagName_of_isPlainName {name : String} (plain : isPlainName name = true) : IsTagName name := by
  obtain ⟨all, c, rest, written, letter⟩ := isPlainName_cases plain
  refine ⟨?_, fun c member => (all c member).inTag, lowerName_of_isPlainName plain⟩
  rw [written]
  change isLetter c = true
  rw [isLetter, Bool.or_eq_true]
  exact .inl letter

theorem isAttributeName_of_isPlainName {name : String} (plain : isPlainName name = true) :
    IsAttributeName name := by
  obtain ⟨all, c, rest, written, letter⟩ := isPlainName_cases plain
  refine ⟨?_, fun c member => (all c (List.mem_of_mem_tail member)).inAttribute,
    lowerName_of_isPlainName plain⟩
  rw [written]
  change startsAttributeName c = true
  have first := (all c (by rw [written]; exact List.mem_cons_self)).inAttribute
  simp only [isAttributeNameChar, startsAttributeName, Bool.not_eq_true', Bool.or_eq_false_iff] at first ⊢
  exact ⟨⟨first.1.1.1, first.1.1.2⟩, first.2⟩

theorem dark_of_isPlainName {name : String} (plain : isPlainName name = true) :
    ∀ c ∈ name.toList, isBlank c = false :=
  fun c member => ((isPlainName_cases plain).1 c member).dark

/-- The tokens of some trees, one after another; a text may have come in several pieces. -/
inductive SpelledBy : List HtmlTree → List Token → Prop
  | nil : SpelledBy [] []
  | text {v : Node} {values : List Text} {ts : List HtmlTree} {tokens : List Token}
      (content : v.content = .text values.flatten) (nonempty : values.flatten ≠ [])
      (more : SpelledBy ts tokens) : SpelledBy (.node v [] :: ts) (values.map .text ++ tokens)
  | comment {v : Node} {value : Text} {ts : List HtmlTree} {tokens : List Token}
      (content : v.content = .comment value) (more : SpelledBy ts tokens) :
      SpelledBy (.node v [] :: ts) (.comment value :: tokens)
  | single {v : Node} {name : String} {attributes : OrderedMap Text} {ts : List HtmlTree}
      {tokens : List Token} (content : v.content = .element name attributes)
      (void : isVoid name = true) (more : SpelledBy ts tokens) :
      SpelledBy (.node v [] :: ts) (.startTag name attributes false :: tokens)
  | element {v : Node} {name : String} {attributes : OrderedMap Text} {cs ts : List HtmlTree}
      {inner tokens : List Token} (content : v.content = .element name attributes)
      (open_ : isVoid name = false) (inside : SpelledBy cs inner) (more : SpelledBy ts tokens) :
      SpelledBy (.node v cs :: ts) (.startTag name attributes false :: (inner ++ .endTag name :: tokens))

namespace Canonical

variable {above : List String} {t : HtmlTree} {ts : List HtmlTree}

theorem head (canonical : Canonical above (t :: ts)) : Everywhere CanonicalNode above t :=
  canonical.nodes t List.mem_cons_self

theorem tail (canonical : Canonical above (t :: ts)) : Canonical above ts where
  nodes u member := canonical.nodes u (List.mem_cons_of_mem t member)
  apart := (List.isChain_cons.1 canonical.apart).2

theorem children {v : Node} {name : String} {attributes : OrderedMap Text} {cs : List HtmlTree}
    (canonical : Canonical above (.node v cs :: ts)) (content : v.content = .element name attributes) :
    CanonicalElement above name attributes cs ∧ Canonical (name :: above) cs := by
  have top := canonical.head.top
  have below := canonical.head.child
  unfold CanonicalNode at top
  dsimp only [Tree.value, Tree.children] at top below
  rw [content] at top below
  exact ⟨top, below, top.apart⟩

open Unwritten in
/-- Behind a text comes no other one, so what is written there does not go on with it. -/
theorem stopsAt (canonical : Canonical above (t :: ts)) (text : t.value.content.isText = true)
    {rest : Text} (stop : Text.StopsAt (· != '<') rest) :
    Text.StopsAt (· != '<') (write (ts.map (.tree false)) ++ rest) := by
  cases ts with
  | nil =>
    rw [List.map_nil, write]
    exact stop
  | cons u ts =>
    have apart := (List.isChain_cons_cons.1 canonical.apart).1
    rw [text] at apart
    have other := apart.resolve_left (by decide)
    have top := canonical.tail.head.top
    obtain ⟨v, cs⟩ := u
    unfold CanonicalNode at top
    dsimp only [Tree.value] at top other
    rw [List.map_cons, write]
    cases content : v.content <;> rw [content] at top other
    case text => cases other
    case doctype => exact top.elim
    case document => exact top.elim
    case element name attributes => exact Text.stopsAt_cons (by decide) _
    case comment value => exact Text.stopsAt_cons (by decide) _

end Canonical

theorem writableRaw_of_no_end {name : String} {value : Text} (apart : ¬['<', '/'] <:+: value) :
    WritableRaw name value := by
  intro back suffix n ended
  obtain ⟨before, written, after, rest, rfl, _⟩ := rawTextEnd?_eq_some ended
  exact absurd ((List.prefix_append ['<', '/'] _).isInfix.trans suffix.isInfix) apart

open Unwritten in
/-- What is written for the content of a raw text element is cut into its pieces and the end tag. -/
theorem Canonical.yields_raw {above : List String} {name : String} {cs : List HtmlTree}
    (raw : isRawText name = true) (canonical : Canonical above cs)
    (shape : cs = [] ∨ ∃ c value, cs = [c] ∧ c.value.content = .text value ∧ ¬['<', '/'] <:+: value)
    {rest : Text} {more : List Token} (yields : Yields none rest more) :
    ∃ inner, SpelledBy cs inner ∧
      Yields (some name) (write (cs.map (.tree true)) ++ (writtenEndTag name ++ rest))
        (inner ++ .endTag name :: more) := by
  rcases shape with rfl | ⟨c, value, rfl, text, apart⟩
  · obtain ⟨values, flat, nonempty, pieces⟩ := Yields.rawText raw .nil yields
    obtain rfl : values = [] := by
      cases values with
      | nil => rfl
      | cons v values =>
        rw [List.forall_mem_cons] at nonempty
        exact absurd (List.append_eq_nil_iff.1 flat).1 nonempty.1
    rw [List.map_nil, write]
    exact ⟨[], .nil, pieces⟩
  · obtain ⟨v, cs⟩ := c
    have top := canonical.head.top
    unfold CanonicalNode at top
    dsimp only [Tree.value, Tree.children] at top text
    rw [text] at top
    obtain ⟨some_, rfl⟩ := top
    obtain ⟨values, rfl, _, pieces⟩ := Yields.rawText raw (writableRaw_of_no_end apart) yields
    refine ⟨values.map .text ++ [], .text text some_ .nil, ?_⟩
    rw [List.append_nil, List.map_singleton, write, text]
    dsimp only
    rw [write, writtenText, if_pos rfl, List.append_nil]
    exact pieces

open Unwritten in
/-- What is written for a canonical forest is cut into the tokens of its nodes. -/
theorem Canonical.yields {above : List String} {ts : List HtmlTree} (canonical : Canonical above ts)
    {rest : Text} {more : List Token} (yields : Yields none rest more)
    (stop : Text.StopsAt (· != '<') rest) :
    ∃ tokens, SpelledBy ts tokens ∧
      Yields none (write (ts.map (.tree false)) ++ rest) (tokens ++ more) := by
  -- the children of a first tree and the trees behind it are both smaller forests
  induction size : Tree.sizeAll ts using Nat.strongRecOn generalizing above ts rest more with
  | ind n ih =>
    subst size
    cases ts with
    | nil =>
      rw [List.map_nil, write]
      exact ⟨[], .nil, yields⟩
    | cons t ts =>
      obtain ⟨v, cs⟩ := t
      have smaller : Tree.sizeAll cs + Tree.sizeAll ts < Tree.sizeAll (.node v cs :: ts) := by
        simp only [Tree.sizeAll, Tree.size]
        omega
      obtain ⟨tokens, spelled, later⟩ := ih _ (by omega) canonical.tail yields stop rfl
      have top := canonical.head.top
      unfold CanonicalNode at top
      dsimp only [Tree.value, Tree.children] at top
      rw [List.map_cons, write]
      cases content : v.content <;> rw [content] at top
      case doctype => exact top.elim
      case document => exact top.elim
      case text value =>
        obtain ⟨nonempty, rfl⟩ := top
        have whole : value = [value].flatten := (List.append_nil value).symm
        have one : SpelledBy (.node v [] :: ts) ([value].map .text ++ tokens) :=
          .text (by rw [content, ← whole]) (by rw [← whole]; exact nonempty) spelled
        refine ⟨_, one, ?_⟩
        dsimp only
        rw [List.append_assoc]
        exact .text nonempty (canonical.stopsAt (by rw [Tree.value, content]; rfl) stop) later
      case comment value =>
        obtain ⟨apart, rfl⟩ := top
        refine ⟨_, .comment content spelled, ?_⟩
        dsimp only
        rw [List.append_assoc]
        exact .comment (writableComment_of_not_mem apart) later
      case element name attributes =>
        obtain ⟨element, inside⟩ := canonical.children content
        have tag := isTagName_of_isPlainName element.plain
        have writable : WritableAttributes attributes :=
          ⟨fun entry member => isAttributeName_of_isPlainName (element.keys entry member), element.distinct⟩
        dsimp only
        rw [List.append_assoc]
        cases void : isVoid name with
        | true =>
          obtain rfl := element.void void
          refine ⟨_, .single content void spelled, .startTag tag writable ?_⟩
          rw [not_isRawText_of_isVoid void]
          exact later
        | false =>
          rw [if_neg Bool.false_ne_true, write_append, write, List.append_assoc, List.append_assoc, ofChildren]
          cases raw : isRawText name with
          | true =>
            have verbatim : (Content.element name attributes).isVerbatimParent = true :=
              isVerbatim_of_isRawText raw
            obtain ⟨inner, spelledInside, yieldsInside⟩ :=
              inside.yields_raw raw (element.raw raw) later
            refine ⟨_, .element content void spelledInside spelled, ?_⟩
            rw [verbatim, List.cons_append, List.append_assoc]
            refine .startTag tag writable ?_
            rw [if_pos raw]
            exact yieldsInside
          | false =>
            have escaped : (Content.element name attributes).isVerbatimParent = false := by
              rw [← Bool.not_eq_true]
              intro verbatim
              have cooked := isRawText_of_isVerbatim element.known verbatim
              rw [raw] at cooked
              cases cooked
            have dark := dark_of_isPlainName element.plain
            obtain ⟨inner, spelledInside, yieldsInside⟩ :=
              ih _ (by omega) inside (.endTag tag dark later) (Text.stopsAt_cons (by decide) _) rfl
            refine ⟨_, .element content void spelledInside spelled, ?_⟩
            rw [escaped, List.cons_append, List.append_assoc]
            refine .startTag tag writable ?_
            rw [if_neg (by rw [raw]; decide)]
            exact yieldsInside

end LocatedHtml
