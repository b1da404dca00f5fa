import LocatedHtml.Proofs.Construction.Finished
import LocatedHtml.Proofs.Lexing.Blocks
import LocatedHtml.Proofs.Written.Events

/-!
The lexemes of a raw text element, taken together, put the whole element where its start tag puts it:
nothing but text comes into the element while it is open.
-/

namespace LocatedHtml

/-- A raw text element that starts with a lexeme, with its text. -/
structure IsRawElement (x : Lexeme) (name : String) (attributes : List (String × Text)) (value : Text)
    (t : HtmlTree) : Prop where
  content : t.value.content = .element name (OrderedMap.insertAllNew [] attributes)
  opening : t.value.location.map Location.opening = some (Construction.startTagLocation x).opening
  texts : ∀ c ∈ t.children, c.IsText
  joined : Tree.joinedText t.children = value

theorem IsRawElement.located {x : Lexeme} {name : String} {attributes : List (String × Text)}
    {value : Text} {t : HtmlTree} (element : IsRawElement x name attributes value t) :
    t.value.location.isSome = true := by
  rw [← Option.isSome_map, element.opening]
  rfl

namespace Construction

variable {s : Construction} {x y : Lexeme} {name : String} {attributes : List (String × Text)}
  {value : Text} {texts : List Lexeme}

/-- Text in an open element does nothing but go on. -/
theorem foldl_texts (inside : s.betweenSections = false) (content : IsContent value texts) :
    ∃ o, texts.foldl add s = { s with openText := o } ∧ pending o = pending s.openText ++ value := by
  obtain ⟨values, tokens, rfl⟩ := content
  induction texts generalizing s values with
  | nil =>
    cases values with
    | nil => exact ⟨s.openText, rfl, (List.append_nil _).symm⟩
    | cons v values => cases tokens
  | cons x texts ih =>
    cases values with
    | nil => cases tokens
    | cons v values =>
      rw [List.map_cons, List.map_cons] at tokens
      injection tokens with token tokens
      have step : ∃ o, s.add x = { s with openText := o } ∧ pending o = pending s.openText ++ v := by
        unfold Construction.add
        rw [token]
        dsimp only
        unfold Construction.addText
        rw [inside, Bool.and_false, if_neg Bool.false_ne_true]
        cases s.openText with
        | none => exact ⟨_, rfl, rfl⟩
        | some p => exact ⟨_, rfl, rfl⟩
      obtain ⟨o, same, first⟩ := step
      obtain ⟨o', later, rest⟩ := ih (s := { s with openText := o }) inside values tokens
      refine ⟨o', ?_, ?_⟩
      · rw [List.foldl_cons, same, later]
      · rw [rest, first, List.flatten_cons, List.append_assoc]

/-- The construction after the start tag of a raw text element and its text. -/
theorem foldl_raw (staged : (s.placeFor x.start.offset name).stage.hasOpened)
    (started : StartsRaw x name attributes) (content : IsContent value texts) :
    ∃ o, pending o = value ∧ (x :: texts).foldl add s =
      { s.placeFor x.start.offset name with
        openText := o
        opened := ⟨name, OrderedMap.insertAllNew [] attributes, startTagLocation x, []⟩ ::
          (s.placeFor x.start.offset name).opened } := by
  have first : s.add x = { s.placeFor x.start.offset name with
      opened := ⟨name, OrderedMap.insertAllNew [] attributes, startTagLocation x, []⟩ ::
        (s.placeFor x.start.offset name).opened } := by
    unfold Construction.add
    rw [started.token]
    dsimp only
    rw [addStartTag_ordinary (ordinary_of_isRawText started.raw), addElement_eq]
    dsimp only
    rw [isVoid_of_isRawText started.raw, Bool.or_false, if_neg Bool.false_ne_true]
  have inside : (s.add x).betweenSections = false := by
    rw [first, betweenSections]
    rcases staged with here | here
    · rw [here]
      rfl
    · rw [here]
  have closed := placeFor_openText s x.start.offset name
  obtain ⟨o, later, whole⟩ := foldl_texts inside content
  refine ⟨o, ?_, ?_⟩
  · rw [whole, first]
    dsimp only
    rw [closed]
    rfl
  · rw [List.foldl_cons, later, first]

theorem endText_raw {P : Construction} {e : OpenElement} {o : Option OpenText}
    (settled : P.openText = none) (empty : e.children = []) (stop : Nat) :
    ∃ cs, (∀ c ∈ cs, c.IsText) ∧ Tree.joinedText cs = pending o ∧
      endText { P with openText := o, opened := e :: P.opened } stop =
        { P with opened := { e with children := cs } :: P.opened } := by
  cases o with
  | none =>
    refine ⟨[], by simp, rfl, ?_⟩
    have same : { e with children := [] } = e := by rw [← empty]
    rw [endText_of_none rfl, same, settled]
  | some p =>
    refine ⟨[.node ⟨.text p.value, some (.plain (.ofMark p.start stop))⟩ []], ?_, ?_, ?_⟩
    · intro c member
      rw [List.mem_singleton.1 member]
      exact ⟨_, _, rfl, rfl⟩
    · exact List.append_nil _
    · rw [endText]
      dsimp only
      rw [append_inside rfl, empty, ← settled]
      rfl

/-- A raw text element with its end tag is put in as a whole. -/
theorem foldl_raw_closed (staged : (s.placeFor x.start.offset name).stage.hasOpened)
    (started : StartsRaw x name attributes) (content : IsContent value texts)
    (ended : y.token = .endTag name) :
    ∃ t, IsRawElement x name attributes value t ∧
      (x :: (texts ++ [y])).foldl add s = (s.placeFor x.start.offset name).append t := by
  obtain ⟨o, whole, same⟩ := foldl_raw staged started content
  have settled := placeFor_openText s x.start.offset name
  obtain ⟨cs, isTexts, joined, settledText⟩ := endText_raw
    (e := ⟨name, OrderedMap.insertAllNew [] attributes, startTagLocation x, []⟩) (o := o) settled rfl
    y.start.offset
  refine ⟨OpenElement.toTree ⟨name, OrderedMap.insertAllNew [] attributes,
    (startTagLocation x).withEndTag (.ofMark y.start y.stop.offset), cs⟩,
    ⟨rfl, rfl, isTexts, joined.trans whole⟩, ?_⟩
  have closing := add_endTag_innermost ended (ordinary_of_isRawText started.raw)
    (congrArg Construction.opened settledText)
  rw [← List.cons_append, List.foldl_append, same, List.foldl_cons, List.foldl_nil, closing, settledText]

theorem closeAll_push (P : Construction) (e : OpenElement) :
    closeAll { P with opened := e :: P.opened } = (P.append e.toTree).closeAll := by
  have length : (P.append e.toTree).opened.length = P.opened.length := by
    have same := congrArg List.length (append_names P e.toTree)
    simpa only [names, List.length_map] using same
  rw [closeAll, closeAll, length]
  rfl

/-- A raw text element that is not closed stands in the document as a whole. -/
theorem toTree_raw_unclosed (staged : (s.placeFor x.start.offset name).stage.hasOpened)
    (started : StartsRaw x name attributes) (content : IsContent value texts) (stop : Nat) :
    ∃ t, IsRawElement x name attributes value t ∧
      (((x :: texts).foldl add s).endText stop).toTree =
        ((s.placeFor x.start.offset name).append t).toTree := by
  obtain ⟨o, whole, same⟩ := foldl_raw staged started content
  have settled := placeFor_openText s x.start.offset name
  obtain ⟨cs, isTexts, joined, settledText⟩ := endText_raw
    (e := ⟨name, OrderedMap.insertAllNew [] attributes, startTagLocation x, []⟩) (o := o) settled rfl
    stop
  refine ⟨OpenElement.toTree ⟨name, OrderedMap.insertAllNew [] attributes, startTagLocation x, cs⟩,
    ⟨rfl, rfl, isTexts, joined.trans whole⟩, ?_⟩
  rw [same, settledText, toTree, closeAll_push]
  rfl

end Construction

end LocatedHtml
