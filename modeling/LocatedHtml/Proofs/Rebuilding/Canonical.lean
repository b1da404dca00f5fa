import LocatedHtml.Proofs.Construction.Placement
import LocatedHtml.Proofs.Construction.RawElements
import LocatedHtml.Proofs.Written.Canonical

/-!
Reading the tokens of a canonical forest in the body, or in an element there, puts the forest in: every
tree of it once, with all end tags found.
-/

namespace LocatedHtml

/-- An element that can have content has its end tag in the source. -/
def Ended (t : HtmlTree) : Prop :=
  ∀ name, t.value.content.elementName? = some name → isVoid name = false → t.value.isClosed = true

/-- Trees of the given shape in which every element has its end tag. -/
structure Rebuilds (ts us : List HtmlTree) : Prop where
  shape : us.map (Tree.map Node.content) = ts.map (Tree.map Node.content)
  ended : ∀ u ∈ us, ∀ t ∈ u.subtrees, Ended t

theorem Rebuilds.nil : Rebuilds [] [] := ⟨rfl, List.forall_mem_nil _⟩

/-- A tree in front of others. -/
theorem Rebuilds.cons {v w : Node} {cs ds ts us : List HtmlTree} (content : w.content = v.content)
    (ended : Ended (.node w ds)) (inner : Rebuilds cs ds) (more : Rebuilds ts us) :
    Rebuilds (.node v cs :: ts) (.node w ds :: us) where
  shape := by
    rw [List.map_cons, List.map_cons, more.shape, Tree.map, Tree.map, Tree.mapAll_eq, Tree.mapAll_eq,
      inner.shape, content]
  ended := by
    rw [List.forall_mem_cons]
    refine ⟨fun t member => ?_, more.ended⟩
    rcases Tree.mem_subtrees_node.1 member with rfl | ⟨d, child, member⟩
    · exact ended
    · exact inner.ended d child t member

theorem ended_of_unnamed {v : Node} {cs : List HtmlTree} (unnamed : v.content.elementName? = none) :
    Ended (.node v cs) := by
  intro name named
  rw [Tree.value, unnamed] at named
  cases named

namespace Construction

variable {s : Construction}

theorem appendAll_inside {e : OpenElement} {outer : List OpenElement} (inside : s.opened = e :: outer)
    (us : List HtmlTree) :
    us.foldl append s = { s with opened := { e with children := e.children ++ us } :: outer } := by
  induction us generalizing s e with
  | nil =>
    rw [List.foldl_nil, List.append_nil, ← inside]
  | cons u us ih =>
    rw [List.foldl_cons, append_inside inside, ih rfl, List.append_assoc, List.singleton_append]

theorem appendAll_inBody (settled : s.opened = []) (stage : s.stage = .inBody) (us : List HtmlTree) :
    us.foldl append s = { s with inBody := s.inBody ++ us } := by
  induction us generalizing s with
  | nil => rw [List.foldl_nil, List.append_nil]
  | cons u us ih =>
    have step : s.append u = { s with inBody := s.inBody ++ [u] } := by
      simp only [append, settled, stage]
    rw [List.foldl_cons, step, ih (s := { s with inBody := s.inBody ++ [u] }) settled stage,
      List.append_assoc, List.singleton_append]

/-- In the body an element goes where content is put, unless its start tag closes something. -/
theorem placeFor_inBody {name : String} (stage : s.stage = .inBody)
    (fits : ∀ rule ∈ ClosingRule.rulesFor name, rule.count s.names = 0) (offset : Nat) :
    s.placeFor offset name = s.endText offset := by
  have inside : (s.endText offset).betweenSections = false := by
    rw [endText_betweenSections, betweenSections, stage]
  rw [placeFor, openSection, inside, if_neg Bool.false_ne_true]
  apply closeBefore_of_counts
  rw [endText_names]
  exact fits

/-- A start tag in the body whose element closes nothing puts a void element in and opens another one. -/
theorem add_startTag_inBody {x : Lexeme} {name : String} {attributes : OrderedMap Text}
    (stage : s.stage = .inBody) (token : x.token = .startTag name attributes false)
    (ordinary : name ∉ structuralNames) (distinct : attributes.keys.Nodup)
    (fits : ∀ rule ∈ ClosingRule.rulesFor name, rule.count s.names = 0) :
    s.add x = if isVoid name then
        (s.endText x.start.offset).append (.node ⟨.element name attributes, some (startTagLocation x)⟩ [])
      else { s.endText x.start.offset with
        opened := ⟨name, attributes, startTagLocation x, []⟩ :: (s.endText x.start.offset).opened } := by
  rw [add, token]
  dsimp only
  rw [addStartTag_ordinary ordinary, addElement_eq, placeFor_inBody stage fits,
    OrderedMap.insertAllNew_nil distinct]
  rfl

theorem foldl_pieces {texts : List Lexeme} {values : List Text} (stage : s.stage = .inBody)
    (settled : s.openText = none) (pieces : texts.map (·.token) = values.map .text)
    (nonempty : values.flatten ≠ []) :
    ∃ start, texts.foldl add s = { s with openText := some ⟨start, values.flatten⟩ } := by
  have inside : s.betweenSections = false := by rw [betweenSections, stage]
  obtain ⟨o, same, whole⟩ := foldl_texts inside ⟨values, pieces, rfl⟩
  rw [settled, pending, pending] at whole
  cases o with
  | none => exact absurd whole.symm nonempty
  | some p =>
    have value : p.value = values.flatten := whole
    exact ⟨p.start, by rw [same, ← value]⟩

/-- The forest has been put in when the text that is open at its end has ended. -/
def TakesIn (s : Construction) (ts : List HtmlTree) (xs : List Lexeme) : Prop :=
  ∀ stop, ∃ place us, (xs.foldl add s).endText stop = us.foldl append (s.endText place) ∧ Rebuilds ts us

/-- A tree that is put in as a whole, with what is read behind it. -/
theorem TakesIn.behind {v w : Node} {cs ds ts : List HtmlTree} {front ys : List Lexeme} {place : Nat}
    (put : front.foldl add s = (s.endText place).append (.node w ds)) (content : w.content = v.content)
    (ended : Ended (.node w ds)) (inner : Rebuilds cs ds)
    (later : ((s.endText place).append (.node w ds)).TakesIn ts ys) :
    s.TakesIn (.node v cs :: ts) (front ++ ys) := by
  intro stop
  obtain ⟨behind, us, same, rebuilds⟩ := later stop
  have closed : ((s.endText place).append (.node w ds)).openText = none := by
    rw [append_openText, endText_openText]
  refine ⟨place, .node w ds :: us, ?_, .cons content ended inner rebuilds⟩
  rw [List.foldl_append, put, same, endText_of_none closed, List.foldl_cons]

/-- The tokens of a canonical forest put the forest in. -/
theorem takesIn {ts : List HtmlTree} {tokens : List Token} (spelled : SpelledBy ts tokens)
    {xs : List Lexeme} (lexed : xs.map (·.token) = tokens) (canonical : Canonical s.names ts)
    (stage : s.stage = .inBody)
    (settled : (∃ t ∈ ts.head?, t.value.content.isText = true) → s.openText = none) :
    s.TakesIn ts xs := by
  induction spelled generalizing s xs with
  | nil =>
    obtain rfl := List.map_eq_nil_iff.1 lexed
    exact fun stop => ⟨stop, [], rfl, .nil⟩
  | @text v values ts tokens content nonempty more ih =>
    -- the text stays open; it ends with what comes next, which is no text
    obtain ⟨texts, ys, rfl, pieces, rest⟩ := List.map_eq_append_iff.1 lexed
    have isText : v.content.isText = true := by rw [content]; rfl
    have settled := settled ⟨_, rfl, isText⟩
    obtain ⟨start, opened⟩ := foldl_pieces stage settled pieces nonempty
    have apart : (∃ t ∈ ts.head?, t.value.content.isText = true) →
        ({ s with openText := some ⟨start, values.flatten⟩ } : Construction).openText = none := by
      rintro ⟨t, first, text⟩
      have apart := (List.isChain_cons.1 canonical.apart).1 t first
      rw [Tree.value, isText, text] at apart
      simp at apart
    intro stop
    obtain ⟨place, us, same, rebuilds⟩ := ih (s := { s with openText := some ⟨start, values.flatten⟩ })
      rest canonical.tail stage apart stop
    refine ⟨place, .node ⟨.text values.flatten, some (.plain (.ofMark start place))⟩ [] :: us, ?_,
      .cons content.symm (ended_of_unnamed rfl) .nil rebuilds⟩
    have closed : ({ s with openText := none } : Construction) = s := by rw [← settled]
    rw [List.foldl_append, opened, same, List.foldl_cons, endText_of_none settled, endText]
    dsimp only
    rw [closed]
  | @comment v value ts tokens content more ih =>
    obtain ⟨x, ys, rfl, token, rest⟩ := List.map_eq_cons_iff.1 lexed
    have put : [x].foldl add s = (s.endText x.start.offset).append (.node ⟨.comment value, some (.plain
        (.ofMark x.start (x.start.offset + value.length + commentMarkupLength)))⟩ []) := by
      rw [List.foldl_cons, List.foldl_nil, add, token]
      rfl
    apply TakesIn.behind put content.symm (ended_of_unnamed rfl) .nil
    exact ih rest (by simpa using canonical.tail) (by simpa using stage) (by simp)
  | @single v name attributes ts tokens content void more ih =>
    obtain ⟨x, ys, rfl, token, rest⟩ := List.map_eq_cons_iff.1 lexed
    have element := (canonical.children content).1
    have put : [x].foldl add s = (s.endText x.start.offset).append
        (.node ⟨.element name attributes, some (startTagLocation x)⟩ []) := by
      rw [List.foldl_cons, List.foldl_nil, add_startTag_inBody stage token element.ordinary element.distinct
        element.fits, void, if_pos rfl]
    refine TakesIn.behind put content.symm ?_ .nil
      (ih rest (by simpa using canonical.tail) (by simpa using stage) (by simp))
    rintro _ ⟨⟩ open_
    rw [void] at open_
    cases open_
  | @element v name attributes cs ts inner tokens content open_ inside more ihInside ih =>
    obtain ⟨x, rest, rfl, token, lexed⟩ := List.map_eq_cons_iff.1 lexed
    obtain ⟨texts, rest, rfl, pieces, lexed⟩ := List.map_eq_append_iff.1 lexed
    obtain ⟨y, ys, rfl, ending, rest⟩ := List.map_eq_cons_iff.1 lexed
    obtain ⟨element, below⟩ := canonical.children content
    -- the content is taken in below the open element, which then goes in as a whole
    let e : OpenElement := ⟨name, attributes, startTagLocation x, []⟩
    let entered : Construction :=
      { s.endText x.start.offset with opened := e :: (s.endText x.start.offset).opened }
    have started : s.add x = entered := by
      rw [add_startTag_inBody stage token element.ordinary element.distinct element.fits, open_,
        if_neg Bool.false_ne_true]
    have settled : entered.openText = none := endText_openText s x.start.offset
    have names : entered.names = name :: s.names := by
      rw [← endText_names s x.start.offset]
      rfl
    obtain ⟨place, us, same, rebuilds⟩ := ihInside (s := entered) pieces (by rw [names]; exact below)
      ((endText_stage s x.start.offset).trans stage) (fun _ => settled) y.start.offset
    rw [endText_of_none settled, appendAll_inside rfl] at same
    have put : (x :: (texts ++ [y])).foldl add s = (s.endText x.start.offset).append
        (.node ⟨.element name attributes, some ((startTagLocation x).withEndTag
          (.ofMark y.start y.stop.offset))⟩ us) := by
      have ended := add_endTag_innermost ending element.ordinary (congrArg Construction.opened same)
      rw [List.foldl_cons, started, List.foldl_append, List.foldl_cons, List.foldl_nil, ended, same]
      rfl
    have whole : x :: (texts ++ y :: ys) = (x :: (texts ++ [y])) ++ ys := by simp
    rw [whole]
    refine TakesIn.behind put content.symm ?_ rebuilds
      (ih rest (by simpa using canonical.tail) (by simpa using stage) (by simp))
    rintro _ ⟨⟩ _
    rfl

end Construction

end LocatedHtml
