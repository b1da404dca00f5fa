import LocatedHtml.Proofs.Lexing.RawText
import LocatedHtml.Proofs.Written.Events

/-!
The tokens that spell a series of events: one for each, but one for all characters between two others,
and several for an element whose content is read as text. The markup of writable events gives tokens
that spell them.
-/

namespace LocatedHtml

/-- What is read from the markup of the event is what it stands for. -/
def Event.Writable : Event → Prop
  | .char _ => True
  | .opening name attributes | .single name attributes =>
    IsTagName name ∧ isRawText name = false ∧ WritableAttributes attributes
  | .closing name => IsTagName name ∧ ∀ c ∈ name.toList, isBlank c = false
  | .raw name attributes value =>
    isRawText name = true ∧ WritableAttributes attributes ∧ WritableRaw name value
  | .comment value => WritableComment value
  | .doctype value => WritableDoctype value

/-- The tokens spell the events. -/
inductive Spells : List Event → List Token → Prop
  | nil : Spells [] []
  | chars {value : Text} {es : List Event} {tokens : List Token} (nonempty : value ≠ [])
      (more : Spells es tokens) : Spells (value.map Event.char ++ es) (.text value :: tokens)
  | opening {name : String} {attributes : OrderedMap Text} {es : List Event} {tokens : List Token}
      (distinct : attributes.keys.Nodup) (more : Spells es tokens) :
      Spells (.opening name attributes :: es) (.startTag name attributes false :: tokens)
  | single {name : String} {attributes : OrderedMap Text} {es : List Event} {tokens : List Token}
      (distinct : attributes.keys.Nodup) (more : Spells es tokens) :
      Spells (.single name attributes :: es) (.startTag name attributes false :: tokens)
  | closing {name : String} {es : List Event} {tokens : List Token} (more : Spells es tokens) :
      Spells (.closing name :: es) (.endTag name :: tokens)
  | raw {name : String} {attributes : OrderedMap Text} {values : List Text} {es : List Event}
      {tokens : List Token} (writable : WritableAttributes attributes) (nonempty : ∀ v ∈ values, v ≠ [])
      (more : Spells es tokens) :
      Spells (.raw name attributes values.flatten :: es)
        (.startTag name attributes false :: (values.map .text ++ .endTag name :: tokens))
  | comment {value : Text} {es : List Event} {tokens : List Token} (more : Spells es tokens) :
      Spells (.comment value :: es) (.comment value :: tokens)
  | doctype {value : Text} {es : List Event} {tokens : List Token} (more : Spells es tokens) :
      Spells (.doctype value :: es) (.declaration value :: tokens)

/-- The characters in front of a series of events. -/
theorem exists_chars (es : List Event) :
    ∃ (value : Text) (rest : List Event), es = value.map .char ++ rest ∧ ∀ c, rest.head? ≠ some (.char c) := by
  induction es with
  | nil => exact ⟨[], [], rfl, by simp⟩
  | cons e es ih =>
    cases e with
    | char c =>
      obtain ⟨value, rest, whole, other⟩ := ih
      exact ⟨c :: value, rest, by rw [whole, List.map_cons, List.cons_append], other⟩
    | _ => exact ⟨[], _, rfl, by simp⟩

theorem writtenEvents_chars (value : Text) (es : List Event) :
    writtenEvents (value.map Event.char ++ es) = escapeText value ++ writtenEvents es := by
  rw [writtenEvents, List.flatMap_append, List.flatMap_map]
  rfl

theorem writtenEvents_cons (e : Event) (es : List Event) :
    writtenEvents (e :: es) = e.written ++ writtenEvents es := List.flatMap_cons

theorem writtenEvents_stopsAt {es : List Event} (other : ∀ c, es.head? ≠ some (.char c)) :
    Text.StopsAt (· != '<') (writtenEvents es) := by
  cases es with
  | nil => exact Text.stopsAt_nil
  | cons e es =>
    rw [writtenEvents_cons]
    cases e with
    | char c => exact absurd rfl (other c)
    | _ => exact Text.stopsAt_cons (by decide) _

/-- The markup of writable events is cut into lexemes that spell them. -/
theorem writtenEvents_yields {es : List Event} (writable : ∀ e ∈ es, e.Writable) :
    ∃ tokens, Spells es tokens ∧ Yields none (writtenEvents es) tokens := by
  induction size : es.length using Nat.strongRecOn generalizing es with
  | ind n ih =>
    subst size
    obtain ⟨value, rest, rfl, other⟩ := exists_chars es
    by_cases nonempty : value = []
    · subst nonempty
      rw [List.map_nil, List.nil_append] at writable ih ⊢
      cases rest with
      | nil => exact ⟨[], .nil, .nil⟩
      | cons e rest =>
        rw [List.forall_mem_cons] at writable
        obtain ⟨tokens, spells, yields⟩ := ih rest.length (Nat.lt_succ_self _) writable.2 rfl
        rw [writtenEvents_cons]
        have here := writable.1
        cases e with
        | char c => exact absurd rfl (other c)
        | opening name attributes =>
          refine ⟨_, .opening here.2.2.distinct spells, .startTag here.1 here.2.2 ?_⟩
          rw [here.2.1]
          exact yields
        | single name attributes =>
          refine ⟨_, .single here.2.2.distinct spells, .startTag here.1 here.2.2 ?_⟩
          rw [here.2.1]
          exact yields
        | closing name => exact ⟨_, .closing spells, .endTag here.1 here.2 yields⟩
        | raw name attributes value =>
          obtain ⟨values, rfl, some_, inner⟩ := Yields.rawText here.1 here.2.2 yields
          refine ⟨_, .raw here.2.1 some_ spells, ?_⟩
          rw [Event.written, List.append_assoc, List.append_assoc]
          apply Yields.startTag (isTagName_of_isRawText here.1) here.2.1
          rw [if_pos here.1]
          exact inner
        | comment value => exact ⟨_, .comment spells, .comment here yields⟩
        | doctype value => exact ⟨_, .doctype spells, .doctype here yields⟩
    · have shorter : rest.length < (value.map Event.char ++ rest).length := by
        have some_ := List.length_pos_iff.2 nonempty
        rw [List.length_append, List.length_map]
        omega
      have later : ∀ e ∈ rest, e.Writable := fun e member => writable e (List.mem_append_right _ member)
      obtain ⟨tokens, spells, yields⟩ := ih _ shorter later rfl
      refine ⟨_, .chars nonempty spells, ?_⟩
      rw [writtenEvents_chars]
      exact .text nonempty (writtenEvents_stopsAt other) yields

end LocatedHtml
