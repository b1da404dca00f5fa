import LocatedHtml.Proofs.Construction.Entries
import LocatedHtml.Proofs.Lexing.Coverage
import Mathlib.Data.List.Induction

/-!
What the lexemes of a source have delivered: the entries that a construction has got stand in the source
one behind the other, and together with the open text they hold everything that the lexemes brought, once
and in order.
-/

namespace LocatedHtml

namespace Entry

/-- The characters of a text. -/
def text (a : Entry) : Text :=
  match a.content with
  | some (.text value) => value
  | _ => []

/-- The content of a comment or a doctype. -/
def remark? (a : Entry) : Option Content :=
  match a.content with
  | some (.comment value) => some (.comment value)
  | some (.doctype value) => some (.doctype value)
  | _ => none

def IsText (a : Entry) : Prop := ∃ value, a.content = some (.text value)

/-- The entry starts before an offset, and if it is a text it also ends there or before. -/
def Within (a : Entry) (reach : Int) : Prop :=
  a.extent.start < reach ∧ (a.IsText → a.extent.stop ≤ reach)

theorem Within.mono {a : Entry} {reach later : Int} (within : a.Within reach) (bound : reach ≤ later) :
    a.Within later := by
  obtain ⟨starts, ends⟩ := within
  exact ⟨by omega, fun isText => by have := ends isText; omega⟩

end Entry

/-- The value is what some lexemes in a row bring, and the extent is the piece of source they take. -/
def Gathered (xs : List Lexeme) (e : Extent) (value : Text) : Prop :=
  ∃ before ys after, xs = before ++ ys ++ after ∧ e.start = (taken before).length ∧
    e.stop = (taken (before ++ ys)).length ∧ value = ys.flatMap (·.token.textValue)

/-- The open text is what the last lexemes bring, from the first character that they take. -/
structure OpenText.Gathered (xs : List Lexeme) (o : OpenText) : Prop where
  value : ∃ before ys, xs = before ++ ys ∧ ys ≠ [] ∧ o.start = Mark.origin.after (taken before) ∧
    o.value = ys.flatMap (·.token.textValue)
  starts : o.start.offset < (taken xs).length

theorem Gathered.append {xs : List Lexeme} {e : Extent} {value : Text} (gathered : Gathered xs e value)
    (x : Lexeme) : Gathered (xs ++ [x]) e value := by
  obtain ⟨before, ys, after, rfl, rest⟩ := gathered
  exact ⟨before, ys, after ++ [x], by simp, rest⟩

namespace Construction

/-- Where the next node can start: with the open text, or else behind the lexemes. -/
def reach (openText : Option OpenText) (xs : List Lexeme) : Int :=
  match openText with
  | some o => o.start.offset
  | none => (taken xs).length

/-- The entries and the open text of a construction are what the lexemes have delivered. -/
structure Delivered (straight : Prop) (xs : List Lexeme) (s : Construction) (g : List Entry) : Prop where
  tracked : s.Tracked straight g
  sorted : g.Pairwise fun a b => a.Within b.extent.start
  within : ∀ a ∈ g, a.Within (reach s.openText xs)
  texts : g.flatMap Entry.text ++ pending s.openText = xs.flatMap (·.token.textValue)
  remarks : g.filterMap Entry.remark? = xs.filterMap (·.token.remark?)
  gathered : ∀ a ∈ g, ∀ value, a.content = some (.text value) → Gathered xs a.extent value
  openText : ∀ o, s.openText = some o → o.Gathered xs

/-- The entries are all that a lexeme brings, and no text is among them. -/
structure Brings (x : Lexeme) (new : List Entry) : Prop where
  textless : x.token.textValue = []
  single : new.length ≤ 1
  here : ∀ a ∈ new, a.extent.start = x.start.offset ∧ ¬a.IsText
  remarks : new.filterMap Entry.remark? = x.token.remark?.toList

variable {straight : Prop} {s r : Construction} {x : Lexeme} {xs : List Lexeme} {g new : List Entry}

namespace Brings

theorem nothing (quiet : x.token.textValue = [] ∧ x.token.remark? = none) : Brings x [] where
  textless := quiet.1
  single := Nat.zero_le 1
  here _ member := absurd member List.not_mem_nil
  remarks := by simp [quiet.2]

theorem nothing_endTag {name : String} (token : x.token = .endTag name) : Brings x [] :=
  .nothing (by simp [token, Token.textValue, Token.remark?])

theorem element {name : String} {attributes : List (String × Text)} {selfClosing : Bool}
    (token : x.token = .startTag name attributes selfClosing) :
    Brings x [⟨(startTagLocation x).opening, none⟩] where
  textless := by simp [token, Token.textValue]
  single := Nat.le_refl 1
  here a member := by
    rw [List.mem_singleton.1 member]
    exact ⟨rfl, by simp [Entry.IsText]⟩
  remarks := by simp [token, Token.remark?, Entry.remark?]

theorem remark {v : Node} (brings : x.remark? = some v) : Brings x (Tree.entries (.node v [])) := by
  cases token : x.token <;> simp [Lexeme.remark?, token, Token.remark?] at brings
  all_goals
    subst brings
    refine ⟨?_, ?_, ?_, ?_⟩ <;>
      simp [Tree.entries_node, Node.toEntry, Content.isElement, Location.opening, Entry.IsText,
        Entry.remark?, token, Token.remark?, Token.textValue, Extent.ofMark]

end Brings

namespace Delivered

theorem initial : Delivered straight [] {} [] where
  tracked := .initial
  sorted := .nil
  within _ member := absurd member List.not_mem_nil
  texts := rfl
  remarks := rfl
  gathered _ member := absurd member List.not_mem_nil
  openText _ opened := by cases opened

theorem sorted_textEntry (delivered : Delivered straight xs s g) (stop : Nat) :
    (g ++ s.textEntry stop).Pairwise fun a b => a.Within b.extent.start := by
  rw [List.pairwise_append]
  refine ⟨delivered.sorted, ?_, ?_⟩
  · cases opened : s.openText <;> simp [textEntry, opened]
  · intro a member b last
    obtain ⟨o, opened, rfl⟩ := mem_textEntry.1 last
    have within := delivered.within a member
    rw [opened, reach] at within
    exact within

theorem texts_textEntry (delivered : Delivered straight xs s g) (stop : Nat) :
    (g ++ s.textEntry stop).flatMap Entry.text = xs.flatMap (·.token.textValue) := by
  rw [List.flatMap_append, ← delivered.texts]
  cases opened : s.openText <;> simp [textEntry, opened, pending, Entry.text]

theorem remarks_textEntry (delivered : Delivered straight xs s g) (stop : Nat) :
    (g ++ s.textEntry stop).filterMap Entry.remark? = xs.filterMap (·.token.remark?) := by
  rw [List.filterMap_append, delivered.remarks]
  cases opened : s.openText <;> simp [textEntry, opened, Entry.remark?]

/-- The text that ends is what the last lexemes have brought. -/
theorem gathered_textEntry (delivered : Delivered straight xs s g) {stop : Nat} {a : Entry}
    (member : a ∈ s.textEntry stop) {value : Text} (content : a.content = some (.text value)) :
    ∃ before ys, xs = before ++ ys ∧ ys ≠ [] ∧ a.extent.start = (taken before).length ∧
      a.extent.stop = stop ∧ value = ys.flatMap (·.token.textValue) := by
  obtain ⟨o, opened, rfl⟩ := mem_textEntry.1 member
  obtain ⟨⟨before, ys, whole, nonempty, start, same⟩, _⟩ := delivered.openText o opened
  cases content
  refine ⟨before, ys, whole, nonempty, ?_, rfl, same⟩
  exact congrArg Int.ofNat (start ▸ Mark.offset_after_origin _)

theorem reach_le (delivered : Delivered straight xs s g) : reach s.openText xs ≤ (taken xs).length := by
  cases opened : s.openText with
  | none => exact Int.le_refl _
  | some o => exact Int.ofNat_le.2 (Nat.le_of_lt (delivered.openText o opened).starts)

theorem endText (delivered : Delivered straight xs s g) :
    Delivered straight xs (s.endText (taken xs).length) (g ++ s.textEntry (taken xs).length) := by
  have closed := endText_openText s (taken xs).length
  refine ⟨delivered.tracked.endText _, delivered.sorted_textEntry _, ?_, ?_,
    delivered.remarks_textEntry _, ?_, ?_⟩
  · rw [closed, reach]
    intro a member
    rcases List.mem_append.1 member with member | last
    · exact (delivered.within a member).mono delivered.reach_le
    · obtain ⟨o, opened, rfl⟩ := mem_textEntry.1 last
      exact ⟨Int.ofNat_lt.2 (delivered.openText o opened).starts, fun _ => Int.le_refl _⟩
  · rw [closed, delivered.texts_textEntry]
    exact List.append_nil _
  · intro a member value content
    rcases List.mem_append.1 member with member | last
    · exact delivered.gathered a member value content
    · obtain ⟨before, ys, rfl, _, start, stop, same⟩ := delivered.gathered_textEntry last content
      exact ⟨before, ys, [], (List.append_nil _).symm, start, stop, same⟩
  · rw [closed]
    rintro _ ⟨⟩

/-- Open text can end where the next lexeme starts. -/
theorem endBefore (delivered : Delivered straight xs s g) (behind : x.Behind xs) :
    Delivered straight xs (s.endText x.start.offset) (g ++ s.textEntry x.start.offset) := by
  rw [behind.offset]
  exact delivered.endText

/-- A lexeme that is no text brings its entries behind all others. -/
theorem bring (delivered : Delivered straight xs s g) (closed : s.openText = none) (behind : x.Behind xs)
    (tracked : r.Tracked straight (g ++ new)) (brings : Brings x new) (stays : r.openText = none) :
    Delivered straight (xs ++ [x]) r (g ++ new) := by
  have longer := behind.length_lt
  have within := delivered.within
  have texts := delivered.texts
  rw [closed, reach] at within
  rw [closed, pending, Option.map_none, Option.getD_none, List.append_nil] at texts
  have here : ∀ a ∈ new, a.extent.start = (taken xs).length := by
    intro a member
    rw [(brings.here a member).1, behind.offset]
  have silent : ∀ a ∈ new, a.text = [] := by
    intro a member
    have other := (brings.here a member).2
    unfold Entry.text
    split
    · next value content => exact absurd ⟨value, content⟩ other
    · rfl
  refine ⟨tracked, ?_, ?_, ?_, ?_, ?_, ?_⟩
  · rw [List.pairwise_append]
    refine ⟨delivered.sorted, ?_, ?_⟩
    · match new, brings.single with
      | [], _ => exact .nil
      | [a], _ => exact List.pairwise_singleton _ a
    · intro a member b last
      rw [here b last]
      exact within a member
  · rw [stays, reach]
    intro a member
    rcases List.mem_append.1 member with member | last
    · exact (within a member).mono (by omega)
    · refine ⟨by rw [here a last]; omega, fun isText => absurd isText (brings.here a last).2⟩
  · rw [stays, List.flatMap_append, texts, List.flatMap_eq_nil_iff.2 silent]
    simp [pending, brings.textless]
  · rw [List.filterMap_append, delivered.remarks, brings.remarks]
    cases silent : x.token.remark? <;> simp [silent]
  · intro a member value content
    rcases List.mem_append.1 member with member | last
    · exact (delivered.gathered a member value content).append x
    · exact absurd ⟨value, content⟩ (brings.here a last).2
  · rw [stays]
    rintro _ ⟨⟩

/-- While text is open, it takes what a lexeme brings that ends no text. -/
theorem extend (delivered : Delivered straight xs s g) {o : OpenText} (opened : s.openText = some o)
    (behind : x.Behind xs) (tracked : r.Tracked straight g) (silent : x.token.remark? = none)
    (goesOn : r.openText = some { o with value := o.value ++ x.token.textValue }) :
    Delivered straight (xs ++ [x]) r g := by
  have longer := behind.length_lt
  obtain ⟨⟨before, ys, whole, nonempty, start, value⟩, starts⟩ := delivered.openText o opened
  have within := delivered.within
  have texts := delivered.texts
  rw [opened, reach] at within
  rw [opened, pending, Option.map_some, Option.getD_some] at texts
  refine ⟨tracked, delivered.sorted, ?_, ?_, ?_, ?_, ?_⟩
  · rw [goesOn, reach]
    exact within
  · rw [goesOn, List.flatMap_append, ← texts]
    simp [pending]
  · simp [delivered.remarks, silent]
  · exact fun a member value content => (delivered.gathered a member value content).append x
  · rw [goesOn]
    rintro _ ⟨⟩
    refine ⟨⟨before, ys ++ [x], by simp [whole], by simp, start, ?_⟩, starts.trans longer⟩
    simp [value]

/-- Where no text is open, text begins with a lexeme. -/
theorem begin_ (delivered : Delivered straight xs s g) (closed : s.openText = none)
    (behind : x.Behind xs) (tracked : r.Tracked straight g) (silent : x.token.remark? = none)
    (begins : r.openText = some ⟨x.start, x.token.textValue⟩) : Delivered straight (xs ++ [x]) r g := by
  have longer := behind.length_lt
  have within := delivered.within
  have texts := delivered.texts
  have start := behind.offset
  rw [closed, reach] at within
  rw [closed, pending, Option.map_none, Option.getD_none, List.append_nil] at texts
  refine ⟨tracked, delivered.sorted, ?_, ?_, ?_, ?_, ?_⟩
  · rw [begins, reach]
    dsimp only
    rw [start]
    exact within
  · rw [begins, List.flatMap_append, ← texts]
    simp [pending]
  · simp [delivered.remarks, silent]
  · exact fun a member value content => (delivered.gathered a member value content).append x
  · rw [begins]
    rintro _ ⟨⟩
    refine ⟨⟨xs, [x], rfl, by simp, behind.start, by simp⟩, ?_⟩
    dsimp only
    rwa [start]

/-- A lexeme that brings nothing leaves the entries and the open text. -/
theorem stay (delivered : Delivered straight xs s g) (behind : x.Behind xs) (tracked : r.Tracked straight g)
    (quiet : x.token.textValue = [] ∧ x.token.remark? = none) (same : r.openText = s.openText) :
    Delivered straight (xs ++ [x]) r g := by
  cases openText : s.openText with
  | none =>
    rw [← List.append_nil g] at tracked ⊢
    exact delivered.bring openText behind tracked (.nothing quiet) (same.trans openText)
  | some o =>
    apply delivered.extend openText behind tracked quiet.2
    rw [same, openText, quiet.1, List.append_nil]

theorem add (delivered : Delivered straight xs s g) (behind : x.Behind xs) (adds : Adds straight x s r) :
    ∃ h, Delivered straight (xs ++ [x]) r h := by
  have ended := delivered.endBefore behind
  have closed := endText_openText s x.start.offset
  -- Text goes on where it is open; everything else comes behind the text that has ended.
  cases adds with
  | marked html body quiet same tags =>
    exact ⟨g, delivered.stay behind (delivered.tracked.marked tags) quiet rfl⟩
  | @extended o value token openText =>
    have tracked : Tracked straight { s with openText := some { o with value := o.value ++ value } } g :=
      ⟨delivered.tracked.perm, delivered.tracked.order, delivered.tracked.ahead⟩
    refine ⟨g, delivered.extend openText behind tracked ?_ ?_⟩ <;>
      simp [token, Token.remark?, Token.textValue]
  | @begun value token openText =>
    have tracked : Tracked straight { s with openText := some ⟨x.start, value⟩ } g :=
      ⟨delivered.tracked.perm, delivered.tracked.order, delivered.tracked.ahead⟩
    refine ⟨g, delivered.begin_ openText behind tracked ?_ ?_⟩ <;>
      simp [token, Token.remark?, Token.textValue]
  | @resumed r body value token settles advance same forward =>
    have entered := (ended.tracked.settles settles).resumed advance same forward
    have tracked : Tracked straight
        { r with stage := .inBody, body := body, openText := some ⟨x.start, value⟩ }
        (g ++ s.textEntry x.start.offset) := ⟨entered.perm, entered.order, entered.ahead⟩
    refine ⟨_, ended.begin_ closed behind tracked ?_ ?_⟩ <;>
      simp [token, Token.remark?, Token.textValue]
  | @remark v brings =>
    refine ⟨_, ended.bring closed behind (ended.tracked.append _) (.remark brings) ?_⟩
    rw [append_openText, closed]
  | @single r name attributes selfClosing token settles staged =>
    have tracked := (ended.tracked.settles settles).append (x.element name attributes).toTree
    rw [OpenElement.entries_toTree] at tracked
    refine ⟨_, ended.bring closed behind tracked (.element token) ?_⟩
    rw [append_openText, settles.openText, closed]
  | @opening r name attributes selfClosing token settles staged =>
    have tracked := (ended.tracked.settles settles).opening (e := x.element name attributes) rfl
    exact ⟨_, ended.bring closed behind tracked (.element token) (settles.openText.trans closed)⟩
  | @ending r e outer token settles inside =>
    have tracked := (ended.tracked.settles settles).ending inside (.ofMark x.start x.stop.offset)
    rw [← List.append_nil (g ++ _)] at tracked
    refine ⟨_, ended.bring closed behind tracked (.nothing_endTag token) ?_⟩
    rw [append_openText]
    exact settles.openText.trans closed
  | @entering r stage html head body name attributes selfClosing token settles advance forward bound tags =>
    have tracked := (ended.tracked.settles settles).entering advance forward bound tags
    exact ⟨_, ended.bring closed behind tracked (.element token) (settles.openText.trans closed)⟩
  | @leaving r stage html head body name token settles advance forward late tags =>
    have tracked := (ended.tracked.settles settles).leaving advance forward tags
    rw [← List.append_nil (g ++ _)] at tracked
    exact ⟨_, ended.bring closed behind tracked (.nothing_endTag token) (settles.openText.trans closed)⟩

end Delivered

/-- Nothing comes behind the end of the body or of `html` that would open the body again. -/
def GoesStraight (xs : List Lexeme) : Prop :=
  ∀ before x after, xs = before ++ x :: after → x.token.Reopens →
    (before.foldl Construction.add {}).stage.rank ≤ Stage.inBody.rank

theorem adds_next {before after : List Lexeme} (onward : straight → GoesStraight xs)
    (whole : xs = before ++ x :: after) : Adds straight x (before.foldl Construction.add {})
      ((before ++ [x]).foldl Construction.add {}) := by
  rw [List.foldl_append]
  exact .add (.of_lexemes before) fun holds => onward holds before x after whole

/-- What holds at the start and is preserved by each lexeme that comes next holds in the end. -/
theorem run_induction {motive : List Lexeme → Construction → Prop} (start : motive [] {})
    (step : ∀ before x after, xs = before ++ x :: after →
      motive before (before.foldl Construction.add {}) →
      motive (before ++ [x]) ((before ++ [x]).foldl Construction.add {})) :
    motive xs (xs.foldl Construction.add {}) := by
  -- By induction on the prefixes, since a lexeme is added to what those before it have made.
  have prefixes : ∀ front, front <+: xs → motive front (front.foldl Construction.add {}) := by
    intro front
    induction front using List.reverseRecOn with
    | nil => exact fun _ => start
    | append_singleton front x ih =>
      rintro ⟨back, whole⟩
      rw [List.append_assoc, List.singleton_append] at whole
      exact step front x back whole.symm (ih ⟨_, whole⟩)
  exact prefixes xs List.prefix_rfl

/-- What is preserved by each lexeme that is added to what others have delivered holds in the end. -/
theorem delivered_induction {t : Text} (chained : Chained .origin t xs) (onward : straight → GoesStraight xs)
    {motive : List Lexeme → Construction → Prop} (start : motive [] {})
    (step : ∀ ys x s r g, Delivered straight ys s g → x.Behind ys → Adds straight x s r → motive ys s →
      motive (ys ++ [x]) r) :
    ∃ g, Delivered straight xs (xs.foldl Construction.add {}) g ∧
      motive xs (xs.foldl Construction.add {}) := by
  apply run_induction (motive := fun ys s => ∃ g, Delivered straight ys s g ∧ motive ys s)
  · exact ⟨[], .initial, start⟩
  · rintro before x after whole ⟨g, delivered, holds⟩
    have behind := chained.behind whole
    have adds : Adds straight x _ _ := adds_next onward whole
    obtain ⟨h, later⟩ := delivered.add behind adds
    exact ⟨h, later, step before x _ _ g delivered behind adds holds⟩

/-- The entries of a document in the order in which they came: all that the lexemes of its source, which
is of the given length, have delivered. -/
structure Recorded (straight : Prop) (xs : List Lexeme) (size : Nat) (t : HtmlTree) (g : List Entry) :
    Prop where
  perm : t.entries.Perm g
  order : straight → t.entries = g
  sorted : g.Pairwise fun a b => a.Within b.extent.start
  texts : g.flatMap Entry.text = xs.flatMap (·.token.textValue)
  remarks : g.filterMap Entry.remark? = xs.filterMap (·.token.remark?)
  gathered : ∀ a ∈ g, ∀ value, a.content = some (.text value) → Gathered xs a.extent value ∨
    ∃ before ys, xs = before ++ ys ∧ ys ≠ [] ∧ a.extent.start = (taken before).length ∧
      a.extent.stop = size ∧ value = ys.flatMap (·.token.textValue)

/-- The text that is still open ends with the source, and everything else ends as it is. -/
theorem Delivered.finish (delivered : Delivered straight xs s g) (size : Nat) :
    Recorded straight xs size (s.endText size).toTree (g ++ s.textEntry size) := by
  obtain ⟨perm, order⟩ := (delivered.tracked.endText size).toTree
  refine ⟨perm, order, delivered.sorted_textEntry size, delivered.texts_textEntry size,
    delivered.remarks_textEntry size, ?_⟩
  intro a member value content
  rcases List.mem_append.1 member with member | last
  · exact .inl (delivered.gathered a member value content)
  · exact .inr (delivered.gathered_textEntry last content)

end Construction

theorem parseHtml_recorded {straight : Prop} {source : Text} {tree : HtmlTree} {xs : List Lexeme}
    (parsed : parseHtml source = .ok tree) (cut : lexemes source = .ok xs)
    (onward : straight → Construction.GoesStraight xs) :
    ∃ g, Construction.Recorded straight xs source.length tree g := by
  obtain ⟨ys, same, rfl⟩ := parseHtml_eq_toTree parsed
  rw [cut] at same
  cases same
  obtain ⟨g, delivered, _⟩ :=
    Construction.delivered_induction (motive := fun _ _ => True) (lexemes_chained cut) onward
    trivial fun _ _ _ _ _ _ _ _ _ => trivial
  exact ⟨_, delivered.finish source.length⟩

end LocatedHtml
