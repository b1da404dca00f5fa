import LocatedHtml.Proofs.Json.Reordering
import LocatedHtml.Proofs.Json.Scalars

/-!
When a value has a text, and what can be told of the text: that all of its characters are visible, and that the
first one is neither a blank nor the end of an array or object.
-/

namespace LocatedHtml.Json

variable {j : Json} {depth : Nat} {t : Text} {items : List Json} {entries : List (Text × Json)}

/-- Texts with commas between them. -/
def commas (texts : List Text) : Text := [','].intercalate texts

theorem commas_singleton (s : Text) : commas [s] = s := List.intercalate_singleton

theorem commas_cons_cons (s next : Text) (texts : List Text) :
    commas (s :: next :: texts) = s ++ ',' :: commas (next :: texts) := by
  rw [commas, List.intercalate_cons_cons, List.append_assoc]
  rfl

theorem mem_commas {c : Char} {texts : List Text} (member : c ∈ commas texts) :
    c = ',' ∨ ∃ s ∈ texts, c ∈ s := by
  induction texts with
  | nil => cases member
  | cons s texts ih =>
    cases texts with
    | nil =>
      rw [commas_singleton] at member
      exact .inr ⟨s, List.mem_cons_self, member⟩
    | cons next texts =>
      rw [commas_cons_cons, List.mem_append, List.mem_cons] at member
      rcases member with first | comma | rest
      · exact .inr ⟨s, List.mem_cons_self, first⟩
      · exact .inl comma
      · exact (ih rest).imp_right fun ⟨s, member, inside⟩ => ⟨s, List.mem_cons_of_mem _ member, inside⟩

theorem bind_eq_ok {α β : Type} {x : Except JsonError α} {f : α → Except JsonError β} {b : β} :
    x >>= f = .ok b ↔ ∃ a, x = .ok a ∧ f a = .ok b := by
  cases x <;> simp [Bind.bind, Except.bind]

/-- A writer that puts commas between the parts succeeds if all the parts have texts. -/
theorem eq_ok_iff_commas {α : Type} (all : List α → Except JsonError Text) (part : α → Except JsonError Text)
    (none : all [] = .ok []) (one : ∀ a, all [a] = part a)
    (more : ∀ a b rest, all (a :: b :: rest) = do return (← part a) ++ ',' :: (← all (b :: rest))) {l : List α} :
    all l = .ok t ↔ ∃ texts, List.Forall₂ (fun a s => part a = .ok s) l texts ∧ t = commas texts := by
  induction l generalizing t with
  | nil =>
    rw [none]
    constructor
    · rintro ⟨⟩
      exact ⟨[], .nil, rfl⟩
    · rintro ⟨_, ⟨⟩, rfl⟩
      rfl
  | cons a l ih =>
    cases l with
    | nil =>
      rw [one]
      refine ⟨fun first => ⟨[t], .cons first .nil, (commas_singleton t).symm⟩, ?_⟩
      intro ⟨_, .cons first .nil, same⟩
      rw [first, same, commas_singleton]
    | cons b rest =>
      rw [more]
      simp only [bind_eq_ok, ih]
      constructor
      · intro ⟨s, first, _, ⟨_, .cons second others, same⟩, result⟩
        cases result
        exact ⟨_, .cons first (.cons second others), same ▸ (commas_cons_cons _ _ _).symm⟩
      · intro ⟨_, .cons first (.cons second others), same⟩
        refine ⟨_, first, _, ⟨_, .cons second others, rfl⟩, ?_⟩
        rw [same, commas_cons_cons]
        rfl

/-- An entry as it is written. -/
def writeEntry (depth : Nat) (entry : Text × Json) : Except JsonError Text := do
  return writtenString entry.1 ++ ':' :: (← write depth entry.2)

theorem writeItems_eq_ok : writeItems depth items = .ok t ↔
    ∃ texts, List.Forall₂ (fun item s => write depth item = .ok s) items texts ∧ t = commas texts :=
  eq_ok_iff_commas (writeItems depth) (write depth) rfl (fun _ => rfl) fun _ _ _ => rfl

theorem writeEntries_eq_ok : writeEntries depth entries = .ok t ↔
    ∃ texts, List.Forall₂ (fun entry s => writeEntry depth entry = .ok s) entries texts ∧ t = commas texts :=
  eq_ok_iff_commas (writeEntries depth) (writeEntry depth) rfl (fun _ => rfl) fun a b rest => by
    simp only [writeEntries, writeEntry, bind_assoc, pure_bind]

theorem write_array : write depth (.array items) = .ok t ↔ ∃ inner texts, depth = inner + 1 ∧
    List.Forall₂ (fun item s => write inner item = .ok s) items texts ∧ t = '[' :: commas texts ++ [']'] := by
  cases depth with
  | zero => simp [write]
  | succ inner =>
    rw [write, bind_eq_ok]
    constructor
    · rintro ⟨_, inside, ⟨⟩⟩
      obtain ⟨texts, parts, rfl⟩ := writeItems_eq_ok.1 inside
      exact ⟨inner, texts, rfl, parts, rfl⟩
    · rintro ⟨_, texts, ⟨⟩, parts, rfl⟩
      exact ⟨_, writeItems_eq_ok.2 ⟨texts, parts, rfl⟩, rfl⟩

theorem write_object : write depth (.object entries) = .ok t ↔ ∃ inner texts, depth = inner + 1 ∧
    List.Forall₂ (fun entry s => writeEntry inner entry = .ok s) entries texts ∧
    t = '{' :: commas texts ++ ['}'] := by
  cases depth with
  | zero => simp [write]
  | succ inner =>
    rw [write, bind_eq_ok]
    constructor
    · rintro ⟨_, inside, ⟨⟩⟩
      obtain ⟨texts, parts, rfl⟩ := writeEntries_eq_ok.1 inside
      exact ⟨inner, texts, rfl, parts, rfl⟩
    · rintro ⟨_, texts, ⟨⟩, parts, rfl⟩
      exact ⟨_, writeEntries_eq_ok.2 ⟨texts, parts, rfl⟩, rfl⟩

theorem writeEntry_eq_ok {entry : Text × Json} : writeEntry depth entry = .ok t ↔
    ∃ s, write depth entry.2 = .ok s ∧ t = writtenString entry.1 ++ ':' :: s := by
  rw [writeEntry, bind_eq_ok]
  constructor <;> rintro ⟨s, value, ⟨⟩⟩ <;> exact ⟨s, value, rfl⟩

theorem exists_forall₂ {α β : Type} {r : α → β → Prop} {l : List α} :
    (∃ texts, List.Forall₂ r l texts) ↔ ∀ a ∈ l, ∃ b, r a b := by
  induction l with
  | nil => simp
  | cons a l ih =>
    rw [List.forall_mem_cons, ← ih]
    constructor
    · intro ⟨_, .cons first others⟩
      exact ⟨⟨_, first⟩, _, others⟩
    · intro ⟨⟨b, first⟩, texts, others⟩
      exact ⟨b :: texts, .cons first others⟩

theorem fitsWord_iff {n : Int} : fitsWord n = true ↔ -Int.pow 2 63 ≤ n ∧ n < Int.pow 2 64 := by
  rw [fitsWord, Bool.and_eq_true, decide_eq_true_eq, decide_eq_true_eq]

theorem write_number {n : Int} (fits : fitsWord n = true) : write depth (.number n) = .ok (toString n).toList := by
  rw [write, writtenNumber, if_pos fits]

/-- A value has a text unless it is nested too deeply. -/
theorem Plain.exists_write (plain : j.Plain) : (∃ t, write depth j = .ok t) ↔ j.Within depth := by
  induction plain generalizing depth with
  | null => exact ⟨fun _ => .null, fun _ => ⟨_, rfl⟩⟩
  | bool b => exact ⟨fun _ => .bool b, fun _ => by cases b <;> exact ⟨_, rfl⟩⟩
  | number n above below =>
    exact ⟨fun _ => .number n, fun _ => ⟨_, write_number (fitsWord_iff.2 ⟨above, below⟩)⟩⟩
  | string t => exact ⟨fun _ => .string t, fun _ => ⟨_, rfl⟩⟩
  | array all ih =>
    constructor
    · rintro ⟨_, written⟩
      obtain ⟨inner, texts, rfl, parts, _⟩ := write_array.1 written
      exact .array fun item member => (ih item member).1 (exists_forall₂.1 ⟨texts, parts⟩ item member)
    · intro within
      obtain ⟨inner, rfl, inside⟩ := within_array.1 within
      obtain ⟨texts, parts⟩ := exists_forall₂.2 fun item member => (ih item member).2 (inside item member)
      exact ⟨_, write_array.2 ⟨_, texts, rfl, parts, rfl⟩⟩
  | object distinct all ih =>
    constructor
    · rintro ⟨_, written⟩
      obtain ⟨inner, texts, rfl, parts, _⟩ := write_object.1 written
      refine .object fun entry member => (ih entry member).1 ?_
      obtain ⟨_, part⟩ := exists_forall₂.1 ⟨texts, parts⟩ entry member
      obtain ⟨s, value, _⟩ := writeEntry_eq_ok.1 part
      exact ⟨s, value⟩
    · intro within
      obtain ⟨inner, rfl, inside⟩ := within_object.1 within
      have each : ∀ entry ∈ _, ∃ s, writeEntry inner entry = .ok s := fun entry member =>
        have ⟨_, value⟩ := (ih entry member).2 (inside entry member)
        ⟨_, writeEntry_eq_ok.2 ⟨_, value, rfl⟩⟩
      obtain ⟨texts, parts⟩ := exists_forall₂.2 each
      exact ⟨_, write_object.2 ⟨_, texts, rfl, parts, rfl⟩⟩

/-- There is no control character in the text. -/
def Visible (t : Text) : Prop := ∀ c ∈ t, 0x20 ≤ c.toNat

theorem Visible.append {u : Text} (front : Visible t) (back : Visible u) : Visible (t ++ u) :=
  List.forall_mem_append.2 ⟨front, back⟩

theorem Visible.cons {c : Char} (first : 0x20 ≤ c.toNat) (rest : Visible t) : Visible (c :: t) :=
  List.forall_mem_cons.2 ⟨first, rest⟩

theorem visible_nil : Visible [] := List.forall_mem_nil _

theorem visible_of_all (all : (t.all fun c => decide (0x20 ≤ c.toNat)) = true) : Visible t := fun c member =>
  of_decide_eq_true (List.all_eq_true.1 all c member)

theorem visible_writtenChar (c : Char) : Visible (writtenChar c) := by
  rcases writtenChar_cases c with ⟨d, short, written⟩ | ⟨control, written⟩ | ⟨_, _, visible, written⟩
  · have letters : ∀ pair ∈ shortEscapes, 0x20 ≤ pair.2.toNat := by decide
    rw [written]
    exact .cons (by decide) (.cons (letters (c, d) short) visible_nil)
  · have digits : ∀ n < 0x20, ((hexDigits 4 n).all fun d => decide (0x20 ≤ d.toNat)) = true := by decide
    rw [written]
    exact .cons (by decide) (.cons (by decide) (visible_of_all (digits _ control)))
  · rw [written]
    exact .cons visible visible_nil

theorem visible_writtenString (t : Text) : Visible (writtenString t) := by
  have inside : Visible (t.flatMap writtenChar) := fun d member =>
    have ⟨c, _, member⟩ := List.mem_flatMap.1 member
    visible_writtenChar c d member
  exact .append (.cons (by decide) inside) (.cons (by decide) visible_nil)

theorem visible_toString (n : Int) : Visible (toString n).toList := by
  have digits : Visible (Nat.toDigits 10 n.natAbs) := fun c member => by
    have digit := isDigit_of_mem member
    rw [isDigit, Bool.and_eq_true, decide_eq_true_eq, Char.le_def, UInt32.le_iff_toNat_le] at digit
    exact Nat.le_trans (by decide) digit.1
  rw [toString_eq]
  cases decide (n < 0)
  · exact .append visible_nil digits
  · exact .append (.cons (by decide) visible_nil) digits

theorem visible_commas {texts : List Text} (all : ∀ s ∈ texts, Visible s) : Visible (commas texts) := by
  intro c member
  rcases mem_commas member with rfl | ⟨s, part, inside⟩
  · decide
  · exact all s part c inside

theorem exists_of_mem_right {α β : Type} {r : α → β → Prop} {l : List α} {m : List β}
    (related : List.Forall₂ r l m) {b : β} (member : b ∈ m) : ∃ a ∈ l, r a b := by
  induction related with
  | nil => cases member
  | cons first _ ih =>
    rcases List.mem_cons.1 member with rfl | member
    · exact ⟨_, List.mem_cons_self, first⟩
    · obtain ⟨a, among, part⟩ := ih member
      exact ⟨a, List.mem_cons_of_mem _ among, part⟩

theorem Plain.visible (plain : j.Plain) (written : write depth j = .ok t) : Visible t := by
  induction plain generalizing depth t with
  | null =>
    cases written
    exact visible_of_all (by decide)
  | bool b =>
    cases b <;> cases written <;> exact visible_of_all (by decide)
  | number n above below =>
    rw [write_number (fitsWord_iff.2 ⟨above, below⟩)] at written
    cases written
    exact visible_toString n
  | string s =>
    cases written
    exact visible_writtenString s
  | array all ih =>
    obtain ⟨_, texts, rfl, parts, rfl⟩ := write_array.1 written
    have inside : Visible (commas texts) := visible_commas fun s member => by
      obtain ⟨item, among, part⟩ := exists_of_mem_right parts member
      exact ih item among part
    exact .append (.cons (by decide) inside) (.cons (by decide) visible_nil)
  | object distinct all ih =>
    obtain ⟨_, texts, rfl, parts, rfl⟩ := write_object.1 written
    have inside : Visible (commas texts) := visible_commas fun s member => by
      obtain ⟨entry, among, part⟩ := exists_of_mem_right parts member
      obtain ⟨_, value, rfl⟩ := writeEntry_eq_ok.1 part
      exact .append (visible_writtenString entry.1) (.cons (by decide) (ih entry among value))
    exact .append (.cons (by decide) inside) (.cons (by decide) visible_nil)

/-- A number starts with the character. -/
def FirstOfNumber (c : Char) : Prop := c = '-' ∨ isDigit c = true

instance : DecidablePred FirstOfNumber := fun c => inferInstanceAs (Decidable (c = '-' ∨ isDigit c = true))

theorem FirstOfNumber.ne {c d : Char} (number : FirstOfNumber c) (other : ¬ FirstOfNumber d) : c ≠ d := by
  rintro rfl
  exact other number

theorem exists_first (n : Int) : ∃ c more, (toString n).toList = c :: more ∧ FirstOfNumber c := by
  obtain ⟨c, more, digits⟩ := List.exists_cons_of_ne_nil (Nat.toDigits_ne_nil (n := n.natAbs) (b := 10))
  rw [toString_eq, digits]
  cases decide (n < 0)
  · exact ⟨c, more, rfl, .inr (isDigit_of_mem (digits ▸ List.mem_cons_self))⟩
  · exact ⟨_, _, rfl, .inl rfl⟩

/-- The text starts with a character that is neither a blank nor the end of an array or object. -/
def Opens (t : Text) : Prop := ∃ c more, t = c :: more ∧ isSpace c = false ∧ c ≠ ']' ∧ c ≠ '}'

theorem Plain.opens (plain : j.Plain) (written : write depth j = .ok t) : Opens t := by
  cases plain with
  | null => cases written; exact ⟨_, _, rfl, by decide, by decide, by decide⟩
  | bool b => cases b <;> cases written <;> exact ⟨_, _, rfl, by decide, by decide, by decide⟩
  | number n above below =>
    rw [write_number (fitsWord_iff.2 ⟨above, below⟩)] at written
    cases written
    obtain ⟨c, more, first, number⟩ := exists_first n
    rw [first]
    refine ⟨c, more, rfl, ?_, number.ne (by decide), number.ne (by decide)⟩
    simp only [isSpace, Bool.or_eq_false_iff, decide_eq_false_iff_not]
    exact ⟨⟨⟨number.ne (by decide), number.ne (by decide)⟩, number.ne (by decide)⟩, number.ne (by decide)⟩
  | string s => cases written; exact ⟨_, _, rfl, by decide, by decide, by decide⟩
  | array all =>
    obtain ⟨_, texts, rfl, parts, rfl⟩ := write_array.1 written
    exact ⟨_, _, rfl, by decide, by decide, by decide⟩
  | object distinct all =>
    obtain ⟨_, texts, rfl, parts, rfl⟩ := write_object.1 written
    exact ⟨_, _, rfl, by decide, by decide, by decide⟩

end LocatedHtml.Json
