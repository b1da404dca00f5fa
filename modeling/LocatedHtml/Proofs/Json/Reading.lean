import LocatedHtml.Proofs.Json.Writing

/-!
The text of a value is read back as the value. As many steps are enough as the text has characters, and it may
have as many containers inside one another as it was written with.
-/

namespace LocatedHtml.Json

variable {j : Json} {depth : Nat} {s t rest : Text} {items : List Json} {entries : List (Text × Json)}
  {texts : List Text}

/-- The text is read as the value, whatever ends a value behind it. -/
def Reads (depth : Nat) (j : Json) (s : Text) : Prop :=
  Opens s ∧ ∀ fuel rest, s.length ≤ fuel → EndsValue rest → value? fuel depth (s ++ rest) = some (j, rest)

theorem Opens.skipSpace (opens : Opens s) (rest : Text) : skipSpace (s ++ rest) = s ++ rest := by
  obtain ⟨c, more, rfl, visible, _⟩ := opens
  exact List.dropWhile_cons_of_neg (by rw [visible]; exact Bool.false_ne_true)

theorem endsValue_cons {c : Char} (mark : c = ',' ∨ c = ']' ∨ c = '}') : EndsValue (c :: rest) := by
  rintro _ ⟨⟩
  exact mark

theorem Opens.append (opens : Opens s) (more : Text) : Opens (s ++ more) := by
  obtain ⟨c, behind, rfl, mark⟩ := opens
  exact ⟨c, behind ++ more, rfl, mark⟩

theorem opens_commas (first : Opens s) (texts : List Text) : Opens (commas (s :: texts)) := by
  cases texts with
  | nil => rwa [commas_singleton]
  | cons next texts =>
    rw [commas_cons_cons]
    exact first.append _

/-- A mark is no blank. -/
theorem skipSpace_mark {c : Char} (mark : isSpace c = false) (rest : Text) : skipSpace (c :: rest) = c :: rest :=
  List.dropWhile_cons_of_neg (by rw [mark]; exact Bool.false_ne_true)

/-- The items of an array are read up to its bracket. -/
theorem items?_commas {fuel : Nat} (read : List.Forall₂ (Reads depth) items texts) (some_ : items ≠ [])
    (enough : (commas texts).length < fuel) :
    items? fuel depth (commas texts ++ ']' :: rest) = some (items, rest) := by
  induction read generalizing fuel with
  | nil => exact absurd rfl some_
  | @cons item s items texts first others ih =>
    cases fuel with
    | zero => cases enough
    | succ fuel =>
      rw [items?]
      cases others with
      | nil =>
        rw [commas_singleton] at enough ⊢
        rw [first.2 fuel _ (by omega) (endsValue_cons (by decide))]
        simp only [Option.bind_eq_bind, Option.bind_some]
        rw [skipSpace_mark (by decide)]
        rfl
      | cons second others =>
        rw [commas_cons_cons, List.length_append, List.length_cons] at enough
        rw [commas_cons_cons, List.append_assoc, List.cons_append,
          first.2 fuel _ (by omega) (endsValue_cons (by decide))]
        simp only [Option.bind_eq_bind, Option.bind_some]
        rw [skipSpace_mark (by decide)]
        change (items? fuel depth (skipSpace _)).bind _ = _
        rw [(opens_commas second.1 _).skipSpace, ih (List.cons_ne_nil _ _) (by omega)]
        rfl

theorem setEntry_new {name : Text} {value : Json} (new : name ∉ entries.map Prod.fst) :
    setEntry name value entries = entries ++ [(name, value)] := by
  induction entries with
  | nil => rfl
  | cons other entries ih =>
    rw [List.map_cons, List.mem_cons, not_or] at new
    rw [setEntry, if_neg (Ne.symm new.1), ih new.2, List.cons_append]

/-- An entry is put to those read before, and the mark behind it tells what to do. -/
theorem entries?_entry {fuel : Nat} {before : List (Text × Json)} {name : Text} (read : Reads depth j s)
    (enough : s.length ≤ fuel) (ends : EndsValue rest) :
    entries? (fuel + 1) depth before (writtenString name ++ ':' :: s ++ rest) =
      match skipSpace rest with
      | '}' :: rest => some (setEntry name j before, rest)
      | ',' :: rest => entries? fuel depth (setEntry name j before) (skipSpace rest)
      | _ => none := by
  have text : writtenString name ++ ':' :: s ++ rest =
      '"' :: (name.flatMap writtenChar ++ '"' :: ':' :: (s ++ rest)) := by
    simp [writtenString]
  rw [text, entries?]
  simp only [Option.bind_eq_bind, string?_written, Option.bind_some]
  rw [skipSpace_mark (by decide)]
  change (value? fuel depth (skipSpace _)).bind _ = _
  rw [read.1.skipSpace, read.2 fuel rest enough ends]
  rfl

/-- The text is the name of the entry, and one that is read as its value. -/
def ReadsEntry (depth : Nat) (entry : Text × Json) (u : Text) : Prop :=
  ∃ s, Reads depth entry.2 s ∧ u = writtenString entry.1 ++ ':' :: s

theorem ReadsEntry.opens {entry : Text × Json} {u : Text} (read : ReadsEntry depth entry u) : Opens u := by
  obtain ⟨s, _, rfl⟩ := read
  exact ⟨_, _, rfl, by decide, by decide, by decide⟩

/-- The entries of an object are read up to its brace. -/
theorem entries?_commas {fuel : Nat} {before : List (Text × Json)}
    (read : List.Forall₂ (ReadsEntry depth) entries texts) (some_ : entries ≠ [])
    (distinct : ((before ++ entries).map Prod.fst).Nodup) (enough : (commas texts).length < fuel) :
    entries? fuel depth before (commas texts ++ '}' :: rest) = some (before ++ entries, rest) := by
  induction read generalizing fuel before with
  | nil => exact absurd rfl some_
  | @cons entry u entries texts first others ih =>
    cases fuel with
    | zero => cases enough
    | succ fuel =>
      obtain ⟨s, value, rfl⟩ := first
      have new : entry.1 ∉ before.map Prod.fst := by
        rw [List.map_append, List.map_cons, List.nodup_append] at distinct
        exact fun member => distinct.2.2 _ member _ List.mem_cons_self rfl
      cases others with
      | nil =>
        rw [commas_singleton] at enough ⊢
        rw [List.length_append, List.length_cons] at enough
        rw [entries?_entry value (by omega) (endsValue_cons (by decide)), skipSpace_mark (by decide),
          setEntry_new new]
        rfl
      | cons second others =>
        rw [commas_cons_cons, List.length_append, List.length_append, List.length_cons, List.length_cons] at enough
        rw [commas_cons_cons, List.append_assoc, List.cons_append,
          entries?_entry value (by omega) (endsValue_cons (by decide)), skipSpace_mark (by decide)]
        change entries? fuel depth _ (skipSpace _) = _
        rw [setEntry_new new, (opens_commas second.opens _).skipSpace, ih (List.cons_ne_nil _ _) _ (by omega),
          List.append_assoc]
        · rfl
        · rwa [List.append_assoc]

theorem Opens.reads (opens : Opens t) (read : ∀ fuel rest, t.length ≤ fuel + 1 → EndsValue rest →
    value? (fuel + 1) depth (t ++ rest) = some (j, rest)) : Reads depth j t := by
  refine ⟨opens, fun fuel rest enough ends => ?_⟩
  obtain ⟨c, more, rfl, _⟩ := opens
  cases fuel with
  | zero => cases enough
  | succ fuel => exact read fuel rest enough ends

theorem value?_array {fuel : Nat} (opens : Opens s) : value? (fuel + 1) (depth + 1) ('[' :: s) =
    (items? fuel depth s).map fun (items, after) => (.array items, after) := by
  obtain ⟨c, more, rfl, visible, other, _⟩ := opens
  rw [value?, if_neg (by decide), if_pos rfl, skipSpace_mark visible]
  split
  · next same => exact absurd (List.cons.inj same).1 other
  · rfl

theorem value?_object {fuel : Nat} (opens : Opens s) : value? (fuel + 1) (depth + 1) ('{' :: s) =
    (entries? fuel depth [] s).map fun (entries, after) => (.object entries, after) := by
  obtain ⟨c, more, rfl, visible, _, other⟩ := opens
  rw [value?, if_neg (by decide), if_neg (by decide), if_pos rfl, skipSpace_mark visible]
  split
  · next same => exact absurd (List.cons.inj same).1 other
  · rfl

theorem value?_number {fuel : Nat} {n : Int} (fits : fitsWord n = true) (ends : EndsValue rest) :
    value? (fuel + 1) depth ((toString n).toList ++ rest) = some (.number n, rest) := by
  obtain ⟨c, more, first, number⟩ := exists_first n
  have read := number?_written fits ends
  rw [first] at read ⊢
  have ne {d : Char} (other : ¬ FirstOfNumber d) : c ≠ d := number.ne other
  rw [List.cons_append, value?.eq_def]
  dsimp only
  rw [if_neg (ne (by decide)), if_neg (ne (by decide)), if_neg (ne (by decide)),
    if_neg (ne (by decide)), if_neg (ne (by decide)), if_neg (ne (by decide))]
  exact read

theorem value?_string {fuel : Nat} :
    value? (fuel + 1) depth (writtenString s ++ rest) = some (.string s, rest) := by
  have text : writtenString s ++ rest = '"' :: (s.flatMap writtenChar ++ '"' :: rest) := by simp [writtenString]
  rw [text, value?.eq_def]
  dsimp only
  rw [if_pos rfl, string?_written, Option.map_some]

/-- What is written for a value is read as the value. -/
theorem Plain.reads {limit : Nat} (plain : j.Plain) (written : write depth j = .ok t) (deep : depth ≤ limit) :
    Reads limit j t := by
  have opens := plain.opens written
  induction plain generalizing depth limit t with
  | null =>
    cases written
    exact opens.reads fun _ _ _ _ => rfl
  | bool b =>
    cases b <;> cases written <;> exact opens.reads fun _ _ _ _ => rfl
  | number n above below =>
    have fits := fitsWord_iff.2 ⟨above, below⟩
    rw [write_number fits] at written
    cases written
    exact opens.reads fun fuel rest _ ends => value?_number fits ends
  | string s =>
    cases written
    exact opens.reads fun fuel rest _ _ => value?_string
  | array all ih =>
    obtain ⟨inner, texts, rfl, parts, rfl⟩ := write_array.1 written
    obtain ⟨limit, rfl⟩ := Nat.exists_eq_add_of_le' deep
    have read : List.Forall₂ (Reads (limit + inner)) _ texts :=
      ((List.forall₂_and_left _ _).2 ⟨fun item member => member, parts⟩).imp fun item s part =>
        ih item part.1 part.2 (Nat.le_add_left _ _) ((all item part.1).opens part.2)
    refine opens.reads fun fuel rest enough _ => ?_
    have text : '[' :: commas texts ++ [']'] ++ rest = '[' :: (commas texts ++ ']' :: rest) := by simp
    rw [List.length_append, List.length_cons, List.length_singleton] at enough
    rw [text, ← Nat.add_assoc]
    cases read with
    | nil => rfl
    | cons first others =>
      rw [value?_array ((opens_commas first.1 _).append _),
        items?_commas (.cons first others) (List.cons_ne_nil _ _) (by omega), Option.map_some]
  | object distinct all ih =>
    obtain ⟨inner, texts, rfl, parts, rfl⟩ := write_object.1 written
    obtain ⟨limit, rfl⟩ := Nat.exists_eq_add_of_le' deep
    have read : List.Forall₂ (ReadsEntry (limit + inner)) _ texts :=
      ((List.forall₂_and_left _ _).2 ⟨fun entry member => member, parts⟩).imp fun entry u part =>
        have ⟨s, value, same⟩ := writeEntry_eq_ok.1 part.2
        ⟨s, ih entry part.1 value (Nat.le_add_left _ _) ((all entry part.1).opens value), same⟩
    refine opens.reads fun fuel rest enough _ => ?_
    have text : '{' :: commas texts ++ ['}'] ++ rest = '{' :: (commas texts ++ '}' :: rest) := by simp
    rw [List.length_append, List.length_cons, List.length_singleton] at enough
    rw [text, ← Nat.add_assoc]
    cases read with
    | nil => rfl
    | cons first others =>
      rw [value?_object ((opens_commas first.opens _).append _),
        entries?_commas (.cons first others) (List.cons_ne_nil _ _) distinct (by omega), Option.map_some,
        List.nil_append]

/-- A whole text is read as the value that it was written for. -/
theorem Plain.read?_eq (plain : j.Plain) (written : write depth j = .ok t) (deep : depth ≤ maxReadDepth) :
    read? t = some j := by
  obtain ⟨opens, read⟩ := plain.reads written deep
  have whole := read (2 * t.length + 2) [] (by omega) (fun _ none => nomatch none)
  rw [List.append_nil] at whole
  rw [read?, ← List.append_nil t, opens.skipSpace, List.append_nil, whole]
  rfl

end LocatedHtml.Json
