/-!
Finite maps from names that remember the order in which their names were first put in.
-/

namespace LocatedHtml

/-- Names with their values, oldest name first. -/
abbrev OrderedMap (α : Type) := List (String × α)

namespace OrderedMap

variable {α : Type}

/-- The names, oldest first. -/
def keys (m : OrderedMap α) : List String := m.map Prod.fst

/-- The value of a name. -/
def find? (m : OrderedMap α) (key : String) : Option α := m.lookup key

/-- True when the name has a value. -/
def has (m : OrderedMap α) (key : String) : Bool := m.keys.contains key

/-- Gives `key` a value: in its old place if it has one, at the end otherwise. -/
def insert (m : OrderedMap α) (key : String) (value : α) : OrderedMap α :=
  if m.has key then m.map fun entry => if entry.1 = key then (key, value) else entry
  else m ++ [(key, value)]

/-- Gives `key` a value unless it has one already. -/
def insertNew (m : OrderedMap α) (key : String) (value : α) : OrderedMap α :=
  if m.has key then m else m ++ [(key, value)]

/-- The map of a list of entries in which the last entry of a name counts. -/
def ofList (entries : List (String × α)) : OrderedMap α :=
  entries.foldl (fun m entry => m.insert entry.1 entry.2) []

/-- The map `m` with the entries for names that are new to it, the first entry of a name counting. -/
def insertAllNew (m : OrderedMap α) (entries : List (String × α)) : OrderedMap α :=
  entries.foldl (fun m entry => m.insertNew entry.1 entry.2) m

theorem keys_insert (m : OrderedMap α) (key : String) (value : α) :
    (m.insert key value).keys = if m.has key then m.keys else m.keys ++ [key] := by
  unfold insert
  split
  · simp only [keys, List.map_map]
    apply List.map_congr_left
    intro entry _
    simp only [Function.comp]
    split <;> simp_all
  · simp [keys]

theorem keys_insertNew (m : OrderedMap α) (key : String) (value : α) :
    (m.insertNew key value).keys = if m.has key then m.keys else m.keys ++ [key] := by
  unfold insertNew
  split <;> simp [keys]

theorem mem_of_find? {m : OrderedMap α} {key : String} {value : α} (found : m.find? key = some value) :
    (key, value) ∈ m := by
  obtain ⟨front, back, rfl, _⟩ := List.lookup_eq_some_iff.1 found
  exact List.mem_append_right front List.mem_cons_self

theorem mem_insertAllNew {m : OrderedMap α} {entries : List (String × α)} {entry : String × α}
    (member : entry ∈ insertAllNew m entries) : entry ∈ m ∨ entry ∈ entries := by
  induction entries generalizing m with
  | nil => exact .inl member
  | cons first entries ih =>
    rcases ih member with earlier | later
    · dsimp only [insertNew] at earlier
      split at earlier
      · exact .inl earlier
      · rcases List.mem_append.1 earlier with earlier | same
        · exact .inl earlier
        · rw [List.mem_singleton.1 same]
          exact .inr List.mem_cons_self
    · exact .inr (List.mem_cons_of_mem _ later)

/-- Entries that are put in stay in their order. -/
theorem insertAllNew_sublist (m : OrderedMap α) (entries : List (String × α)) :
    (insertAllNew m entries).Sublist (m ++ entries) := by
  induction entries generalizing m with
  | nil => exact (List.append_nil m).symm ▸ List.Sublist.refl m
  | cons first entries ih =>
    apply (ih (m.insertNew first.1 first.2)).trans
    rw [List.append_cons]
    apply List.Sublist.append_right
    unfold insertNew
    split
    · exact List.sublist_append_left m [first]
    · exact List.Sublist.refl _

theorem insertAllNew_append (m : OrderedMap α) (first more : List (String × α)) :
    insertAllNew m (first ++ more) = insertAllNew (insertAllNew m first) more := List.foldl_append

/-- Which names a map gets depends on nothing but names. -/
theorem keys_insertAllNew_congr {β : Type} {m : OrderedMap α} {n : OrderedMap β}
    (same : m.keys = n.keys) {entries : List (String × α)} {others : List (String × β)}
    (names : entries.map Prod.fst = others.map Prod.fst) :
    (insertAllNew m entries).keys = (insertAllNew n others).keys := by
  induction entries generalizing m n others with
  | nil =>
    cases others with
    | nil => exact same
    | cons other others => cases names
  | cons entry entries ih =>
    cases others with
    | nil => cases names
    | cons other others =>
      rw [List.map_cons, List.map_cons] at names
      injection names with first rest
      apply ih _ rest
      rw [keys_insertNew, keys_insertNew, first, has, has, same]

/-- A map that grows keeps one entry a name. -/
theorem nodup_insertAllNew {m : OrderedMap α} (distinct : m.keys.Nodup)
    (entries : List (String × α)) : (insertAllNew m entries).keys.Nodup := by
  induction entries generalizing m with
  | nil => exact distinct
  | cons first entries ih =>
    apply ih
    rw [keys_insertNew]
    split
    · exact distinct
    · next new =>
      have apart : first.1 ∉ m.keys := by
        intro member
        exact new (List.contains_iff_mem.2 member)
      rw [List.nodup_append]
      refine ⟨distinct, by simp, ?_⟩
      intro a inside b same
      rw [List.mem_singleton.1 same]
      rintro rfl
      exact apart inside

/-- Entries with names of their own are all put in. -/
theorem insertAllNew_of_nodup {m : OrderedMap α} {entries : List (String × α)}
    (distinct : (keys (m ++ entries)).Nodup) : insertAllNew m entries = m ++ entries := by
  induction entries generalizing m with
  | nil => exact (List.append_nil m).symm
  | cons first entries ih =>
    have apart : m.has first.1 = false := by
      rw [← Bool.not_eq_true, has, List.contains_iff_mem]
      intro member
      rw [keys, List.map_append, List.map_cons, List.nodup_append] at distinct
      exact distinct.2.2 _ member _ List.mem_cons_self rfl
    have step : m.insertNew first.1 first.2 = m ++ [first] := by
      rw [insertNew, apart]
      rfl
    rw [List.append_cons] at distinct ⊢
    rw [← ih distinct, ← step]
    rfl

theorem insertAllNew_nil {entries : OrderedMap α} (distinct : entries.keys.Nodup) :
    insertAllNew [] entries = entries := insertAllNew_of_nodup distinct

end OrderedMap

end LocatedHtml
