import LocatedHtml.Json.Basic
import Mathlib.Data.List.Sort

/-!
Values that differ in the order of the entries of their objects only. They are the same value sorted, as long
as no object has two entries of one name.
-/

namespace LocatedHtml.Json

/-- The value is made of words, whole numbers that fit 64 bits and strings, and no object in it has two
entries of one name. -/
inductive Plain : Json → Prop
  | null : Plain .null
  | bool (b : Bool) : Plain (.bool b)
  | number (n : Int) (above : -Int.pow 2 63 ≤ n) (below : n < Int.pow 2 64) : Plain (.number n)
  | string (t : Text) : Plain (.string t)
  | array {items : List Json} (all : ∀ item ∈ items, Plain item) : Plain (.array items)
  | object {entries : List (Text × Json)} (distinct : (entries.map Prod.fst).Nodup)
    (all : ∀ entry ∈ entries, Plain entry.2) : Plain (.object entries)

/-- No more than so many containers are inside one another in the value. -/
inductive Within : Nat → Json → Prop
  | null {depth : Nat} : Within depth .null
  | bool {depth : Nat} (b : Bool) : Within depth (.bool b)
  | number {depth : Nat} (n : Int) : Within depth (.number n)
  | decimal {depth : Nat} (digits exponent : Int) : Within depth (.decimal digits exponent)
  | string {depth : Nat} (t : Text) : Within depth (.string t)
  | array {depth : Nat} {items : List Json} (all : ∀ item ∈ items, Within depth item) :
    Within (depth + 1) (.array items)
  | object {depth : Nat} {entries : List (Text × Json)} (all : ∀ entry ∈ entries, Within depth entry.2) :
    Within (depth + 1) (.object entries)

/-- The second value is the first one with the entries of some of its objects in another order. -/
inductive Reordered : Json → Json → Prop
  | refl (j : Json) : Reordered j j
  | trans {i j k : Json} (first : Reordered i j) (second : Reordered j k) : Reordered i k
  | item {i j : Json} (front back : List Json) (inside : Reordered i j) :
    Reordered (.array (front ++ i :: back)) (.array (front ++ j :: back))
  | value {i j : Json} (front : List (Text × Json)) (name : Text) (back : List (Text × Json))
    (inside : Reordered i j) :
    Reordered (.object (front ++ (name, i) :: back)) (.object (front ++ (name, j) :: back))
  | order {entries others : List (Text × Json)} (same : entries.Perm others) :
    Reordered (.object entries) (.object others)

variable {i j : Json} {entries others : List (Text × Json)} {depth : Nat}

theorem sortedItems_eq (items : List Json) : sortedItems items = items.map sorted := by
  induction items with
  | nil => rfl
  | cons item items ih => rw [sortedItems, ih, List.map_cons]

theorem sortedEntries_eq (entries : List (Text × Json)) :
    sortedEntries entries = entries.map fun entry => (entry.1, sorted entry.2) := by
  induction entries with
  | nil => rfl
  | cons entry entries ih => rw [sortedEntries, ih, List.map_cons]

section Names

variable {a b c : Text} {x y : Char}

theorem notBehind_cons : notBehind (x :: a) (y :: b) = true ↔
    x.toNat < y.toNat ∨ x.toNat = y.toNat ∧ notBehind a b = true := by
  rw [notBehind, Bool.or_eq_true, decide_eq_true_eq, Bool.and_eq_true, beq_iff_eq]

theorem notBehind_total (a b : Text) : notBehind a b = true ∨ notBehind b a = true := by
  induction a generalizing b with
  | nil => exact .inl rfl
  | cons x a ih =>
    cases b with
    | nil => exact .inr rfl
    | cons y b =>
      rw [notBehind_cons, notBehind_cons]
      rcases Nat.lt_trichotomy x.toNat y.toNat with before | same | behind
      · exact .inl (.inl before)
      · exact (ih b).imp (fun rest => .inr ⟨same, rest⟩) (fun rest => .inr ⟨same.symm, rest⟩)
      · exact .inr (.inl behind)

theorem notBehind_trans (first : notBehind a b = true) (second : notBehind b c = true) :
    notBehind a c = true := by
  induction a generalizing b c with
  | nil => rfl
  | cons x a ih =>
    cases b with
    | nil => cases first
    | cons y b =>
      cases c with
      | nil => cases second
      | cons z c =>
        rw [notBehind_cons] at first second ⊢
        rcases first with before | ⟨same, first⟩
        · exact .inl (by omega)
        · rw [same]
          exact second.imp_right fun ⟨again, second⟩ => ⟨again, ih first second⟩

theorem notBehind_antisymm (first : notBehind a b = true) (second : notBehind b a = true) : a = b := by
  induction a generalizing b with
  | nil =>
    cases b with
    | nil => rfl
    | cons y b => cases second
  | cons x a ih =>
    cases b with
    | nil => cases first
    | cons y b =>
      rw [notBehind_cons] at first second
      have same : x.toNat = y.toNat := by omega
      have before := first.resolve_left (by omega)
      have behind := second.resolve_left (by omega)
      rw [← Char.ofNat_toNat x, same, Char.ofNat_toNat, ih before.2 behind.2]

end Names

/-- The name of the first entry is not behind that of the second one. -/
abbrev Earlier (first second : Text × Json) : Prop := notBehind first.1 second.1 = true

instance : Std.Total Earlier := ⟨fun first second => notBehind_total first.1 second.1⟩

instance : IsTrans (Text × Json) Earlier := ⟨fun _ _ _ => notBehind_trans⟩

theorem sortEntries_eq (entries : List (Text × Json)) : sortEntries entries = entries.insertionSort Earlier := by
  have step (entry : Text × Json) (rest : List (Text × Json)) :
      insertEntry entry rest = rest.orderedInsert Earlier entry := by
    induction rest with
    | nil => rfl
    | cons other rest ih => rw [insertEntry, ih]; rfl
  induction entries with
  | nil => rfl
  | cons entry entries ih => rw [List.insertionSort_cons, ← ih, ← step]; rfl

theorem sortEntries_perm (entries : List (Text × Json)) : (sortEntries entries).Perm entries := by
  rw [sortEntries_eq]
  exact List.perm_insertionSort Earlier entries

/-- Sorting forgets the order of entries whose names are different. -/
theorem sortEntries_congr (distinct : (entries.map Prod.fst).Nodup) (same : entries.Perm others) :
    sortEntries entries = sortEntries others := by
  have inside {entry : Text × Json} (member : entry ∈ sortEntries others) : entry ∈ entries :=
    same.mem_iff.2 ((sortEntries_perm others).mem_iff.1 member)
  apply List.Perm.eq_of_pairwise
  · intro a b first second before behind
    have names : a.1 = b.1 := notBehind_antisymm before behind
    exact List.inj_on_of_nodup_map distinct ((sortEntries_perm entries).mem_iff.1 first) (inside second) names
  · rw [sortEntries_eq]
    exact List.pairwise_insertionSort Earlier entries
  · rw [sortEntries_eq]
    exact List.pairwise_insertionSort Earlier others
  · exact (sortEntries_perm entries).trans (same.trans (sortEntries_perm others).symm)

theorem names_sortedEntries (entries : List (Text × Json)) :
    (sortedEntries entries).map Prod.fst = entries.map Prod.fst := by
  rw [sortedEntries_eq, List.map_map]
  rfl

theorem mem_sorted {entry : Text × Json} (member : entry ∈ sortEntries (sortedEntries entries)) :
    ∃ before ∈ entries, entry = (before.1, before.2.sorted) := by
  rw [(sortEntries_perm _).mem_iff, sortedEntries_eq, List.mem_map] at member
  obtain ⟨before, member, rfl⟩ := member
  exact ⟨before, member, rfl⟩

theorem Plain.sorted (plain : j.Plain) : j.sorted.Plain := by
  induction plain with
  | null => exact .null
  | bool b => exact .bool b
  | number n above below => exact .number n above below
  | string t => exact .string t
  | array all ih =>
    rw [Json.sorted, sortedItems_eq]
    exact .array (List.forall_mem_map.2 ih)
  | @object entries distinct all ih =>
    rw [Json.sorted]
    refine .object ?_ fun entry member => ?_
    · rwa [((sortEntries_perm _).map Prod.fst).nodup_iff, names_sortedEntries]
    · obtain ⟨before, inside, rfl⟩ := mem_sorted member
      exact ih before inside

/-- All items of an array may be reordered. -/
theorem reordered_array {items others : List Json} (inside : List.Forall₂ Reordered items others) :
    Reordered (.array items) (.array others) := by
  suffices ∀ front, Reordered (.array (front ++ items)) (.array (front ++ others)) from this []
  induction inside with
  | nil => exact fun front => .refl _
  | @cons _ after _ _ first _ ih =>
    intro front
    have rest := ih (front ++ [after])
    rw [List.append_assoc, List.append_assoc] at rest
    exact .trans (.item front _ first) rest

/-- All values of an object may be reordered. -/
theorem reordered_object (inside : ∀ entry ∈ entries, Reordered entry.2 entry.2.sorted) :
    Reordered (.object entries) (.object (sortedEntries entries)) := by
  suffices ∀ front, Reordered (.object (front ++ entries)) (.object (front ++ sortedEntries entries)) from this []
  induction entries with
  | nil => exact fun front => .refl _
  | cons first entries ih =>
    obtain ⟨name, value⟩ := first
    obtain ⟨first, others⟩ := List.forall_mem_cons.1 inside
    intro front
    have rest := ih others (front ++ [(name, value.sorted)])
    rw [List.append_assoc, List.append_assoc] at rest
    exact .trans (.value front name _ first) rest

/-- A value is reordered when it is sorted. -/
theorem Plain.reordered_sorted (plain : j.Plain) : j.Reordered j.sorted := by
  induction plain with
  | null => exact .refl _
  | bool b => exact .refl _
  | number n above below => exact .refl _
  | string t => exact .refl _
  | array all ih =>
    rw [Json.sorted, sortedItems_eq]
    exact reordered_array (List.forall₂_map_right_iff.2 (List.forall₂_same.2 ih))
  | object distinct all ih =>
    rw [Json.sorted]
    exact .trans (reordered_object ih) (.order (sortEntries_perm _).symm)

/-- Values that differ in the order of entries only are the same sorted. -/
theorem Reordered.sorted_eq (reordered : Reordered i j) (plain : i.Plain) : j.Plain ∧ i.sorted = j.sorted := by
  induction reordered with
  | refl j => exact ⟨plain, rfl⟩
  | trans _ _ first second =>
    obtain ⟨middle, same⟩ := first plain
    obtain ⟨last, same'⟩ := second middle
    exact ⟨last, same.trans same'⟩
  | item front back _ ih =>
    cases plain with
    | array all =>
      obtain ⟨before, inside⟩ := List.forall_mem_append.1 all
      obtain ⟨inside, behind⟩ := List.forall_mem_cons.1 inside
      obtain ⟨plain, same⟩ := ih inside
      refine ⟨.array (List.forall_mem_append.2 ⟨before, List.forall_mem_cons.2 ⟨plain, behind⟩⟩), ?_⟩
      simp only [Json.sorted, sortedItems_eq, List.map_append, List.map_cons, same]
  | value front name back _ ih =>
    cases plain with
    | object distinct all =>
      obtain ⟨before, inside⟩ := List.forall_mem_append.1 all
      obtain ⟨inside, behind⟩ := List.forall_mem_cons.1 inside
      obtain ⟨plain, same⟩ := ih inside
      refine ⟨.object ?_ (List.forall_mem_append.2 ⟨before, List.forall_mem_cons.2 ⟨plain, behind⟩⟩), ?_⟩
      · rwa [List.map_append, List.map_cons] at distinct ⊢
      · simp only [Json.sorted, sortedEntries_eq, List.map_append, List.map_cons, same]
  | @order entries others same =>
    cases plain with
    | object distinct all =>
      refine ⟨.object ((same.map _).nodup_iff.1 distinct) fun entry member => all entry (same.mem_iff.2 member), ?_⟩
      rw [Json.sorted, Json.sorted, sortEntries_congr]
      · rwa [names_sortedEntries]
      · rw [sortedEntries_eq, sortedEntries_eq]
        exact same.map _

theorem within_array {items : List Json} :
    (array items).Within depth ↔ ∃ inner, depth = inner + 1 ∧ ∀ item ∈ items, item.Within inner := by
  constructor
  · rintro (_ | _)
    exact ⟨_, rfl, ‹_›⟩
  · rintro ⟨inner, rfl, all⟩
    exact .array all

theorem within_object :
    (object entries).Within depth ↔ ∃ inner, depth = inner + 1 ∧ ∀ entry ∈ entries, entry.2.Within inner := by
  constructor
  · rintro (_ | _)
    exact ⟨_, rfl, ‹_›⟩
  · rintro ⟨inner, rfl, all⟩
    exact .object all

/-- The order of entries has no part in how deep a value is. -/
theorem Reordered.within_iff (reordered : Reordered i j) : i.Within depth ↔ j.Within depth := by
  induction reordered generalizing depth with
  | refl j => exact Iff.rfl
  | trans _ _ first second => exact first.trans second
  | item front back _ ih =>
    simp only [within_array, List.forall_mem_append, List.forall_mem_cons, ih]
  | value front name back _ ih =>
    simp only [within_object, List.forall_mem_append, List.forall_mem_cons, ih]
  | order same => simp only [within_object, same.mem_iff]

end LocatedHtml.Json
