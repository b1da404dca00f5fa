import LocatedHtml.Markup.ClosingRule
import LocatedHtml.Node
import Mathlib.Data.List.Basic

/-!
When an element may stand below others under the closing rules, and why one pass over the rules of a
start tag is enough: what a rule removes exposes nothing that an earlier rule would have closed.
-/

namespace LocatedHtml

namespace ClosingRule

/-- The elements that the walk outwards from a new element passes before the rule or a structural element
stops it. -/
def reach (rule : ClosingRule) (above : List String) : List String :=
  above.takeWhile fun name => !(rule.stopsAt.contains name || structuralNames.contains name)

/-- An element may stand below elements of the given names, nearest first, as far as a rule goes. -/
def Respects (rule : ClosingRule) (above : List String) : Prop :=
  if rule.innermostOnly then ∀ parent ∈ above.head?, parent ∉ rule.closes
  else ∀ name ∈ rule.reach above, name ∉ rule.closes

/-- An element of the name may stand below elements of the given names. -/
def Allows (name : String) (above : List String) : Prop :=
  ∀ rule ∈ rulesFor name, rule.Respects above

/-- The open elements could stand in one another, the outermost one below `base`. -/
def Consistent (base : List String) : List String → Prop
  | [] => True
  | name :: outer => Allows name (outer ++ base) ∧ name ∉ structuralNames ∧ Consistent base outer

/-- The structural elements, or nothing, at which every walk outwards ends. -/
def IsBase (base : List String) : Prop := ∀ name ∈ base.head?, name ∈ structuralNames

/-- Whatever a rule closes is placed by it, and is neither a stop of it nor structural nor one of the
head's own elements. -/
structure Lawful (rule : ClosingRule) : Prop where
  separate : ∀ name ∈ rule.closes, name ∉ rule.stopsAt ∧ name ∉ structuralNames
  notHeads : ∀ name ∈ rule.closes, name ∉ headContentNames
  selfApplied : ∀ name ∈ rule.closes, rule ∈ rulesFor name

variable {rule other : ClosingRule} {base opened outer : List String} {name : String}

theorem reach_pass (passed : name ∉ rule.stopsAt) (ordinary : name ∉ structuralNames)
    (above : List String) : rule.reach (name :: above) = name :: rule.reach above := by
  simp only [reach, List.contains_eq_mem, passed, ordinary, decide_false, Bool.or_self,
    Bool.not_false, List.takeWhile_cons_of_pos]

theorem reach_stop (stops : name ∈ rule.stopsAt ∨ name ∈ structuralNames) (above : List String) :
    rule.reach (name :: above) = [] := by
  rcases stops with stops | stops <;>
    simp [reach, stops]

theorem count_closes (closes : name ∈ rule.closes) (outer : List String) :
    rule.count (name :: outer) = 1 := by
  simp only [count, List.contains_eq_mem, closes, decide_true, if_true]

theorem count_stop (open_ : name ∉ rule.closes)
    (stops : rule.innermostOnly = true ∨ name ∈ rule.stopsAt) (outer : List String) :
    rule.count (name :: outer) = 0 := by
  rcases stops with stops | stops <;> simp [count, open_, stops]

theorem count_pass (open_ : name ∉ rule.closes) (outwards : rule.innermostOnly = false)
    (passed : name ∉ rule.stopsAt) (outer : List String) :
    rule.count (name :: outer) = if rule.count outer = 0 then 0 else rule.count outer + 1 := by
  simp only [count, List.contains_eq_mem, open_, outwards, passed, decide_false, Bool.or_self,
    Bool.false_eq_true, if_false]
  cases rule.count outer <;> simp

theorem respects_base (bounded : IsBase base) (lawful : rule.Lawful) : rule.Respects base := by
  cases base with
  | nil => unfold Respects reach; split <;> simp
  | cons name base =>
    have structural : name ∈ structuralNames := bounded name rfl
    have open_ : name ∉ rule.closes := fun closes => (lawful.separate name closes).2 structural
    unfold Respects
    rw [reach_stop (.inr structural)]
    split
    · simpa using open_
    · simp

/-- A rule closes nothing exactly where it lets the new element stand. -/
theorem count_eq_zero_iff (bounded : IsBase base) (lawful : rule.Lawful)
    (ordinary : ∀ name ∈ opened, name ∉ structuralNames) :
    rule.count opened = 0 ↔ rule.Respects (opened ++ base) := by
  induction opened with
  | nil => simpa only [count, List.nil_append, true_iff] using respects_base bounded lawful
  | cons name outer ih =>
    have ih := ih fun n member => ordinary n (List.mem_cons_of_mem _ member)
    have ordinary := ordinary name List.mem_cons_self
    by_cases closes : name ∈ rule.closes
    · have passed := (lawful.separate name closes).1
      rw [count_closes closes, Respects, List.cons_append, reach_pass passed ordinary]
      split <;> simp [closes]
    · cases innermost : rule.innermostOnly with
      | true =>
        rw [count_stop closes (.inl innermost), Respects, if_pos innermost]
        simpa using closes
      | false =>
        unfold Respects at ih ⊢
        rw [if_neg (by simp [innermost])] at ih ⊢
        by_cases stops : name ∈ rule.stopsAt
        · rw [count_stop closes (.inr stops), List.cons_append, reach_stop (.inl stops)]
          simp
        · rw [count_pass closes innermost stops, List.cons_append, reach_pass stops ordinary]
          have more : (if rule.count outer = 0 then 0 else rule.count outer + 1) = 0 ↔
              rule.count outer = 0 := by split <;> omega
          rw [more, ih]
          simp [closes]

theorem Consistent.ordinary (consistent : Consistent base opened) :
    ∀ name ∈ opened, name ∉ structuralNames := by
  induction opened with
  | nil => simp
  | cons name outer ih =>
    intro n member
    rcases List.mem_cons.1 member with rfl | member
    · exact consistent.2.1
    · exact ih consistent.2.2 n member

theorem Consistent.drop (consistent : Consistent base opened) (n : Nat) :
    Consistent base (opened.drop n) := by
  induction n generalizing opened with
  | zero => exact consistent
  | succ n ih =>
    cases opened with
    | nil => exact consistent
    | cons name outer => exact ih consistent.2.2

theorem Consistent.count_outer (consistent : Consistent base (name :: outer))
    (bounded : IsBase base) (lawful : rule.Lawful) (applies : rule ∈ rulesFor name) :
    rule.count outer = 0 := by
  rw [count_eq_zero_iff bounded lawful consistent.2.2.ordinary]
  exact consistent.1 rule applies

theorem listItem_lawful : listItem.Lawful := ⟨by decide, by decide, by decide⟩
theorem descriptionItem_lawful : descriptionItem.Lawful := ⟨by decide, by decide, by decide⟩
theorem paragraph_lawful : paragraph.Lawful := ⟨by decide, by decide, by decide⟩
theorem choice_lawful : choice.Lawful := ⟨by decide, by decide, by decide⟩
theorem choiceGroup_lawful : choiceGroup.Lawful := ⟨by decide, by decide, by decide⟩
theorem row_lawful : row.Lawful := ⟨by decide, by decide, by decide⟩
theorem cell_lawful : cell.Lawful := ⟨by decide, by decide, by decide⟩
theorem rowGroup_lawful : rowGroup.Lawful := ⟨by decide, by decide, by decide⟩

theorem rulesFor_lawful (name : String) : ∀ rule ∈ rulesFor name, rule.Lawful := by
  unfold rulesFor
  split
  all_goals try split
  all_goals
    simp only [List.mem_cons, List.not_mem_nil, or_false, forall_eq_or_imp, forall_eq,
      listItem_lawful, descriptionItem_lawful, paragraph_lawful, choice_lawful, choiceGroup_lawful,
      row_lawful, cell_lawful, rowGroup_lawful, and_self, false_implies, implies_true]

/-- Removing what a later rule closes leaves nothing to close for an earlier rule. -/
def Undisturbed (earlier later : ClosingRule) : Prop :=
  ∀ base opened, IsBase base → Consistent base opened → earlier.count opened = 0 →
    earlier.count (opened.drop (later.count opened)) = 0

theorem count_drop (lawful : rule.Lawful) (bounded : IsBase base)
    (consistent : Consistent base opened) : rule.count (opened.drop (rule.count opened)) = 0 := by
  induction opened with
  | nil => rfl
  | cons name outer ih =>
    by_cases closes : name ∈ rule.closes
    · rw [count_closes closes, List.drop_succ_cons, List.drop_zero]
      exact consistent.count_outer bounded lawful (lawful.selfApplied name closes)
    · by_cases stops : rule.innermostOnly = true ∨ name ∈ rule.stopsAt
      · have none := count_stop closes stops outer
        rw [none, List.drop_zero, none]
      · rw [not_or, Bool.not_eq_true] at stops
        have pass := count_pass closes stops.1 stops.2 outer
        by_cases none : rule.count outer = 0
        · rw [if_pos none] at pass
          rw [pass, List.drop_zero, pass]
        · rw [pass, if_neg none, List.drop_succ_cons]
          exact ih consistent.2.2

/-- A stop of the earlier rule that the later one passes is placed by the later one, so the later one
closes nothing beyond it. -/
theorem undisturbed_of_stops (lawful : other.Lawful) (outwards : rule.innermostOnly = false)
    (apart : ∀ name ∈ other.closes, name ∉ rule.closes ∧ name ∉ rule.stopsAt)
    (stops : ∀ name ∈ rule.stopsAt, name ∈ other.stopsAt ∨ other ∈ rulesFor name) :
    Undisturbed rule other := by
  intro base opened bounded consistent
  induction opened with
  | nil => exact id
  | cons name outer ih =>
    intro none
    by_cases closes : name ∈ other.closes
    · rw [count_closes closes, List.drop_succ_cons, List.drop_zero]
      rw [count_pass (apart name closes).1 outwards (apart name closes).2] at none
      by_contra some
      rw [if_neg some] at none
      omega
    · by_cases halts : other.innermostOnly = true ∨ name ∈ other.stopsAt
      · rwa [count_stop closes halts, List.drop_zero]
      · rw [not_or, Bool.not_eq_true] at halts
        rw [count_pass closes halts.1 halts.2]
        by_cases more : other.count outer = 0
        · rwa [if_pos more, List.drop_zero]
        · rw [if_neg more, List.drop_succ_cons]
          have open_ : name ∉ rule.closes := by
            intro closed
            rw [count_closes closed] at none
            omega
          have passed : name ∉ rule.stopsAt := by
            intro stop
            rcases stops name stop with stop | applies
            · exact halts.2 stop
            · exact more (consistent.count_outer bounded lawful applies)
          apply ih consistent.2.2
          rw [count_pass open_ outwards passed] at none
          by_contra some
          rw [if_neg some] at none
          omega

theorem undisturbed_of_applied (lawful : rule.Lawful) (innermost : other.innermostOnly = true)
    (applied : ∀ name ∈ other.closes, rule ∈ rulesFor name) : Undisturbed rule other := by
  intro base opened bounded consistent none
  cases opened with
  | nil => exact none
  | cons name outer =>
    by_cases closes : name ∈ other.closes
    · rw [count_closes closes, List.drop_succ_cons, List.drop_zero]
      exact consistent.count_outer bounded lawful (applied name closes)
    · rwa [count_stop closes (.inl innermost), List.drop_zero]

theorem listItem_undisturbed : Undisturbed listItem paragraph :=
  undisturbed_of_stops paragraph_lawful rfl (by decide) (by decide)

theorem descriptionItem_undisturbed : Undisturbed descriptionItem paragraph :=
  undisturbed_of_stops paragraph_lawful rfl (by decide) (by decide)

theorem choice_undisturbed : Undisturbed choice choiceGroup :=
  undisturbed_of_applied choice_lawful rfl (by decide)

theorem rulesFor_undisturbed (name : String) : (rulesFor name).Pairwise Undisturbed := by
  unfold rulesFor
  split
  all_goals try split
  all_goals
    simp [listItem_undisturbed, descriptionItem_undisturbed, choice_undisturbed]

/-- The open elements that are left when some rules have been applied one after another. -/
def remaining (rules : List ClosingRule) (opened : List String) : List String :=
  rules.foldl (fun opened rule => opened.drop (rule.count opened)) opened

theorem Consistent.after_rules (consistent : Consistent base opened) (rules : List ClosingRule) :
    Consistent base (remaining rules opened) := by
  induction rules generalizing opened with
  | nil => exact consistent
  | cons rule rules ih => exact ih (consistent.drop _)

theorem count_remaining_of_undisturbed {rules : List ClosingRule} (bounded : IsBase base)
    (consistent : Consistent base opened) (undisturbed : ∀ later ∈ rules, Undisturbed rule later)
    (none : rule.count opened = 0) : rule.count (remaining rules opened) = 0 := by
  induction rules generalizing opened with
  | nil => exact none
  | cons later rules ih =>
    apply ih (consistent.drop _) (fun r member => undisturbed r (List.mem_cons_of_mem _ member))
    exact undisturbed later List.mem_cons_self _ _ bounded consistent none

/-- After a pass over lawful rules that do not disturb one another none of them closes anything. -/
theorem count_remaining {rules : List ClosingRule} (bounded : IsBase base)
    (consistent : Consistent base opened) (lawful : ∀ rule ∈ rules, rule.Lawful)
    (undisturbed : rules.Pairwise Undisturbed) :
    ∀ rule ∈ rules, rule.count (remaining rules opened) = 0 := by
  induction rules generalizing opened with
  | nil => simp
  | cons first rules ih =>
    intro rule member
    rw [List.pairwise_cons] at undisturbed
    have after := consistent.drop (first.count opened)
    rcases List.mem_cons.1 member with rfl | member
    · change rule.count (remaining rules (opened.drop (rule.count opened))) = 0
      exact count_remaining_of_undisturbed bounded after undisturbed.1
        (count_drop (lawful _ List.mem_cons_self) bounded consistent)
    · exact ih after (fun r m => lawful r (List.mem_cons_of_mem _ m)) undisturbed.2 rule member

theorem drop_count_eq_nil (nothing : opened.drop (rule.count opened) = []) :
    opened = [] ∨ ∃ name ∈ rule.closes, opened.getLast? = some name := by
  induction opened with
  | nil => exact .inl rfl
  | cons name outer ih =>
    right
    by_cases closes : name ∈ rule.closes
    · rw [count_closes closes, List.drop_succ_cons, List.drop_zero] at nothing
      subst nothing
      exact ⟨name, closes, rfl⟩
    · by_cases stops : rule.innermostOnly = true ∨ name ∈ rule.stopsAt
      · rw [count_stop closes stops, List.drop_zero] at nothing
        cases nothing
      · rw [not_or, Bool.not_eq_true] at stops
        rw [count_pass closes stops.1 stops.2] at nothing
        split at nothing
        · cases nothing
        · next some =>
          rw [List.drop_succ_cons] at nothing
          rcases ih nothing with rfl | ⟨closed, member, last⟩
          · exact absurd rfl some
          · cases outer with
            | nil => cases last
            | cons next outer => exact ⟨closed, member, by rw [List.getLast?_cons_cons, last]⟩

theorem remaining_eq_nil {rules : List ClosingRule} (nothing : remaining rules opened = []) :
    opened = [] ∨ ∃ rule ∈ rules, ∃ name ∈ rule.closes, opened.getLast? = some name := by
  induction rules generalizing opened with
  | nil => exact .inl nothing
  | cons rule rules ih =>
    rcases ih nothing with first | ⟨later, member, name, closes, last⟩
    · rcases drop_count_eq_nil first with none | ⟨name, closes, last⟩
      · exact .inl none
      · exact .inr ⟨rule, List.mem_cons_self, name, closes, last⟩
    · right
      rw [List.getLast?_drop] at last
      split at last
      · cases last
      · exact ⟨later, List.mem_cons_of_mem _ member, name, closes, last⟩

theorem allows_remaining (bounded : IsBase base) (consistent : Consistent base opened)
    (name : String) : Allows name (remaining (rulesFor name) opened ++ base) := by
  intro rule applies
  rw [← count_eq_zero_iff bounded (rulesFor_lawful name rule applies)
    (consistent.after_rules _).ordinary]
  exact count_remaining bounded consistent (rulesFor_lawful name) (rulesFor_undisturbed name)
    rule applies

end ClosingRule

end LocatedHtml
