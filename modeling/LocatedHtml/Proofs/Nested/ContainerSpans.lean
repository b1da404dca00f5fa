import LocatedHtml.Proofs.PositionOrder

/-!
Spans of an inner text told in its container, and back. What comes before the inner text is not told in it;
everything else comes back as it was, in the same order, and through two containers as through one.
-/

namespace LocatedHtml

namespace Embedding

variable {e : Embedding} {p q : Position}

theorem toOuter_eq_ok : e.toOuter p = .ok q ↔
    (q.line : Int) = p.line + e.line ∧ (q.column : Int) = p.column + if p.line = 0 then e.column else 0 := by
  unfold toOuter Position.ofInts
  generalize (if p.line = 0 then e.column else 0) = across
  obtain ⟨line, column⟩ := q
  dsimp only
  split
  · simp only [reduceCtorEq, false_iff]
    omega
  · split
    · simp only [reduceCtorEq, false_iff]
      omega
    · simp only [Except.ok.injEq, Position.mk.injEq]
      omega

theorem toInner?_eq_some : e.toInner? q = some p ↔
    (p.line : Int) = q.line - e.line ∧ (p.column : Int) = q.column - if p.line = 0 then e.column else 0 := by
  obtain ⟨line, column⟩ := p
  unfold toInner?
  generalize down : (q.line : Int) - e.line = inner
  have first (same : (line : Int) = inner) : line = 0 ↔ inner = 0 := by omega
  dsimp only
  generalize across : (q.column : Int) - (if inner = 0 then e.column else 0) = rest
  rw [ite_eq_iff]
  simp only [Bool.or_eq_true, decide_eq_true_eq, reduceCtorEq, and_false, false_or, Option.some.injEq,
    Position.mk.injEq]
  constructor
  · rintro ⟨inside, same, _⟩
    have same : (line : Int) = inner := by omega
    simp only [first same, across]
    omega
  · rintro ⟨same, column_⟩
    simp only [first same, across] at column_
    omega

/-- A position told in the container comes back as it was. -/
theorem toInner?_of_toOuter (moved : e.toOuter p = .ok q) : e.toInner? q = some p := by
  rw [toOuter_eq_ok] at moved
  rw [toInner?_eq_some]
  omega

/-- A position told in the inner text is told in the container as it was. -/
theorem toOuter_of_toInner? (moved : e.toInner? q = some p) : e.toOuter p = .ok q := by
  rw [toInner?_eq_some] at moved
  rw [toOuter_eq_ok]
  omega

/-- The positions before the inner text are those that are not told in it. -/
theorem toInner?_eq_none (proper : e.Proper) : e.toInner? q = none ↔ q < e.base := by
  have line := proper.line
  have column := proper.column
  unfold toInner?
  dsimp only
  rw [ite_eq_left_iff]
  simp only [Bool.or_eq_true, decide_eq_true_eq, reduceCtorEq, imp_false, not_not, Position.lt_iff, base]
  split <;> omega

end Embedding

namespace Span

variable {s inner outer : Span} {e : Embedding}

theorem toOuter_eq_ok : s.toOuter e = .ok outer ↔ e.toOuter s.start = .ok outer.start ∧
    e.toOuter s.stop = .ok outer.stop ∧ outer.file = Embedding.nameOr e.file s.file := by
  obtain ⟨file, start, stop⟩ := outer
  unfold toOuter
  cases e.toOuter s.start <;> cases e.toOuter s.stop <;>
    simp [bind, Except.bind, pure, Except.pure, eq_comm, and_assoc, and_comm]

theorem toInner?_eq_some {file : Option String} : s.toInner? e file = some inner ↔
    e.toInner? s.start = some inner.start ∧ e.toInner? s.stop = some inner.stop ∧
      inner.file = Embedding.nameOr file s.file := by
  obtain ⟨name, start, stop⟩ := inner
  unfold toInner?
  cases e.toInner? s.start <;> cases e.toInner? s.stop <;> simp [eq_comm, and_assoc, and_comm]

theorem toInner?_eq_none {file : Option String} (proper : e.Proper) :
    s.toInner? e file = none ↔ s.start < e.base ∨ s.stop < e.base := by
  rw [← Embedding.toInner?_eq_none proper, ← Embedding.toInner?_eq_none proper]
  unfold toInner?
  cases e.toInner? s.start <;> cases e.toInner? s.stop <;> simp

end Span

/-- A span told in its container comes back as it was. In a container that has the inner text from a
position on, a span is told in the inner text unless it reaches before that position, and then its places
come back as they were; places keep their order; and through two containers they are told as through one
that has the text from where the outer container has it. -/
theorem Span.containers_faithful :
    (∀ (s outer : Span) (e : Embedding), s.file ≠ "" → s.toOuter e = .ok outer →
      outer.toInner? e (some s.file) = some s) ∧
    (∀ (e : Embedding), e.Proper →
      (∀ (s : Span) (file : Option String),
        (s.toInner? e file = none ↔ s.start < e.base ∨ s.stop < e.base) ∧
        ∀ inner, s.toInner? e file = some inner →
          ∃ outer, inner.toOuter e = .ok outer ∧ outer.start = s.start ∧ outer.stop = s.stop) ∧
      ∀ p q : Position, p < q → ∃ p' q', e.toOuter p = .ok p' ∧ e.toOuter q = .ok q' ∧ p' < q') ∧
    ∀ inner outer : Embedding, inner.Proper → outer.Proper → ∃ start, outer.toOuter inner.base = .ok start ∧
      ∀ p, ∃ between placed, inner.toOuter p = .ok between ∧ outer.toOuter between = .ok placed ∧
        ∀ file, Embedding.toOuter ⟨start.line, start.column, file⟩ p = .ok placed := by
  refine ⟨?_, ?_, ?_⟩
  · intro s outer e named moved
    obtain ⟨start, stop, _⟩ := toOuter_eq_ok.1 moved
    refine toInner?_eq_some.2 ⟨Embedding.toInner?_of_toOuter start, Embedding.toInner?_of_toOuter stop, ?_⟩
    rw [Embedding.nameOr, if_neg named]
  · intro e proper
    refine ⟨fun s file => ⟨toInner?_eq_none proper, fun inner moved => ?_⟩, fun p q before => ?_⟩
    · obtain ⟨start, stop, _⟩ := toInner?_eq_some.1 moved
      have back : inner.toOuter e = .ok ⟨Embedding.nameOr e.file inner.file, s.start, s.stop⟩ :=
        toOuter_eq_ok.2 ⟨Embedding.toOuter_of_toInner? start, Embedding.toOuter_of_toInner? stop, rfl⟩
      exact ⟨_, back, rfl, rfl⟩
    · exact ⟨_, _, Embedding.toOuter_eq proper p, Embedding.toOuter_eq proper q,
        e.base.inside_strictMono before⟩
  · intro inner outer innerProper outerProper
    refine ⟨_, Embedding.toOuter_eq outerProper inner.base, fun p => ?_⟩
    refine ⟨_, _, Embedding.toOuter_eq innerProper p, Embedding.toOuter_eq outerProper _, fun file => ?_⟩
    rw [Embedding.toOuter_eq (Embedding.proper_ofPosition _ file), Position.inside_inside]
    rfl

/-- A span whose start moves across and down while its stop only moves down. -/
theorem Span.containers_faithful_firstLine :
    let e : Embedding := ⟨3, 5, some "v"⟩
    let s : Span := ⟨"u", ⟨0, 2⟩, ⟨1, 4⟩⟩
    let outer : Span := ⟨"v", ⟨3, 7⟩, ⟨4, 4⟩⟩
    s.toOuter e = .ok outer ∧ outer.toInner? e (some "u") = some s ∧
      Span.toInner? ⟨"v", ⟨3, 4⟩, ⟨4, 4⟩⟩ e none = none ∧
      (∃ again, Span.toOuter ⟨"v", ⟨0, 2⟩, ⟨1, 4⟩⟩ e = .ok again ∧ again.start = ⟨3, 7⟩ ∧
        again.stop = ⟨4, 4⟩) ∧
      (∃ p q, e.toOuter ⟨0, 9⟩ = .ok p ∧ e.toOuter ⟨1, 0⟩ = .ok q ∧ p < q) ∧
      ∃ start, Embedding.toOuter ⟨0, 8, none⟩ e.base = .ok start ∧
        ∃ between placed, e.toOuter ⟨0, 1⟩ = .ok between ∧
          Embedding.toOuter ⟨0, 8, none⟩ between = .ok placed ∧
          Embedding.toOuter ⟨start.line, start.column, none⟩ ⟨0, 1⟩ = .ok placed := by
  intro e s outer
  have proper : e.Proper := ⟨by decide, by decide⟩
  have moved : s.toOuter e = .ok outer := rfl
  obtain ⟨back, contained, composed⟩ := containers_faithful
  obtain ⟨spans, increasing⟩ := contained e proper
  obtain ⟨start, begins, places⟩ := composed e ⟨0, 8, none⟩ proper ⟨by decide, by decide⟩
  obtain ⟨between, placed, first, second, once⟩ := places ⟨0, 1⟩
  exact ⟨moved, back s outer e (by decide) moved, (spans ⟨"v", ⟨3, 4⟩, ⟨4, 4⟩⟩ none).1.2 (.inl (by decide)),
    (spans outer none).2 ⟨"v", ⟨0, 2⟩, ⟨1, 4⟩⟩ rfl, increasing ⟨0, 9⟩ ⟨1, 0⟩ (by decide), start, begins, between,
    placed, first, second, once none⟩

end LocatedHtml
