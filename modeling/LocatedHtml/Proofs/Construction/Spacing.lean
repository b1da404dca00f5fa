import LocatedHtml.Proofs.Construction.Deliveries

/-!
The elements of a construction take room in the source one behind the other: what an element holds lies
behind its start tag, and before its end tag if it has one, and what comes next lies behind all of that.
The open elements hold everything that has come since their start tags.
-/

namespace LocatedHtml

/-- The trees lie in the source between two offsets, in order. A comment is only known to start there. -/
inductive Laid : Int → List HtmlTree → Int → Prop
  | nil {lo hi : Int} (le : lo ≤ hi) : Laid lo [] hi
  | leaf {lo mid hi : Int} {v : Node} {extent : Extent} {ts : List HtmlTree}
      (located : v.location = some (.plain extent)) (starts : lo ≤ extent.start)
      (before : extent.start < mid) (ends : v.content.isComment = false → extent.stop ≤ mid)
      (more : Laid mid ts hi) : Laid lo (.node v [] :: ts) hi
  | element {lo inside mid hi : Int} {v : Node} {cs ts : List HtmlTree} {startTag : Extent}
      {endTag? : Option Extent} {given : Option (OrderedMap Extent)}
      (located : v.location = some (.element startTag endTag? given)) (starts : lo ≤ startTag.start)
      (tag : startTag.start < startTag.stop) (inner : Laid startTag.stop cs inside)
      (within : inside ≤ mid)
      (ended : ∀ endTag ∈ endTag?, inside ≤ endTag.start ∧ endTag.start < endTag.stop ∧
        endTag.stop ≤ mid)
      (more : Laid mid ts hi) : Laid lo (.node v cs :: ts) hi

namespace Laid

variable {lo mid hi : Int} {ts us : List HtmlTree}

theorem le (laid : Laid lo ts hi) : lo ≤ hi := by
  induction laid with
  | nil le => exact le
  | leaf _ starts before _ _ ih => omega
  | element _ starts tag _ within _ _ inner more => omega

theorem mono (laid : Laid lo ts mid) (bound : mid ≤ hi) : Laid lo ts hi := by
  induction laid with
  | nil le => exact .nil (by omega)
  | leaf located starts before ends _ ih => exact .leaf located starts before ends (ih bound)
  | element located starts tag inner within ended _ _ ih =>
    exact .element located starts tag inner within ended (ih bound)

theorem lower (bound : lo ≤ mid) (laid : Laid mid ts hi) : Laid lo ts hi := by
  cases laid with
  | nil le => exact .nil (by omega)
  | leaf located starts before ends more => exact .leaf located (by omega) before ends more
  | element located starts tag inner within ended more =>
    exact .element located (by omega) tag inner within ended more

theorem append (laid : Laid lo ts mid) (more : Laid mid us hi) : Laid lo (ts ++ us) hi := by
  induction laid with
  | nil le => exact .lower le more
  | leaf located starts before ends _ ih => exact .leaf located starts before ends (ih more)
  | element located starts tag inner within ended _ _ ih =>
    exact .element located starts tag inner within ended (ih more)

end Laid

/-- Open elements, innermost first, lie in the source from an offset on: each starts behind what the one
around it holds, and the innermost one holds everything up to a second offset. -/
def Standing (lo : Int) : List OpenElement → Int → Prop
  | [], hi => lo ≤ hi
  | e :: outer, hi => ∃ mid, Standing lo outer mid ∧
      ∃ startTag given, e.location = .element startTag none given ∧ mid ≤ startTag.start ∧
        startTag.start < startTag.stop ∧ Laid startTag.stop e.children hi

theorem Standing.mono {lo mid hi : Int} {opened : List OpenElement} (standing : Standing lo opened mid)
    (bound : mid ≤ hi) : Standing lo opened hi := by
  cases opened with
  | nil => exact Int.le_trans standing bound
  | cons e outer =>
    obtain ⟨around, outer_, startTag, given, location, starts, tag, inner⟩ := standing
    exact ⟨around, outer_, startTag, given, location, starts, tag, inner.mono bound⟩

namespace Construction

/-- The content of head and body and the open elements lie in the source up to an offset. -/
structure Spaced (s : Construction) (hi : Int) : Prop where
  early : s.stage.rank < Stage.inBody.rank → s.inBody = []
  laid : ∃ mid, Laid 0 (s.inHead ++ s.inBody) mid ∧ Standing mid s.opened hi

variable {s r : Construction} {x : Lexeme} {xs : List Lexeme} {mid hi : Int}

namespace Spaced

theorem initial : Spaced {} 0 where
  early _ := rfl
  laid := ⟨0, .nil (Int.le_refl 0), Int.le_refl 0⟩

theorem mono (spaced : s.Spaced mid) (bound : mid ≤ hi) : s.Spaced hi := by
  obtain ⟨early, lo, laid, standing⟩ := spaced
  exact ⟨early, lo, laid, standing.mono bound⟩

/-- What is put behind everything else lies behind it in the source. -/
theorem append (spaced : s.Spaced mid) {t : HtmlTree} (next : Laid mid [t] hi) : (s.append t).Spaced hi := by
  obtain ⟨early, lo, laid, standing⟩ := spaced
  cases inside : s.opened with
  | nil =>
    rw [inside] at standing
    have room : mid ≤ hi := next.le
    have start : lo ≤ mid := standing
    have settled := append_opened inside t
    have head := content_append inside t .inHead
    have body := content_append inside t .inBody
    simp only [content] at head body
    refine ⟨?_, ?_⟩
    · rw [append_stage]
      intro before
      rw [body, if_neg (by rintro here; rw [← here] at before; omega)]
      exact early before
    · rw [settled, head, body]
      -- While content is put in the head the body is empty, so that content is last here too.
      by_cases inHead : Stage.inHead = s.stage
      · have nothing := early (by rw [← inHead]; decide)
        rw [nothing, List.append_nil] at laid
        refine ⟨hi, ?_, Int.le_refl hi⟩
        simpa [← inHead, nothing] using laid.append (.lower start next)
      · by_cases inBody : Stage.inBody = s.stage
        · refine ⟨hi, ?_, Int.le_refl hi⟩
          simpa [← inBody, ← List.append_assoc] using laid.append (.lower start next)
        · refine ⟨lo, ?_, Int.le_trans start room⟩
          simpa [inHead, inBody] using laid
  | cons e outer =>
    rw [inside] at standing
    obtain ⟨around, outer_, startTag, given, location, starts, tag, inner⟩ := standing
    rw [append_inside inside]
    exact ⟨early, lo, laid, around, outer_, startTag, given, location, starts, tag, inner.append next⟩

/-- An element that ends takes the room up to its end tag, or else up to where it ends. -/
theorem ending (spaced : s.Spaced mid) {e : OpenElement} {outer : List OpenElement}
    (inside : s.opened = e :: outer) {endTag : Extent} (starts : mid ≤ endTag.start)
    (tag : endTag.start < endTag.stop) (ends : endTag.stop ≤ hi) :
    (Construction.append { s with opened := outer }
      { e with location := e.location.withEndTag endTag }.toTree).Spaced hi := by
  obtain ⟨early, lo, laid, standing⟩ := spaced
  rw [inside] at standing
  obtain ⟨around, outer_, startTag, given, location, behind, start, inner⟩ := standing
  have dropped : Spaced { s with opened := outer } around := ⟨early, lo, laid, outer_⟩
  apply dropped.append
  have located : (e.location.withEndTag endTag) = .element startTag (some endTag) given := by
    rw [location]
    rfl
  refine .element (congrArg some located) behind start inner (by omega) ?_ (.nil (Int.le_refl hi))
  rintro _ ⟨⟩
  exact ⟨starts, tag, ends⟩

theorem outward (spaced : s.Spaced hi) {e : OpenElement} {outer : List OpenElement}
    (inside : s.opened = e :: outer) :
    (Construction.append { s with opened := outer } e.toTree).Spaced hi := by
  obtain ⟨early, lo, laid, standing⟩ := spaced
  rw [inside] at standing
  obtain ⟨around, outer_, startTag, given, location, behind, start, inner⟩ := standing
  have dropped : Spaced { s with opened := outer } around := ⟨early, lo, laid, outer_⟩
  apply dropped.append
  refine .element (congrArg some location) behind start inner (Int.le_refl hi) ?_ (.nil (Int.le_refl hi))
  rintro _ ⟨⟩

theorem opening (spaced : s.Spaced mid) {name : String} {attributes : OrderedMap Text} {startTag : Extent}
    {given : Option (OrderedMap Extent)} (starts : mid ≤ startTag.start)
    (tag : startTag.start < startTag.stop) (ends : startTag.stop ≤ hi) :
    Spaced { s with opened := ⟨name, attributes, .element startTag none given, []⟩ :: s.opened } hi := by
  obtain ⟨early, lo, laid, standing⟩ := spaced
  exact ⟨early, lo, laid, mid, standing, startTag, given, rfl, starts, tag, .nil ends⟩

/-- Whatever else changes, the content of head and body and the open elements stay where they are. -/
theorem enter (spaced : s.Spaced hi) {stage : Stage} {html head : Shell} {body : Option Shell}
    (advance : s.Advance stage body) :
    Spaced { s with stage := stage, html := html, head := head, body := body } hi := by
  refine ⟨?_, spaced.laid⟩
  intro before
  have before : stage.rank < Stage.inBody.rank := before
  rcases advance.forward with forward | rfl
  · exact spaced.early (by omega)
  · exact absurd before (Nat.lt_irrefl _)

theorem settles {straight : Prop} (settles : Settles straight s r) (spaced : s.Spaced hi) :
    r.Spaced hi := by
  induction settles with
  | done => exact spaced
  | outward inside _ ih => exact ih (spaced.outward inside)
  | @enter s r stage body advance _ _ _ _ ih =>
    have entered : Spaced { s with stage := stage, body := body } hi := spaced.enter advance
    exact ih entered

theorem endText (spaced : s.Spaced (reach s.openText xs)) (openText : ∀ o, s.openText = some o → o.Gathered xs)
    {stop : Nat} (bound : (taken xs).length ≤ stop) : (s.endText stop).Spaced stop := by
  cases opened : s.openText with
  | none =>
    rw [opened] at spaced
    rw [endText_of_none opened]
    exact spaced.mono (Int.ofNat_le.2 bound)
  | some o =>
    have starts := (openText o opened).starts
    rw [opened] at spaced
    have closed : Spaced { s with openText := none } o.start.offset := ⟨spaced.early, spaced.laid⟩
    have before : (o.start.offset : Int) < stop := by omega
    simp only [Construction.endText, opened]
    apply closed.append
    exact .leaf rfl (Int.le_refl _) before (fun _ => Int.le_refl _) (.nil (Int.le_refl _))

theorem add {straight : Prop} (spaced : s.Spaced (reach s.openText xs))
    (openText : ∀ o, s.openText = some o → o.Gathered xs) (behind : x.Behind xs)
    (adds : Adds straight x s r) : r.Spaced (reach r.openText (xs ++ [x])) := by
  have start := behind.offset
  have stop := behind.stop_offset
  have longer := behind.length_lt
  have tag : (x.start.offset : Int) < x.stop.offset := by omega
  have ended := spaced.endText openText (Nat.le_of_eq start.symm)
  have closed := endText_openText s x.start.offset
  have next {q : Construction} (none : q.openText = none) (spaced : q.Spaced x.stop.offset) :
      q.Spaced (reach q.openText (xs ++ [x])) := by
    rw [none, reach, ← stop]
    exact spaced
  have settled {q : Construction} (settles : Settles straight (s.endText x.start.offset) q) :
      q.Spaced x.start.offset ∧ q.openText = none :=
    ⟨ended.settles settles, settles.openText.trans closed⟩
  cases adds with
  | marked html body quiet same tags =>
    have wider : reach s.openText xs ≤ reach s.openText (xs ++ [x]) := by
      unfold reach
      split
      · exact Int.le_refl _
      · omega
    have kept := spaced.mono wider
    exact ⟨kept.early, kept.laid⟩
  | extended token opened =>
    rw [opened] at spaced
    exact ⟨spaced.early, spaced.laid⟩
  | begun token opened =>
    rw [opened, reach, ← start] at spaced
    exact ⟨spaced.early, spaced.laid⟩
  | @resumed r body value token settles advance same forward =>
    have entered : Spaced { r with stage := .inBody, body := body } x.start.offset :=
      (settled settles).1.enter advance
    exact ⟨entered.early, entered.laid⟩
  | @remark v brings =>
    apply next (by rw [append_openText, closed])
    apply ended.append
    obtain ⟨content, remark, rfl⟩ := Option.map_eq_some_iff.1 brings
    refine .leaf rfl (Int.le_refl _) tag ?_ (.nil (Int.le_refl _))
    intro other
    cases token : x.token <;> simp [token, Token.remark?] at remark <;> subst remark
    case comment | instruction => cases other
    case declaration => simp [Extent.ofMark, Lexeme.remarkStop, token]
  | single token settles staged =>
    obtain ⟨spaced, none⟩ := settled settles
    apply next (by rw [append_openText, none])
    apply spaced.append
    refine .element rfl (Int.le_refl _) tag (.nil (Int.le_refl _)) (Int.le_refl _) ?_ (.nil (Int.le_refl _))
    rintro _ ⟨⟩
  | opening token settles staged =>
    obtain ⟨spaced, none⟩ := settled settles
    exact next none (spaced.opening (Int.le_refl _) tag (Int.le_refl _))
  | ending token settles inside =>
    obtain ⟨spaced, none⟩ := settled settles
    apply next (by rw [append_openText]; exact none)
    exact spaced.ending inside (Int.le_refl _) tag (Int.le_refl _)
  | entering token settles advance forward bound tags =>
    obtain ⟨spaced, none⟩ := settled settles
    exact next none ((spaced.enter advance).mono (Int.le_of_lt tag))
  | leaving token settles advance forward late tags =>
    obtain ⟨spaced, none⟩ := settled settles
    exact next none ((spaced.enter advance).mono (Int.le_of_lt tag))

end Spaced

/-- In the end everything in head and body lies in the source. -/
theorem laid_run {t : Text} (chained : Chained .origin t xs) {stop : Nat}
    (bound : (taken xs).length ≤ stop) :
    Laid 0 ((((xs.foldl Construction.add {}).endText stop).closeAll.content .inHead) ++
      (((xs.foldl Construction.add {}).endText stop).closeAll.content .inBody)) stop := by
  obtain ⟨g, delivered, spaced⟩ := delivered_induction chained (fun never : False => never.elim)
    (motive := fun ys s => s.Spaced (reach s.openText ys)) .initial
    fun _ _ _ _ _ delivered behind adds spaced => spaced.add delivered.openText behind adds
  have ended := spaced.endText delivered.openText bound
  have closed := ended.settles (@Settles.closeAll False _)
  obtain ⟨_, mid, laid, standing⟩ := closed
  rw [closeAll_opened] at standing
  exact laid.mono standing

end Construction

end LocatedHtml
