import LocatedHtml.Proofs.Construction.OpenPath
import LocatedHtml.Proofs.Construction.Steps
import LocatedHtml.Proofs.DocumentShape

/-!
The attributes of repeated start tags. The `html` of a document has the attributes of all start tags of
`html`, the first value of a name counting. The same is true of the body, but for start tags that come
when `html` has ended without a body: there is nothing yet that they could add their attributes to.
-/

namespace LocatedHtml

/-- The attributes that a token has for the element of a name. -/
def Token.attributesOf (name : String) : Token → List (String × Text)
  | .startTag tag attributes _ => if tag = name then attributes else []
  | _ => []

theorem Token.attributesOf_eq_nil {name : String} {token : Token}
    (other : ∀ attributes selfClosing, token ≠ .startTag name attributes selfClosing) :
    token.attributesOf name = [] := by
  cases token with
  | startTag tag attributes selfClosing =>
    apply if_neg
    rintro rfl
    exact other attributes selfClosing rfl
  | _ => rfl

namespace Construction

variable {s : Construction} {x : Lexeme} {name : String} {attributes : OrderedMap Text}

/-- The body with what it has so far, which is nothing before it is there. -/
def bodyShell (s : Construction) : Shell := s.body.getD {}

/-- What a start tag of another name, or any other lexeme, leaves as it is. -/
theorem Shells.add_other (other : ∀ written selfClosing, x.token ≠ .startTag name written selfClosing)
    (shells : Shells (fun n shell => n = name → shell.attributes = attributes) s.frame) :
    Shells (fun n shell => n = name → shell.attributes = attributes) (s.add x).frame := by
  apply shells.add
  refine ⟨?_, ?_, fun _ _ _ same => same⟩
  · rintro n shell written selfClosing token _ _ rfl
    exact absurd token (other written selfClosing)
  · rintro n written selfClosing token rfl
    exact absurd token (other written selfClosing)

theorem add_html_other (other : ∀ written selfClosing, x.token ≠ .startTag "html" written selfClosing) :
    (s.add x).html.attributes = s.html.attributes :=
  (Shells.add_other other ⟨fun _ => rfl, by simp, by simp⟩).html rfl

theorem add_body_other (other : ∀ written selfClosing, x.token ≠ .startTag "body" written selfClosing) :
    (s.add x).bodyShell.attributes = s.bodyShell.attributes :=
  (Shells.add_other other ⟨by simp, by simp, fun _ => rfl⟩).body rfl

theorem stage_ne_beforeHtml_stepwise : Stepwise fun s => s.stage ≠ .beforeHtml where
  append s t later := by rwa [append_stage]
  opened s opened later := later
  openText s openText later := later
  shells s html head body same later := later
  advance s stage body advance later := by
    rintro rfl
    rcases advance.forward with forward | inBody
    · exact Nat.not_lt_zero _ forward
    · cases inBody

/-- A start tag of `html` adds what is new, whatever has come before. -/
theorem add_html (fresh : s.stage = .beforeHtml → s.html.attributes = []) :
    (s.add x).html.attributes =
        OrderedMap.insertAllNew s.html.attributes (x.token.attributesOf "html") ∧
      ((s.add x).stage = .beforeHtml → (s.add x).html.attributes = []) := by
  by_cases tag : ∃ written selfClosing, x.token = .startTag "html" written selfClosing
  · obtain ⟨written, selfClosing, token⟩ := tag
    have added : s.add x = s.addHtml x.start.offset written (startTagLocation x) := by
      simp only [Construction.add, token, addStartTag]
    have own : x.token.attributesOf "html" = written := by simp [token, Token.attributesOf]
    rw [added, own]
    unfold addHtml
    split
    · next here =>
      rw [fresh here]
      exact ⟨rfl, by simp⟩
    · next later => exact ⟨rfl, fun here => absurd here later⟩
  · simp only [not_exists] at tag
    rw [add_html_other tag, Token.attributesOf_eq_nil tag]
    refine ⟨rfl, fun here => fresh ?_⟩
    by_contra later
    exact stage_ne_beforeHtml_stepwise.add x later here

/-- `html` has ended without a body, so a start tag of the body is not heeded. -/
def losesBody (s : Construction) : Bool := s.stage == .afterHtml && s.body.isNone

/-- The attributes that a lexeme brings to the body. -/
def bodyAttributes (s : Construction) (x : Lexeme) : List (String × Text) :=
  if s.losesBody then [] else x.token.attributesOf "body"

/-- The attributes that lexemes bring to the body, one after the other. -/
def allBodyAttributes (s : Construction) : List Lexeme → List (String × Text)
  | [] => []
  | x :: xs => s.bodyAttributes x ++ allBodyAttributes (s.add x) xs

theorem add_body (ordered : s.Ordered) : (s.add x).bodyShell.attributes =
    OrderedMap.insertAllNew s.bodyShell.attributes (s.bodyAttributes x) := by
  by_cases tag : ∃ written selfClosing, x.token = .startTag "body" written selfClosing
  · obtain ⟨written, selfClosing, token⟩ := tag
    have added : s.add x = s.addBody x.start.offset written (startTagLocation x) := by
      simp only [Construction.add, token, addStartTag]
    have own : x.token.attributesOf "body" = written := by simp [token, Token.attributesOf]
    have early (bodiless : s.body = none) (here : s.stage ≠ .afterHtml) :
        OrderedMap.insertAllNew [] written =
          OrderedMap.insertAllNew s.bodyShell.attributes (s.bodyAttributes x) := by
      have kept : s.losesBody = false := by simp [losesBody, here]
      rw [bodyAttributes, kept, own, bodyShell, bodiless]
      rfl
    rw [added]
    unfold addBody
    split
    case h_5 beforeHtml beforeHead inHead afterHead =>
      cases present : s.body with
      | some shell =>
        have kept : s.losesBody = false := by simp [losesBody, present]
        rw [bodyAttributes, kept, own, bodyShell, bodyShell, present]
        rfl
      | none =>
        -- An open or ended body is there, so only the end of the document is left.
        have lost : s.losesBody = true := by
          have there := ordered.body
          rw [present] at there
          cases here : s.stage <;> simp_all [losesBody]
        rw [bodyAttributes, lost, bodyShell, bodyShell, present]
        rfl
    all_goals
      next here => exact early (ordered.bodiless (by simp [here, Stage.rank])) (by simp [here])
  · simp only [not_exists] at tag
    have nothing : s.bodyAttributes x = [] := by
      rw [bodyAttributes, Token.attributesOf_eq_nil tag, ite_self]
    rw [add_body_other tag, nothing]
    rfl

theorem foldl_html {xs : List Lexeme} (fresh : s.stage = .beforeHtml → s.html.attributes = []) :
    (xs.foldl Construction.add s).html.attributes =
      OrderedMap.insertAllNew s.html.attributes (xs.flatMap (·.token.attributesOf "html")) := by
  induction xs generalizing s with
  | nil => rfl
  | cons x xs ih =>
    obtain ⟨added, fresh⟩ := add_html (x := x) fresh
    rw [List.foldl_cons, ih fresh, added, List.flatMap_cons, OrderedMap.insertAllNew_append]

theorem foldl_body {xs : List Lexeme} (ordered : s.Ordered) :
    (xs.foldl Construction.add s).bodyShell.attributes =
      OrderedMap.insertAllNew s.bodyShell.attributes (s.allBodyAttributes xs) := by
  induction xs generalizing s with
  | nil => rfl
  | cons x xs ih =>
    rw [List.foldl_cons, ih (ordered_stepwise.add x ordered), add_body ordered, allBodyAttributes,
      OrderedMap.insertAllNew_append]

theorem addText_afterHtml {start : Mark} {value : Text} (behind : (s.addText start value).stage = .afterHtml) :
    s.stage = .afterHtml := by
  unfold addText at behind
  split at behind
  · have here := behind.symm.trans (openBody_stage _)
    cases here
  · split at behind <;> exact behind

theorem addStartTag_afterHtml {name : String} {written : List (String × Text)} {selfClosing : Bool}
    (behind : (s.addStartTag x name written selfClosing).stage = .afterHtml) : s.stage = .afterHtml := by
  unfold addStartTag at behind
  split at behind
  · unfold addHtml at behind
    split at behind
    · cases behind
    · exact behind
  · unfold addHead at behind
    split at behind
    · cases behind
    · cases behind
    · exact behind
  · unfold addBody at behind
    split at behind
    all_goals first
      | exact behind
      | cases behind
  · have placed : (s.placeFor x.start.offset name).stage = .afterHtml := by
      rw [addElement_eq] at behind
      split at behind
      · rwa [append_stage] at behind
      · exact behind
    have settles : Settles False (s.endText x.start.offset) (s.placeFor x.start.offset name) :=
      .placeFor _ _ False.elim
    have same := settles.late (by rw [placed]; decide)
    rwa [placed, endText_stage, eq_comm] at same

theorem addEndTag_afterHtml {name : String} (other : name ≠ "html")
    (behind : (s.addEndTag x name).stage = .afterHtml) : s.stage = .afterHtml := by
  unfold addEndTag at behind
  dsimp only at behind
  split at behind
  · exact behind
  · exact behind
  · exact absurd rfl other
  · cases behind
  · exact behind
  · cases behind
  · exact behind
  · rcases endElement_cases s x.start.offset _ (.ofMark x.start x.stop.offset) with
      ignored | ⟨depth, e, outer, _, _, _, ended⟩
    · rwa [ignored] at behind
    · rw [ended, append_stage] at behind
      exact (endText_stage s _).symm.trans ((close_stage _ depth).symm.trans behind)

/-- Only an end tag of `html` leads behind `html`. -/
theorem add_afterHtml (behind : (s.add x).stage = .afterHtml) :
    s.stage = .afterHtml ∨ x.token = .endTag "html" := by
  by_cases ends : x.token = .endTag "html"
  · exact .inr ends
  left
  unfold Construction.add at behind
  split at behind
  · exact addText_afterHtml behind
  · exact addStartTag_afterHtml behind
  · next token => exact addEndTag_afterHtml (fun same => ends (same ▸ token)) behind
  all_goals first
    | exact behind
    | exact (endText_stage s _).symm.trans ((append_stage _ _).symm.trans behind)

/-- As long as `html` does not end, all start tags of the body count. -/
theorem allBodyAttributes_eq {xs : List Lexeme} (before : s.stage ≠ .afterHtml)
    (open_ : ∀ x ∈ xs, x.token ≠ .endTag "html") :
    s.allBodyAttributes xs = xs.flatMap (·.token.attributesOf "body") := by
  induction xs generalizing s with
  | nil => rfl
  | cons x xs ih =>
    obtain ⟨first, more⟩ := List.forall_mem_cons.1 open_
    have kept : s.losesBody = false := by simp [losesBody, before]
    rw [allBodyAttributes, bodyAttributes, kept, List.flatMap_cons, ih _ more]
    · rfl
    · intro behind
      exact (add_afterHtml behind).elim before first

/-- The structural elements of a document have the attributes that the construction has for them. -/
theorem Sound.toTree_attributes (sound : s.Sound Placed) (structural : name ∈ structuralNames)
    (html : name = "html" → s.html.attributes = attributes)
    (head : name = "head" → s.head.attributes = attributes)
    (body : name = "body" → s.bodyShell.attributes = attributes) :
    ∀ t ∈ s.toTree.subtrees, ∀ found, t.value.content = .element name found → found = attributes := by
  have ordinary : s.Sound fun _ t => ∀ found, t.value.content = .element name found → found = attributes := by
    refine sound.imp fun above t placed found content => absurd structural ?_
    exact (placed.ordinary (by rw [content]; rfl)).ordinary
  have all := ordinary.toTree (fun cs found => by rintro ⟨⟩) (fun cs found => by rintro ⟨⟩; exact html rfl)
    (fun cs found => by rintro ⟨⟩; exact head rfl) fun cs found => by rintro ⟨⟩; exact body rfl
  intro t member
  obtain ⟨_, holds⟩ := all.at_subtree member
  exact holds

end Construction

variable {source : Text} {tree : HtmlTree}

/-- `html` has the attributes of all its start tags, the first value of a name counting, and so has the
body, but for start tags that come when `html` has ended without a body. While `html` has not ended there
are none of these. -/
theorem parseHtml_mergedAttributes (parsed : parseHtml source = .ok tree) :
    ∃ xs, lexemes source = .ok xs ∧
      (∀ t ∈ tree.subtrees, ∀ attributes, t.value.content = .element "html" attributes →
        attributes = OrderedMap.insertAllNew [] (xs.flatMap (·.token.attributesOf "html"))) ∧
      (∀ t ∈ tree.subtrees, ∀ attributes, t.value.content = .element "body" attributes →
        attributes = OrderedMap.insertAllNew [] (Construction.allBodyAttributes {} xs)) ∧
      ((∀ x ∈ xs, x.token ≠ .endTag "html") →
        Construction.allBodyAttributes {} xs = xs.flatMap (·.token.attributesOf "body")) := by
  obtain ⟨xs, cut, rfl⟩ := parseHtml_eq_toTree parsed
  have sound := (Construction.WellPlaced.of_lexemes xs).endText source.length
  refine ⟨xs, cut, ?_, ?_, Construction.allBodyAttributes_eq (by simp)⟩
  · refine sound.toTree_attributes (by decide) (fun _ => ?_) (by simp) (by simp)
    rw [Construction.endText_html, Construction.foldl_html fun _ => rfl]
  · refine sound.toTree_attributes (by decide) (by simp) (by simp) fun _ => ?_
    rw [Construction.bodyShell, Construction.endText_body]
    exact Construction.foldl_body Construction.ordered_initial

theorem parseHtml_mergedAttributes_repeated :
    ∃ tree, parseHtml "<html a=1><body b=2></html><html c=3 a=9><body d=4 b=8>".toList = .ok tree ∧
      (∀ t ∈ tree.subtrees, ∀ attributes, t.value.content = .element "html" attributes →
        attributes = [("a", ['1']), ("c", ['3'])]) ∧
      ∀ t ∈ tree.subtrees, ∀ attributes, t.value.content = .element "body" attributes →
        attributes = [("b", ['2']), ("d", ['4'])] := by
  have known : (parseHtml "<html a=1><body b=2></html><html c=3 a=9><body d=4 b=8>".toList).toOption.map
      Tree.elementNames = some ["html", "head", "body"] := by decide +kernel
  obtain ⟨tree, parsed, _⟩ := parseHtml_of_map known
  obtain ⟨xs, cut, html, body, _⟩ := parseHtml_mergedAttributes parsed
  have merged : (lexemes "<html a=1><body b=2></html><html c=3 a=9><body d=4 b=8>".toList).toOption.map
      (fun xs => (OrderedMap.insertAllNew [] (xs.flatMap (·.token.attributesOf "html")),
        OrderedMap.insertAllNew [] (Construction.allBodyAttributes {} xs))) =
      some ([("a", ['1']), ("c", ['3'])], [("b", ['2']), ("d", ['4'])]) := by decide +kernel
  rw [cut] at merged
  simp only [Except.toOption, Option.map_some, Option.some.injEq, Prod.mk.injEq] at merged
  rw [merged.1] at html
  rw [merged.2] at body
  exact ⟨tree, parsed, html, body⟩

/-- A start tag of the body that comes when `html` has ended without a body is lost. -/
theorem bodyAttributes_lost_behind_html :
    ∃ xs tree t, lexemes "<html></html><body a>".toList = .ok xs ∧
      parseHtml "<html></html><body a>".toList = .ok tree ∧ t ∈ tree.subtrees ∧
      t.value.content = .element "body" [] ∧
      OrderedMap.insertAllNew [] (xs.flatMap (·.token.attributesOf "body")) = [("a", [])] := by
  have known : (parseHtml "<html></html><body a>".toList).toOption.map (fun tree =>
      (tree.subtrees[3]?).map fun t => (t.value.content.elementName?, t.value.content.attributes)) =
      some (some (some "body", [])) := by decide +kernel
  obtain ⟨tree, parsed, seen⟩ := parseHtml_of_map known
  obtain ⟨t, place, same⟩ := Option.map_eq_some_iff.1 seen
  obtain ⟨named, bare⟩ := Prod.mk.inj same
  have content : t.value.content = .element "body" [] := by
    cases content : t.value.content <;> simp_all [Content.elementName?, Content.attributes]
  have merged : (lexemes "<html></html><body a>".toList).toOption.map (fun xs =>
      OrderedMap.insertAllNew [] (xs.flatMap (·.token.attributesOf "body"))) = some [("a", [])] := by
    decide +kernel
  obtain ⟨xs, cut, _⟩ := parseHtml_eq_toTree parsed
  rw [cut] at merged
  exact ⟨xs, tree, t, cut, parsed, List.mem_of_getElem? place, content, Option.some.inj merged⟩

end LocatedHtml
