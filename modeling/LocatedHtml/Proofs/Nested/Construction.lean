import LocatedHtml.Proofs.Construction.Finished
import LocatedHtml.Proofs.Nested.Spans

/-!
Reading a text that starts somewhere in another one. Its lexemes are the same with places told in the
outer text, and what is built from them is the same behind whatever the outer text has put in front.
-/

namespace LocatedHtml

/-- The lexeme with its place told in the outer text. -/
def Lexeme.inside (base : Mark) (x : Lexeme) : Lexeme := { x with start := base.inside x.start }

theorem Lexeme.inside_stop (base : Mark) (x : Lexeme) : (x.inside base).stop = base.inside x.stop := by
  rw [stop, stop, Mark.inside_after]
  rfl

/-- A text is cut in the same way wherever it starts. -/
theorem lexemesFrom_inside (base : Mark) (inside : Option String) (start : Mark) (t : Text) :
    lexemesFrom inside (base.inside start) t =
      (lexemesFrom inside start t).map (List.map (Lexeme.inside base)) := by
  fun_induction lexemesFrom inside start t with
  | case1 => rw [lexemesFrom]; rfl
  | case2 inside start c rest ih =>
    rw [lexemesFrom]
    cases scanLexeme inside c rest with
    | error e => rfl
    | ok result =>
      cases result with
      | none => rfl
      | some found =>
        dsimp only [bind, Except.bind]
        rw [← Mark.inside_after, ih found]
        cases lexemesFrom found.inside (start.after (c :: rest.take found.extra))
            (rest.drop found.extra) <;> rfl

theorem OrderedMap.map_insertAllNew {α β : Type} (f : α → β) (m : OrderedMap α)
    (entries : List (String × α)) :
    (m.insertAllNew entries).map (Prod.map id f) =
      OrderedMap.insertAllNew (m.map (Prod.map id f)) (entries.map (Prod.map id f)) := by
  have keys (m : OrderedMap α) : OrderedMap.keys (m.map (Prod.map id f)) = m.keys := by
    rw [OrderedMap.keys, OrderedMap.keys, List.map_map]
    rfl
  have step (m : OrderedMap α) (entry : String × α) :
      OrderedMap.insertNew (m.map (Prod.map id f)) entry.1 (f entry.2) =
        (m.insertNew entry.1 entry.2).map (Prod.map id f) := by
    unfold OrderedMap.insertNew OrderedMap.has
    rw [keys]
    split
    · rfl
    · rw [List.map_append]
      rfl
  rw [OrderedMap.insertAllNew, OrderedMap.insertAllNew, List.foldl_map]
  exact (List.foldl_hom _ fun m entry => step m entry).symm

theorem attributePieces_inside (base m : Mark) (t : Text) :
    attributePieces (base.inside m) t =
      (attributePieces m t).map (Prod.map id (Extent.inside base)) := by
  fun_induction attributePieces m t with
  | case1 => rw [attributePieces.eq_def, List.map_nil]
  | case2 m c rest starts nameRest used ih =>
    rw [attributePieces.eq_def]
    dsimp only
    rw [if_pos starts, ← Mark.inside_after, ih, List.map_cons, Prod.map, Extent.inside_ofMark]
    rw [Mark.inside, Nat.add_assoc base.offset, Nat.add_assoc base.offset]
    rfl
  | case3 m c rest other ih =>
    rw [attributePieces.eq_def]
    dsimp only
    rw [if_neg other, ← Mark.inside_after, ih]

theorem attributeExtents_inside (base m : Mark) (tag : Text) :
    attributeExtents (base.inside m) tag =
      (attributeExtents m tag).map (Prod.map id (Extent.inside base)) := by
  unfold attributeExtents
  dsimp only
  rw [OrderedMap.map_insertAllNew, ← Mark.inside_after, attributePieces_inside, List.map_map, List.map_map]
  rfl

/-- The structural element with its places told in the outer text. -/
def Shell.inside (base : Mark) (s : Shell) : Shell :=
  { s with location := s.location.map (Location.inside base) }

theorem Shell.inside_close (base : Mark) (s : Shell) (endTag : Extent) :
    (s.close endTag).inside base = (s.inside base).close (endTag.inside base) := by
  unfold close inside
  dsimp only
  rw [Option.map_map, Option.map_map]
  congr 2
  funext location
  exact location.inside_withEndTag base endTag

theorem Shell.inside_toTree (base : Mark) (s : Shell) (name : String) (cs : List HtmlTree) :
    Tree.inside base (s.toTree name cs) = (s.inside base).toTree name (cs.map (Tree.inside base)) := by
  rw [toTree, Tree.inside_node]
  rfl

/-- The open element with its places told in the outer text. -/
def OpenElement.inside (base : Mark) (e : OpenElement) : OpenElement :=
  { e with location := e.location.inside base, children := e.children.map (Tree.inside base) }

theorem OpenElement.inside_toTree (base : Mark) (e : OpenElement) :
    Tree.inside base e.toTree = (e.inside base).toTree := by
  rw [toTree, Tree.inside_node]
  rfl

/-- The open text with its start told in the outer text. -/
def OpenText.inside (base : Mark) (o : OpenText) : OpenText := { o with start := base.inside o.start }

namespace Construction

theorem startTagLocation_inside (base : Mark) (x : Lexeme) :
    startTagLocation (x.inside base) = (startTagLocation x).inside base := by
  have extents : attributeExtents (x.inside base).start (x.inside base).raw =
      (attributeExtents x.start x.raw).map (Prod.map id (Extent.inside base)) :=
    attributeExtents_inside base x.start x.raw
  rw [startTagLocation, startTagLocation, extents, Lexeme.inside_stop, Location.inside, Extent.ofMark,
    Extent.inside, Extent.insideRecorded_eq]
  simp only [Extent.ofMark, Mark.inside, Lexeme.inside, Int.natCast_add, Int.add_comm, Option.map_some,
    Option.map_none]

/-- A construction behind nodes that the outer text has put in front, with its places told there. -/
def inside (base : Mark) (front : List HtmlTree) (s : Construction) : Construction where
  stage := s.stage
  html := s.html.inside base
  head := s.head.inside base
  body := s.body.map (Shell.inside base)
  prolog := front ++ s.prolog.map (Tree.inside base)
  beforeHead := s.beforeHead.map (Tree.inside base)
  inHead := s.inHead.map (Tree.inside base)
  afterHead := s.afterHead.map (Tree.inside base)
  inBody := s.inBody.map (Tree.inside base)
  afterBody := s.afterBody.map (Tree.inside base)
  epilog := s.epilog.map (Tree.inside base)
  opened := s.opened.map (OpenElement.inside base)
  openText := s.openText.map (OpenText.inside base)

variable (base : Mark) (front : List HtmlTree) (s : Construction)

theorem inside_append (t : HtmlTree) :
    (s.append t).inside base front = (s.inside base front).append (Tree.inside base t) := by
  unfold append
  cases opened : s.opened with
  | nil =>
    have settled : (s.inside base front).opened = [] := by rw [inside, opened, List.map_nil]
    rw [settled]
    cases stage : s.stage <;>
      simp only [inside, stage, List.map_append, List.map_cons, List.map_nil, List.append_assoc]
  | cons e outer =>
    have open_ : (s.inside base front).opened = e.inside base :: outer.map (OpenElement.inside base) := by
      rw [inside, opened, List.map_cons]
    rw [open_]
    simp only [inside, OpenElement.inside, List.map_append, List.map_cons, List.map_nil]

theorem inside_close (n : Nat) : (s.close n).inside base front = (s.inside base front).close n := by
  induction n generalizing s with
  | zero => rfl
  | succ n ih =>
    unfold close
    cases opened : s.opened with
    | nil =>
      have settled : (s.inside base front).opened = [] := by rw [inside, opened, List.map_nil]
      rw [settled]
    | cons e outer =>
      have open_ : (s.inside base front).opened = e.inside base :: outer.map (OpenElement.inside base) := by
        rw [inside, opened, List.map_cons]
      rw [open_]
      dsimp only
      rw [ih, inside_append, OpenElement.inside_toTree]
      rfl

theorem inside_closeAll : s.closeAll.inside base front = (s.inside base front).closeAll := by
  rw [closeAll, closeAll, inside_close]
  have length : (s.inside base front).opened.length = s.opened.length := by rw [inside, List.length_map]
  rw [length]

theorem inside_endText (stop : Nat) :
    (s.endText stop).inside base front = (s.inside base front).endText (base.offset + stop) := by
  unfold endText
  have same : (s.inside base front).openText = s.openText.map (OpenText.inside base) := rfl
  rw [same]
  cases s.openText with
  | none => rfl
  | some o =>
    dsimp only [Option.map_some]
    rw [inside_append, Tree.inside_node]
    have leaf : Node.inside base ⟨.text o.value, some (.plain (.ofMark o.start stop))⟩ =
        ⟨.text o.value, some (.plain (.ofMark (base.inside o.start) (base.offset + stop)))⟩ := by
      rw [← Extent.inside_ofMark]
      rfl
    rw [leaf]
    rfl

theorem inside_enter (stage : Stage) :
    (s.enter stage).inside base front = (s.inside base front).enter stage := by
  unfold enter
  rw [← inside_closeAll]
  rfl

theorem inside_openHead : s.openHead.inside base front = (s.inside base front).openHead := by
  unfold openHead
  have same : (s.inside base front).stage = s.stage := rfl
  rw [same]
  split <;> first | rfl | exact inside_enter base front s _

theorem inside_openBody : s.openBody.inside base front = (s.inside base front).openBody := by
  unfold openBody
  have same : (s.inside base front).stage = s.stage := rfl
  rw [same]
  split
  · rfl
  · rw [← inside_enter]
    have body : (s.inside base front).body.getD {} = (s.body.getD {}).inside base := by
      rw [inside]
      cases s.body <;> rfl
    rw [body]
    rfl

theorem inside_betweenSections : (s.inside base front).betweenSections = s.betweenSections := by
  have empty : (s.inside base front).opened.isEmpty = s.opened.isEmpty := List.isEmpty_map
  unfold betweenSections
  rw [empty]
  rfl

theorem inside_names : (s.inside base front).opened.map (·.name) = s.opened.map (·.name) := by
  rw [inside, List.map_map]
  rfl

theorem inside_closeBefore (name : String) :
    (s.closeBefore name).inside base front = (s.inside base front).closeBefore name := by
  unfold closeBefore
  refine (List.foldl_hom (inside base front) fun s rule => ?_).symm
  rw [inside_names, inside_close]

theorem inside_addText (start : Mark) (value : Text) :
    (s.addText start value).inside base front =
      (s.inside base front).addText (base.inside start) value := by
  unfold addText
  rw [inside_betweenSections]
  split
  · have same : (base.inside start).offset = base.offset + start.offset := rfl
    rw [same, ← inside_endText, ← inside_openBody]
    rfl
  · have same : (s.inside base front).openText = s.openText.map (OpenText.inside base) := rfl
    rw [same]
    cases s.openText <;> rfl

theorem inside_addLeaf (start : Mark) (stop : Nat) (content : Content) :
    (s.addLeaf start stop content).inside base front =
      (s.inside base front).addLeaf (base.inside start) (base.offset + stop) content := by
  have same : (base.inside start).offset = base.offset + start.offset := rfl
  unfold addLeaf
  rw [inside_append, inside_endText, same, Tree.inside_node, ← Extent.inside_ofMark]
  rfl

theorem inside_addHtml (offset : Nat) (attributes : List (String × Text)) (location : Location) :
    (s.addHtml offset attributes location).inside base front =
      (s.inside base front).addHtml (base.offset + offset) attributes (location.inside base) := by
  unfold addHtml
  have same : (s.inside base front).stage = s.stage := rfl
  rw [same, ← inside_endText, ← inside_enter]
  split <;> rfl

theorem inside_addHead (offset : Nat) (attributes : List (String × Text)) (location : Location) :
    (s.addHead offset attributes location).inside base front =
      (s.inside base front).addHead (base.offset + offset) attributes (location.inside base) := by
  unfold addHead
  have same : (s.inside base front).stage = s.stage := rfl
  rw [same, ← inside_endText, ← inside_enter]
  split <;> rfl

theorem inside_addBody (offset : Nat) (attributes : List (String × Text)) (location : Location) :
    (s.addBody offset attributes location).inside base front =
      (s.inside base front).addBody (base.offset + offset) attributes (location.inside base) := by
  unfold addBody
  have same : (s.inside base front).stage = s.stage := rfl
  have body : (s.inside base front).body.map (·.addAttributes attributes) =
      (s.body.map (·.addAttributes attributes)).map (Shell.inside base) := by
    rw [inside, Option.map_map, Option.map_map]
    rfl
  rw [same, ← inside_endText, ← inside_enter, body]
  split <;> rfl

theorem inside_openSection (name : String) :
    (s.openSection name).inside base front = (s.inside base front).openSection name := by
  have allows : (s.inside base front).allowsHead = s.allowsHead := rfl
  unfold openSection
  rw [inside_betweenSections, allows, ← inside_openHead, ← inside_openBody]
  split
  · split <;> rfl
  · rfl

theorem inside_placeFor (offset : Nat) (name : String) : (s.placeFor offset name).inside base front =
    (s.inside base front).placeFor (base.offset + offset) name := by
  rw [placeFor, placeFor, inside_closeBefore, inside_openSection, inside_endText]

theorem inside_addElement (offset : Nat) (e : OpenElement) (selfClosing : Bool) :
    (s.addElement offset e selfClosing).inside base front =
      (s.inside base front).addElement (base.offset + offset) (e.inside base) selfClosing := by
  have name : (e.inside base).name = e.name := rfl
  rw [addElement_eq, addElement_eq, name, ← inside_placeFor, ← OpenElement.inside_toTree]
  split
  · exact inside_append base front _ _
  · rfl

theorem inside_addStartTag (x : Lexeme) (name : String) (attributes : List (String × Text))
    (selfClosing : Bool) : (s.addStartTag x name attributes selfClosing).inside base front =
      (s.inside base front).addStartTag (x.inside base) name attributes selfClosing := by
  have offset : (x.inside base).start.offset = base.offset + x.start.offset := rfl
  unfold addStartTag
  rw [startTagLocation_inside, offset, ← inside_addHtml, ← inside_addHead, ← inside_addBody]
  have opened : OpenElement.inside base ⟨name, OrderedMap.insertAllNew [] attributes, startTagLocation x, []⟩ =
      ⟨name, OrderedMap.insertAllNew [] attributes, (startTagLocation x).inside base, []⟩ := rfl
  rw [← opened, ← inside_addElement]
  split <;> rfl

theorem inside_endElement (offset : Nat) (name : String) (endTag : Extent) :
    (s.endElement offset name endTag).inside base front =
      (s.inside base front).endElement (base.offset + offset) name (endTag.inside base) := by
  have found : (s.inside base front).opened.findIdx? (·.name == name) =
      s.opened.findIdx? (·.name == name) := by
    rw [inside, List.findIdx?_map]
    rfl
  unfold endElement
  rw [found]
  cases s.opened.findIdx? (·.name == name) with
  | none => rfl
  | some depth =>
    dsimp only
    rw [← inside_endText, ← inside_close]
    have same : (((s.endText offset).close depth).inside base front).opened =
        ((s.endText offset).close depth).opened.map (OpenElement.inside base) := rfl
    rw [same]
    cases ((s.endText offset).close depth).opened with
    | nil => rfl
    | cons e outer =>
      rw [List.map_cons]
      dsimp only
      rw [inside_append, OpenElement.inside_toTree, OpenElement.inside, OpenElement.inside]
      dsimp only
      rw [Location.inside_withEndTag]
      rfl

theorem inside_addEndTag (x : Lexeme) (name : String) :
    (s.addEndTag x name).inside base front = (s.inside base front).addEndTag (x.inside base) name := by
  have offset : (x.inside base).start.offset = base.offset + x.start.offset := rfl
  have stage : (s.inside base front).stage = s.stage := rfl
  have endTag : Extent.ofMark (x.inside base).start (x.inside base).stop.offset =
      (Extent.ofMark x.start x.stop.offset).inside base := by
    rw [Extent.inside_ofMark, Lexeme.inside_stop]
    rfl
  have html : (s.inside base front).html.close ((Extent.ofMark x.start x.stop.offset).inside base) =
      (s.html.close (Extent.ofMark x.start x.stop.offset)).inside base :=
    (Shell.inside_close base s.html _).symm
  have head : (s.inside base front).head.close ((Extent.ofMark x.start x.stop.offset).inside base) =
      (s.head.close (Extent.ofMark x.start x.stop.offset)).inside base :=
    (Shell.inside_close base s.head _).symm
  have body : (s.inside base front).body.map
      (·.close ((Extent.ofMark x.start x.stop.offset).inside base)) =
      (s.body.map (·.close (Extent.ofMark x.start x.stop.offset))).map (Shell.inside base) := by
    rw [inside, Option.map_map, Option.map_map]
    congr 1
    funext shell
    exact (Shell.inside_close base shell _).symm
  unfold addEndTag
  dsimp only
  rw [offset, stage, endTag, html, head, body, ← inside_endText, ← inside_enter, ← inside_enter,
    ← inside_enter, ← inside_endElement]
  split <;> rfl

theorem inside_add (x : Lexeme) :
    (s.add x).inside base front = (s.inside base front).add (x.inside base) := by
  have token : (x.inside base).token = x.token := rfl
  have start : (x.inside base).start = base.inside x.start := rfl
  have stop : (x.inside base).stop.offset = base.offset + x.stop.offset := by
    rw [Lexeme.inside_stop]
    rfl
  unfold add
  rw [token, start, stop]
  cases x.token with
  | text value => exact inside_addText base front s x.start value
  | startTag name attributes selfClosing => exact inside_addStartTag base front s x name attributes selfClosing
  | endTag name => exact inside_addEndTag base front s x name
  | comment value =>
    have same : (base.inside x.start).offset + value.length + commentMarkupLength =
        base.offset + (x.start.offset + value.length + commentMarkupLength) := by
      rw [Mark.inside, Nat.add_assoc, Nat.add_assoc, Nat.add_assoc]
    dsimp only
    rw [same]
    exact inside_addLeaf base front s _ _ _
  | instruction value => exact inside_addLeaf base front s _ _ _
  | declaration value => exact inside_addLeaf base front s _ _ _
  | skipped => rfl

theorem inside_run (xs : List Lexeme) : (xs.map (Lexeme.inside base)).foldl add (s.inside base front) =
    (xs.foldl add s).inside base front := by
  rw [List.foldl_map]
  exact List.foldl_hom (inside base front) fun s x => (inside_add base front s x).symm

/-- The document has what is in front before everything else in it, told in the outer text. -/
theorem inside_toTree : (s.inside base front).toTree =
    .node ⟨.document, none⟩ (front ++ s.toTree.children.map (Tree.inside base)) := by
  unfold toTree
  rw [← inside_closeAll]
  have body : (s.closeAll.inside base front).body.getD {} = (s.closeAll.body.getD {}).inside base := by
    rw [inside]
    cases s.closeAll.body <;> rfl
  dsimp only
  rw [body]
  simp only [inside, Tree.children, List.map_append, List.map_cons, Shell.inside_toTree,
    List.append_assoc]

end Construction

end LocatedHtml
