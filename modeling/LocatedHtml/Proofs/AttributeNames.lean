import LocatedHtml.Proofs.Lexing.UsualTags
import LocatedHtml.Proofs.SafeReading

/-!
The names of the attributes of an element and the names of those that are located in its start tag. The
tag is read one way and searched for attributes another; both give the same names, in the same order, when
its attributes are written in one of the usual ways.
-/

namespace LocatedHtml

/-- A start tag with the attributes, as it is read in front of some other text. -/
def ReadsAttributes (raw : Text) (entries : List (String × Text)) : Prop :=
  ∃ tag after name ws selfClosing length, raw = '<' :: tag ∧
    scanStartTag (tag ++ after) = .complete name ws selfClosing length ∧ decodeAttributes ws = .ok entries

variable {t raw : Text} {found : Found} {name : String} {entries : List (String × Text)}
  {selfClosing : Bool} {names : List Text}

theorem foundStartTag_readsAttributes (scanned : foundStartTag t = .ok (some found))
    (token : found.token = .startTag name entries selfClosing) :
    ReadsAttributes ('<' :: t.take found.extra) entries := by
  rcases foundStartTag_cases scanned with
    ⟨_, rfl⟩ | ⟨written, ws, _, length, _, complete, decoded, rfl⟩ <;> cases token
  refine ⟨t.take length, t.drop length, written, ws, selfClosing, length, rfl, ?_, decoded⟩
  rw [List.take_append_drop, complete]

theorem scanMarkup_readsAttributes (scanned : scanMarkup t = .ok (some found))
    (token : found.token = .startTag name entries selfClosing) :
    ReadsAttributes ('<' :: t.take found.extra) entries := by
  rcases scanMarkup_cases scanned with
    ⟨inner, _, _, _, rfl⟩ | ⟨_, _, scanned⟩ | ⟨_, _, _, _, rfl⟩ | ⟨_, scanned⟩ | rfl
  · exact absurd token (endTagToken_ne_startTag inner)
  · exact absurd token (scanDeclaration_ne_startTag scanned)
  · cases token
  · exact foundStartTag_readsAttributes scanned token
  · cases token

theorem scanLexeme_readsAttributes {inside : Option String} {c : Char} {rest : Text}
    (scanned : scanLexeme inside c rest = .ok (some found))
    (token : found.token = .startTag name entries selfClosing) :
    ReadsAttributes (c :: rest.take found.extra) entries := by
  cases inside with
  | some inner =>
    injection scanned with scanned
    obtain ⟨_, _, rfl⟩ := Option.map_eq_some_iff.1 scanned
    dsimp only at token
    split at token
    · cases token
    · split at token <;> cases token
  | none =>
    rcases scanOutside_cases (scanLexeme_outside scanned) with ⟨rfl, markup⟩ | ⟨_, _, _, rfl⟩
    · exact scanMarkup_readsAttributes markup token
    · cases token

/-- Every start tag is read in front of what comes behind it. -/
theorem lexemes_readsAttributes {source : Text} {xs : List Lexeme} (cut : lexemes source = .ok xs) :
    ∀ x ∈ xs, ∀ name entries selfClosing, x.token = .startTag name entries selfClosing →
      ReadsAttributes x.raw entries :=
  lexemesFrom_forall (p := fun x => ∀ name entries selfClosing,
      x.token = .startTag name entries selfClosing → ReadsAttributes x.raw entries)
    (fun _ _ _ _ _ scanned _ _ _ token => scanLexeme_readsAttributes scanned token) cut

/-- Where a start tag is written in the usual way, both searches find the same names. -/
theorem ReadsAttributes.keys_eq (reads : ReadsAttributes raw entries) (usual : UsualTag raw names) (m : Mark) :
    (attributeExtents m raw).keys = (OrderedMap.insertAllNew [] entries).keys := by
  obtain ⟨tag, after, name, ws, selfClosing, length, shape, complete, decoded⟩ := reads
  apply usual.keys_attributeExtents
  rw [decodeAttributes_names decoded, usual.scan_names shape complete]

/-- An element has its attributes from the start tag that its location is told from. The `html` and the
body are apart, which get more attributes by repeated tags. -/
def Node.StartedBy (xs : List Lexeme) (v : Node) : Prop :=
  ∀ name attributes, v.content = .element name attributes → name ≠ "html" → name ≠ "body" →
    ∀ location ∈ v.location, ∃ x ∈ xs, ∃ entries selfClosing, x.token = .startTag name entries selfClosing ∧
      attributes = OrderedMap.insertAllNew [] entries ∧
      location.opening = (Construction.startTagLocation x).opening

variable {xs : List Lexeme} {x : Lexeme} {attributes : OrderedMap Text}

namespace Node.StartedBy

theorem unnamed {content : Content} {location : Option Location} (unnamed : content.elementName? = none) :
    Node.StartedBy xs ⟨content, location⟩ := by
  intro name attributes shape
  cases shape
  cases unnamed

theorem structural {location : Option Location} (double : name = "html" ∨ name = "body") :
    Node.StartedBy xs ⟨.element name attributes, location⟩ := by
  rintro _ _ ⟨⟩ html body
  exact (double.elim html body).elim

theorem unlocated {content : Content} : Node.StartedBy xs ⟨content, none⟩ := by
  rintro _ _ _ _ _ _ ⟨⟩

theorem started (member : x ∈ xs) (token : x.token = .startTag name entries selfClosing) :
    Node.StartedBy xs ⟨.element name (OrderedMap.insertAllNew [] entries),
      some (Construction.startTagLocation x)⟩ := by
  rintro _ _ ⟨⟩ _ _ _ ⟨⟩
  exact ⟨x, member, entries, selfClosing, token, rfl, rfl⟩

theorem ended {location : Location} (endTag : Extent)
    (started : Node.StartedBy xs ⟨.element name attributes, some location⟩) :
    Node.StartedBy xs ⟨.element name attributes, some (location.withEndTag endTag)⟩ := by
  rintro _ _ ⟨⟩ html body _ ⟨⟩
  rw [Location.opening_withEndTag]
  exact started name attributes rfl html body location rfl

end Node.StartedBy

theorem nodeFact_startedBy (member : x ∈ xs) : NodeFact (fun _ t => t.value.StartedBy xs) x where
  started _ _ _ _ token := ⟨.started member token, fun _ _ => .started member token⟩
  ended _ _ _ started := started.ended _
  comment _ _ _ := .unnamed rfl
  instruction _ _ _ := .unnamed rfl
  declaration _ _ _ := .unnamed rfl

theorem shellFact_startedBy (member : x ∈ xs) :
    ShellFact (fun name shell => name ∈ structuralNames → (shell.node name).StartedBy xs) x where
  more name _ _ _ _ other _ structural := by
    rcases mem_structuralNames.1 structural with html | head | body
    · exact .structural (.inl html)
    · exact absurd head other
    · exact .structural (.inr body)
  started _ _ _ token _ := .started member token
  ended _ _ _ started structural := Shell.close_node (started structural) fun _ before => before.ended _

variable {source : Text} {tree : HtmlTree}

/-- Every element of a document has its attributes from a start tag of the source. -/
theorem parseHtml_startedBy (parsed : parseHtml source = .ok tree) :
    ∃ xs, lexemes source = .ok xs ∧ ∀ t ∈ tree.subtrees, t.value.StartedBy xs := by
  obtain ⟨xs, cut, rfl⟩ := parseHtml_eq_toTree parsed
  refine ⟨xs, cut, ?_⟩
  exact Construction.documentOf_nodes source.length (.unnamed rfl) (fun _ => .unlocated) (fun _ _ => .unnamed rfl)
    (fun x member => nodeFact_startedBy member) fun x member => shellFact_startedBy member

/-- The attributes of an element and those that are located in its start tag have the same names in the same
order, if the tag is written in the usual way. -/
theorem parseHtml_attributeNames (parsed : parseHtml source = .ok tree) :
    ∀ t ∈ tree.subtrees, ∀ name attributes, t.value.content = .element name attributes →
      name ≠ "html" → name ≠ "body" → ∀ location ∈ t.value.location, ∀ names,
        UsualTag (location.opening.slice source) names →
          ∃ extents : OrderedMap Extent, location.opening.attributes = some extents ∧
            extents.keys = attributes.keys := by
  intro t member name attributes content html body location located names usual
  obtain ⟨xs, cut, started⟩ := parseHtml_startedBy parsed
  obtain ⟨x, inside, entries, selfClosing, token, rfl, opening⟩ :=
    started t member name attributes content html body location located
  have here := (lexemes_chained cut).inSource (List.nil_append source).symm rfl x inside
  have tag : location.opening.slice source = x.raw := by
    rw [opening]
    exact here.slice _
  rw [tag] at usual
  refine ⟨attributeExtents x.start x.raw, by rw [opening]; rfl, ?_⟩
  exact (lexemes_readsAttributes cut x inside name entries selfClosing token).keys_eq usual x.start

theorem parseHtml_attributeNames_repeated :
    ∃ tree t attributes location, ∃ extents : OrderedMap Extent,
      parseHtml "<a b=\"c\"d e=f/g B>".toList = .ok tree ∧ t ∈ tree.subtrees ∧
      t.value.content = .element "a" attributes ∧ attributes.keys = ["b", "d", "e"] ∧
      t.value.location = some location ∧ location.opening.attributes = some extents ∧
      extents.keys = ["b", "d", "e"] := by
  have known : (parseHtml "<a b=\"c\"d e=f/g B>".toList).toOption.map (fun tree =>
      (tree.subtrees[4]?).map fun t => (t.value.content.elementName?, t.value.content.attributes.keys,
        t.value.location.map fun location => location.opening.slice "<a b=\"c\"d e=f/g B>".toList)) =
      some (some (some "a", ["b", "d", "e"], some "<a b=\"c\"d e=f/g B>".toList)) := by decide +kernel
  obtain ⟨tree, parsed, seen⟩ := parseHtml_of_map known
  simp only [Prod.mk.injEq, Option.map_eq_some_iff] at seen
  obtain ⟨t, place, named, keys, location, located, slice⟩ := seen
  cases content : t.value.content <;> rw [content] at named keys <;> cases named
  next attributes =>
  have named {c : Char} (starts : startsPiece c = true) : IsUsualName [c] :=
    ⟨c, [], rfl, starts, List.forall_mem_nil _⟩
  have valueless {c : Char} (stop : isAttributeNameChar c = false) (rest : Text) : UsualValue [] (c :: rest) :=
    .none (Text.stopsAt_cons stop rest)
  have usual : UsualTag "<a b=\"c\"d e=f/g B>".toList [['b'], ['d'], ['e'], ['B']] := by
    have last : UsualAttributes [' ', 'B', '>'] [['B']] :=
      .separator (.inl (by decide)) (.entry (named (by decide)) (valueless (by decide) []) .close)
    have bare : UsualAttributes (['e'] ++ (['=', 'f', '/', 'g'] ++ [' ', 'B', '>'])) [['e'], ['B']] :=
      .entry (named (by decide))
        (@UsualValue.bare [] [] ['f', '/', 'g'] _ (List.forall_mem_nil _) (List.forall_mem_nil _)
          (List.all_eq_true.1 (by decide)) (Text.stopsAt_cons (by decide) _) (Text.stopsAt_cons (by decide) _)
          (Text.stopsAt_cons (p := (· == '=')) (by decide) _)) last
    have quoted : UsualAttributes (['b'] ++ (['=', '"', 'c', '"'] ++ (['d'] ++ ([] ++ ' ' :: (['e'] ++
        (['=', 'f', '/', 'g'] ++ [' ', 'B', '>'])))))) [['b'], ['d'], ['e'], ['B']] :=
      .entry (named (by decide))
        (@UsualValue.quoted [] [] ['c'] _ '"' (List.forall_mem_nil _) (List.forall_mem_nil _) (by decide)
          (by decide))
        (.entry (named (by decide)) (valueless (by decide) _) (.separator (.inl (by decide)) bare))
    exact @UsualTag.mk ['a'] _ _ (List.forall_mem_singleton.2 (by decide)) (by rintro _ ⟨⟩; decide)
      (.separator (.inl (by decide)) quoted)
  obtain ⟨extents, found, same⟩ := parseHtml_attributeNames parsed t (List.mem_of_getElem? place) "a" attributes
    content (by decide) (by decide) location located _ (slice ▸ usual)
  exact ⟨tree, t, attributes, location, extents, parsed, List.mem_of_getElem? place, content, keys, located, found,
    same.trans keys⟩

/-- An attribute that starts with an equals sign is located without it. -/
theorem attributeNames_apart_behind_equals :
    ∃ tree t attributes location, ∃ extents : OrderedMap Extent,
      parseHtml "<a =b>".toList = .ok tree ∧ t ∈ tree.subtrees ∧
      t.value.content = .element "a" attributes ∧ t.value.location = some location ∧
      location.opening.attributes = some extents ∧ attributes.keys = ["=b"] ∧ extents.keys = ["b"] := by
  have known : (parseHtml "<a =b>".toList).toOption.map (fun tree => (tree.subtrees[4]?).map fun t =>
      (t.value.content.elementName?, t.value.content.attributes.keys,
        t.value.location.map fun location => location.opening.attributes.map OrderedMap.keys)) =
      some (some (some "a", ["=b"], some (some ["b"]))) := by decide +kernel
  obtain ⟨tree, parsed, seen⟩ := parseHtml_of_map known
  simp only [Prod.mk.injEq, Option.map_eq_some_iff] at seen
  obtain ⟨t, place, named, keys, location, located, extents, found, others⟩ := seen
  cases content : t.value.content <;> rw [content] at named keys <;> cases named
  exact ⟨tree, t, _, location, extents, parsed, List.mem_of_getElem? place, content, located, found, keys, others⟩

end LocatedHtml
