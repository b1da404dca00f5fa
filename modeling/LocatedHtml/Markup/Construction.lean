import LocatedHtml.Markup.AttributeExtent
import LocatedHtml.Markup.ClosingRule
import LocatedHtml.Markup.Lexeme
import LocatedHtml.Node

/-!
The tree of a source, built lexeme by lexeme. Every document has one `html` with one `head` and one
`body`; what a source leaves out is there without a location. So a construction keeps the content of
these by the places it can stand in, and beside them the elements that are still open.
-/

namespace LocatedHtml

/-- How far the structural elements have come. -/
inductive Stage where
  | beforeHtml
  | beforeHead
  | inHead
  | afterHead
  | inBody
  | afterBody
  | afterHtml
  deriving DecidableEq, Repr

/-- A structural element without its content; one that is left out has no attributes or location. -/
structure Shell where
  attributes : OrderedMap Text := []
  location : Option Location := none
  deriving Repr

namespace Shell

/-- The attributes of a repeated start tag count where they are new. -/
def addAttributes (s : Shell) (attributes : List (String × Text)) : Shell :=
  { s with attributes := OrderedMap.insertAllNew s.attributes attributes }

/-- An end tag is recorded for an element that has a start tag. -/
def close (s : Shell) (endTag : Extent) : Shell :=
  { s with location := s.location.map (·.withEndTag endTag) }

/-- The element with its content. -/
def toTree (s : Shell) (name : String) (children : List HtmlTree) : HtmlTree :=
  .node ⟨.element name s.attributes, s.location⟩ children

end Shell

/-- An element whose end has not been found. -/
structure OpenElement where
  name : String
  attributes : OrderedMap Text
  location : Location
  children : List HtmlTree := []
  deriving Repr

namespace OpenElement

/-- The element as it stands, without an end tag unless one is in its location. -/
def toTree (e : OpenElement) : HtmlTree :=
  .node ⟨.element e.name e.attributes, some e.location⟩ e.children

end OpenElement

/-- Text that has been read but may still go on. -/
structure OpenText where
  start : Mark
  value : Text
  deriving Repr

/-- What has been built so far. Content is kept by where it stands: before, in or after the `html`,
and inside of it before the head, in the head, between head and body, in the body or after it. -/
structure Construction where
  stage : Stage := .beforeHtml
  html : Shell := {}
  head : Shell := {}
  body : Option Shell := none
  prolog : List HtmlTree := []
  beforeHead : List HtmlTree := []
  inHead : List HtmlTree := []
  afterHead : List HtmlTree := []
  inBody : List HtmlTree := []
  afterBody : List HtmlTree := []
  epilog : List HtmlTree := []
  /-- The open elements inside of head or body, innermost first. -/
  opened : List OpenElement := []
  openText : Option OpenText := none
  deriving Repr

namespace Construction

/-- Puts a tree behind what the innermost open element holds, or else behind the content of the
current stage. -/
def append (s : Construction) (t : HtmlTree) : Construction :=
  match s.opened with
  | e :: outer => { s with opened := { e with children := e.children ++ [t] } :: outer }
  | [] =>
    match s.stage with
    | .beforeHtml => { s with prolog := s.prolog ++ [t] }
    | .beforeHead => { s with beforeHead := s.beforeHead ++ [t] }
    | .inHead => { s with inHead := s.inHead ++ [t] }
    | .afterHead => { s with afterHead := s.afterHead ++ [t] }
    | .inBody => { s with inBody := s.inBody ++ [t] }
    | .afterBody => { s with afterBody := s.afterBody ++ [t] }
    | .afterHtml => { s with epilog := s.epilog ++ [t] }

/-- Ends the innermost open elements, as many as are asked for. -/
def close (s : Construction) : Nat → Construction
  | 0 => s
  | n + 1 =>
    match s.opened with
    | [] => s
    | e :: outer => close (append { s with opened := outer } e.toTree) n

/-- Ends all open elements. -/
def closeAll (s : Construction) : Construction := s.close s.opened.length

/-- Ends the open text at an offset. -/
def endText (s : Construction) (stop : Nat) : Construction :=
  match s.openText with
  | none => s
  | some p =>
    append { s with openText := none }
      (.node ⟨.text p.value, some (.plain (.ofMark p.start stop))⟩ [])

/-- Goes on to another stage, ending all open elements. -/
def enter (s : Construction) (stage : Stage) : Construction := { s.closeAll with stage := stage }

/-- Opens the head unless that stage is past. -/
def openHead (s : Construction) : Construction :=
  match s.stage with
  | .beforeHtml | .beforeHead => s.enter .inHead
  | _ => s

/-- Opens the body, again if it was closed. -/
def openBody (s : Construction) : Construction :=
  match s.stage with
  | .inBody => s
  | _ => { s.enter .inBody with body := some (s.body.getD {}) }

/-- Content would stand directly in the document, in `html` or in the head. -/
def betweenSections (s : Construction) : Bool :=
  match s.stage with
  | .inBody => false
  | .inHead => s.opened.isEmpty
  | _ => true

/-- The head is not past. -/
def allowsHead (s : Construction) : Bool :=
  match s.stage with
  | .beforeHtml | .beforeHead | .inHead => true
  | _ => false

/-- Ends the open elements whose end a start tag implies. -/
def closeBefore (s : Construction) (name : String) : Construction :=
  (ClosingRule.rulesFor name).foldl
    (fun s rule => s.close (rule.count (s.opened.map (·.name)))) s

/-- Adds characters of text. Characters that are not blank belong to the body or to an open element. -/
def addText (s : Construction) (start : Mark) (value : Text) : Construction :=
  if !value.allBlank && s.betweenSections then
    { (s.endText start.offset).openBody with openText := some ⟨start, value⟩ }
  else
    match s.openText with
    | some p => { s with openText := some { p with value := p.value ++ value } }
    | none => { s with openText := some ⟨start, value⟩ }

/-- Adds a node without content. -/
def addLeaf (s : Construction) (start : Mark) (stop : Nat) (content : Content) : Construction :=
  (s.endText start.offset).append (.node ⟨content, some (.plain (.ofMark start stop))⟩ [])

/-- Adds the start tag of `html`. -/
def addHtml (s : Construction) (offset : Nat) (attributes : List (String × Text))
    (location : Location) : Construction :=
  match s.stage with
  | .beforeHtml =>
    { (s.endText offset).enter .beforeHead with
      html := ⟨OrderedMap.insertAllNew [] attributes, some location⟩ }
  | _ => { s with html := s.html.addAttributes attributes }

/-- Adds the start tag of the head; one that comes late is ignored. -/
def addHead (s : Construction) (offset : Nat) (attributes : List (String × Text))
    (location : Location) : Construction :=
  match s.stage with
  | .beforeHtml | .beforeHead =>
    { (s.endText offset).enter .inHead with
      head := ⟨OrderedMap.insertAllNew [] attributes, some location⟩ }
  | _ => s

/-- Adds the start tag of the body; one that comes late only adds its new attributes. -/
def addBody (s : Construction) (offset : Nat) (attributes : List (String × Text))
    (location : Location) : Construction :=
  match s.stage with
  | .beforeHtml | .beforeHead | .inHead | .afterHead =>
    { (s.endText offset).enter .inBody with
      body := some ⟨OrderedMap.insertAllNew [] attributes, some location⟩ }
  | _ => { s with body := s.body.map (·.addAttributes attributes) }

/-- Adds the start tag of any other element. -/
def addElement (s : Construction) (offset : Nat) (e : OpenElement) (selfClosing : Bool) :
    Construction :=
  let s := s.endText offset
  let s :=
    if s.betweenSections then
      if headContentNames.contains e.name && s.allowsHead then s.openHead else s.openBody
    else s
  let s := s.closeBefore e.name
  if selfClosing || isVoid e.name then s.append e.toTree else { s with opened := e :: s.opened }

/-- The location of an element that starts with the lexeme. -/
def startTagLocation (x : Lexeme) : Location :=
  .element { Extent.ofMark x.start x.stop.offset with
    attributes := some (attributeExtents x.start x.raw) } none none

/-- Adds a start tag. -/
def addStartTag (s : Construction) (x : Lexeme) (name : String)
    (attributes : List (String × Text)) (selfClosing : Bool) : Construction :=
  match name with
  | "html" => s.addHtml x.start.offset attributes (startTagLocation x)
  | "head" => s.addHead x.start.offset attributes (startTagLocation x)
  | "body" => s.addBody x.start.offset attributes (startTagLocation x)
  | _ =>
    s.addElement x.start.offset
      ⟨name, OrderedMap.insertAllNew [] attributes, startTagLocation x, []⟩ selfClosing

/-- Ends the innermost open element of a name with its end tag, and with it all elements inside; an
end tag without such an element is ignored. -/
def endElement (s : Construction) (offset : Nat) (name : String) (endTag : Extent) :
    Construction :=
  match s.opened.findIdx? (·.name == name) with
  | none => s
  | some depth =>
    let s := (s.endText offset).close depth
    match s.opened with
    | [] => s
    | e :: outer =>
      append { s with opened := outer } { e with location := e.location.withEndTag endTag }.toTree

/-- Adds an end tag. The structural elements end only where they are open. -/
def addEndTag (s : Construction) (x : Lexeme) (name : String) : Construction :=
  let endTag := Extent.ofMark x.start x.stop.offset
  match name, s.stage with
  | "html", .beforeHtml | "html", .afterHtml => s
  | "html", _ => { (s.endText x.start.offset).enter .afterHtml with html := s.html.close endTag }
  | "head", .inHead => { (s.endText x.start.offset).enter .afterHead with head := s.head.close endTag }
  | "head", _ => s
  | "body", .inBody =>
    { (s.endText x.start.offset).enter .afterBody with body := s.body.map (·.close endTag) }
  | "body", _ => s
  | _, _ => s.endElement x.start.offset name endTag

/-- The columns that the brackets and dashes around a comment take. -/
def commentMarkupLength : Nat := 7

/-- Adds a lexeme. -/
def add (s : Construction) (x : Lexeme) : Construction :=
  match x.token with
  | .text value => s.addText x.start value
  | .startTag name attributes selfClosing => s.addStartTag x name attributes selfClosing
  | .endTag name => s.addEndTag x name
  | .comment value =>
    s.addLeaf x.start (x.start.offset + value.length + commentMarkupLength) (.comment value)
  | .instruction value => s.addLeaf x.start x.stop.offset (.comment ('?' :: value))
  | .declaration value => s.addLeaf x.start x.stop.offset (.doctype value)
  | .skipped => s

/-- The document, with everything ended that is still open. -/
def toTree (s : Construction) : HtmlTree :=
  let s := s.closeAll
  let head := s.head.toTree "head" s.inHead
  let body := (s.body.getD {}).toTree "body" s.inBody
  let html := s.html.toTree "html" (s.beforeHead ++ head :: s.afterHead ++ body :: s.afterBody)
  .node ⟨.document, none⟩ (s.prolog ++ html :: s.epilog)

end Construction

/-- The document of some lexemes of a source of the given length. -/
def documentOf (xs : List Lexeme) (size : Nat) : HtmlTree :=
  ((xs.foldl Construction.add {}).endText size).toTree

/-- The document of a source. -/
def parseHtml (source : Text) : Except MarkupError HtmlTree := do
  return documentOf (← lexemes source) source.length

end LocatedHtml
