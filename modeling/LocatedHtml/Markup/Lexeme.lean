import LocatedHtml.Markup.CharacterReference
import LocatedHtml.Markup.StartTag
import LocatedHtml.Markup.TagNames
import LocatedHtml.Position
import LocatedHtml.Text.LetterCase

/-!
A source cut into lexemes: tags, comments, declarations and the texts between them. The lexemes of a
source follow one another without a gap. Only text behind the start tag of a raw text element that is
never closed is left out.
-/

namespace LocatedHtml

/-- What a lexeme means. -/
inductive Token where
  | text (value : Text)
  | startTag (name : String) (attributes : List (String × Text)) (selfClosing : Bool)
  | endTag (name : String)
  | comment (value : Text)
  | instruction (value : Text)
  | declaration (value : Text)
  | skipped
  deriving DecidableEq, Repr

/-- A piece of source with its place and its meaning. -/
structure Lexeme where
  start : Mark
  raw : Text
  token : Token
  deriving DecidableEq, Repr

/-- The place where the next lexeme starts. -/
def Lexeme.stop (x : Lexeme) : Mark := x.start.after x.raw

/-- A lexeme found at the front of a text: how many characters it takes behind the first one, and the
raw text element whose content comes next, if one does. -/
structure Found where
  token : Token
  extra : Nat
  inside : Option String := none
  deriving DecidableEq, Repr

/-- The text up to the first closing bracket, if there is one. -/
def upToBracket? (t : Text) : Option Text :=
  if t.contains '>' then some (t.takeWhile (· != '>')) else none

/-- The length of a closing bracket with the blanks before it. -/
def bracketLength? (t : Text) : Option Nat :=
  match t.drop (blankCount t) with
  | '>' :: _ => some (blankCount t + 1)
  | _ => none

/-- The length of the end of a comment at the front of a text. -/
def commentEnd? : Text → Option Nat
  | '-' :: '-' :: rest => (bracketLength? rest).map (· + 2)
  | _ => none

/-- The length of the end of a section that one square bracket closes. -/
def singleSectionEnd? : Text → Option Nat
  | ']' :: rest => (bracketLength? rest).map (· + 1)
  | _ => none

/-- The length of the end of a section that two square brackets close. -/
def doubleSectionEnd? : Text → Option Nat
  | ']' :: rest => (singleSectionEnd? (rest.drop (blankCount rest))).map (blankCount rest + · + 1)
  | _ => none

/-- How the section of a name ends. -/
def sectionEnd? (name : String) : Option (Text → Option Nat) :=
  if ["temp", "cdata", "ignore", "include", "rcdata"].contains name then some doubleSectionEnd?
  else if ["if", "else", "endif"].contains name then some singleSectionEnd?
  else none

/-- A character that the name of a section goes on with. -/
def isSectionNameChar (c : Char) : Bool :=
  isLetter c || isDigit c || c = '-' || c = '_' || c = '.'

/-- The marked section whose name `t` starts with; a section has no content and leaves nothing. -/
def scanSection (t : Text) : Except MarkupError (Option Found) :=
  match t with
  | [] => .ok none
  | c :: _ =>
    if !isLetter c then .error (.missingSectionName (('<' :: '!' :: '[' :: t).take 20))
    else
      let name := t.takeWhile isSectionNameChar
      let used := name.length + blankCount (t.drop name.length)
      if used = t.length then .ok none
      else match sectionEnd? (Text.lowerName name) with
        | none => .error (.unknownSectionName (t.take used))
        | some ends => .ok <| (Text.untilMatch ends t).map fun (before, n) =>
            ⟨.skipped, before.length + n + 2, none⟩

/-- The declaration or comment behind `<!`. -/
def scanDeclaration (t : Text) : Except MarkupError (Option Found) :=
  match t with
  | '-' :: '-' :: body => .ok <| (Text.untilMatch commentEnd? body).map fun (value, n) =>
      ⟨.comment value, value.length + n + 3, none⟩
  | '[' :: rest => scanSection rest
  | _ => .ok <| (upToBracket? t).map fun value =>
      let token := if Text.lower (t.take 7) = "doctype".toList then Token.declaration value
        else Token.comment value
      ⟨token, value.length + 2, none⟩

/-- A character that the name in a plain end tag goes on with. -/
def isPlainNameChar (c : Char) : Bool := isSectionNameChar c || c = ':'

/-- The name of an end tag that holds nothing but a name and blanks around it. -/
def plainEndName? (inner : Text) : Option Text :=
  let behind := inner.dropWhile isBlank
  let name := behind.takeWhile isPlainNameChar
  if (behind.head?.any isLetter) && (behind.drop name.length).all isBlank then some name else none

/-- What an end tag with the given inner text means: the end of an element, nothing for an empty tag,
and a comment where no name comes first. -/
def endTagToken (inner : Text) : Token :=
  match plainEndName? inner with
  | some name => .endTag (Text.lowerName name)
  | none =>
    if inner.head?.any isLetter then .endTag (Text.lowerName (inner.takeWhile isTagNameChar))
    else if inner.isEmpty then .skipped
    else .comment inner

/-- The attributes of a start tag with the references in their values replaced; an attribute without
a value has an empty one. -/
def decodeAttributes (attributes : List WrittenAttribute) :
    Except MarkupError (List (String × Text)) :=
  attributes.mapM fun a => do
    return (Text.lowerName a.name, ← decodeReferences (a.value.getD []))

/-- The lexeme of a start tag behind an opening bracket. -/
def foundStartTag (t : Text) : Except MarkupError (Option Found) :=
  match scanStartTag t with
  | .unfinished => .ok none
  | .stray length => .ok (some ⟨.text ('<' :: t.take length), length, none⟩)
  | .complete name attributes selfClosing length => do
    let name := Text.lowerName name
    let inside := if !selfClosing && isRawText name then some name else none
    return some ⟨.startTag name (← decodeAttributes attributes) selfClosing, length, inside⟩

/-- The markup behind an opening bracket, unless it is unfinished. A bracket that starts no markup is
text. -/
def scanMarkup (t : Text) : Except MarkupError (Option Found) :=
  match t with
  | '/' :: rest => .ok <| (upToBracket? rest).map fun inner =>
      ⟨endTagToken inner, inner.length + 2, none⟩
  | '!' :: rest => scanDeclaration rest
  | '?' :: rest => .ok <| (upToBracket? rest).map fun value =>
      ⟨.instruction value, value.length + 2, none⟩
  | c :: _ => if isLetter c then foundStartTag t else .ok (some ⟨.text ['<'], 0, none⟩)
  | [] => .ok (some ⟨.text ['<'], 0, none⟩)

/-- How much of the text behind an opening bracket is text with it when its markup is unfinished: up
to the next closing bracket, else up to the next opening one, else nothing. -/
def unfinishedLength (t : Text) : Nat :=
  if t.contains '>' then (t.takeWhile (· != '>')).length + 1
  else if t.contains '<' then (t.takeWhile (· != '<')).length
  else 0

/-- The lexeme at the front of a text outside of raw text elements. -/
def scanOutside (c : Char) (rest : Text) : Except MarkupError Found := do
  if c = '<' then
    match ← scanMarkup rest with
    | some found => return found
    | none =>
      let extra := unfinishedLength rest
      return ⟨.text (← decodeReferences (c :: rest.take extra)), extra, none⟩
  else
    let more := rest.takeWhile (· != '<')
    return ⟨.text (← decodeReferences (c :: more)), more.length, none⟩

/-- The letter is written by the character: in either case, as a long s, or as an i whose dot differs. -/
def writesLetter (letter c : Char) : Bool :=
  c.toLower = letter || (letter = 's' && c = 'ſ') || (letter = 'i' && (c = 'İ' || c = 'ı'))

/-- The front of a text writes the letters of a name. -/
def writesName : Text → Text → Bool
  | [], _ => true
  | _ :: _, [] => false
  | letter :: name, c :: rest => writesLetter letter c && writesName name rest

/-- The length of what ends the raw text element `name` at the front of a text. -/
def rawTextEnd? (name : Text) : Text → Option Nat
  | '<' :: '/' :: rest =>
    let inner := rest.drop (blankCount rest)
    if writesName name inner then
      (bracketLength? (inner.drop name.length)).map (blankCount rest + name.length + · + 2)
    else none
  | _ => none

/-- The lexeme at the front of the content of a raw text element; none if the element is not closed.
What ends the search is an end tag only if the name is written in ASCII, and text otherwise. -/
def scanInside (name : String) (t : Text) : Option Found :=
  (Text.untilMatch (rawTextEnd? name.toList) t).map fun (before, n) =>
    if !before.isEmpty then ⟨.text before, before.length - 1, some name⟩
    else if plainEndName? ((t.take (n - 1)).drop 2) = none then ⟨.text (t.take n), n - 1, some name⟩
    else ⟨.endTag name, n - 1, none⟩

/-- The lexeme at the front of a text, if there is one. -/
def scanLexeme (inside : Option String) (c : Char) (rest : Text) :
    Except MarkupError (Option Found) :=
  match inside with
  | some name => .ok (scanInside name (c :: rest))
  | none => (scanOutside c rest).map some

/-- The lexemes of a text that starts at a mark, inside of a raw text element or not. -/
def lexemesFrom (inside : Option String) (start : Mark) :
    Text → Except MarkupError (List Lexeme)
  | [] => .ok []
  | c :: rest => do
    match ← scanLexeme inside c rest with
    | none => return []
    | some found =>
      let raw := c :: rest.take found.extra
      let more ← lexemesFrom found.inside (start.after raw) (rest.drop found.extra)
      return ⟨start, raw, found.token⟩ :: more
termination_by t => t.length
decreasing_by simp only [List.length_cons, List.length_drop]; omega

/-- The lexemes of a source. -/
def lexemes (source : Text) : Except MarkupError (List Lexeme) := lexemesFrom none .origin source

end LocatedHtml
