import LocatedHtml.Text.Blank

/-!
Start tags as they are written: a name, then attributes that are separated by blanks, slashes or the
quotes of the value before. Quotes that are never closed, stray equals signs and the like still give
attributes; only a tag that the text ends in is unfinished.
-/

namespace LocatedHtml

/-- True of an ASCII letter. -/
def isLetter (c : Char) : Bool := ('a' ≤ c && c ≤ 'z') || ('A' ≤ c && c ≤ 'Z')

/-- A character that a tag name goes on with. -/
def isTagNameChar (c : Char) : Bool :=
  !(c = '\t' || c = '\n' || c = '\r' || c = '\x0c' || c = ' ' || c = '/' || c = '>' || c = '\x00')

/-- A character that an attribute name goes on with. -/
def isAttributeNameChar (c : Char) : Bool := !(isBlank c || c = '/' || c = '=' || c = '>')

/-- A character of a value without quotes. -/
def isBareValueChar (c : Char) : Bool := !(isBlank c || c = '>')

/-- A quote around attribute values. -/
def isQuote (c : Char) : Bool := c = '"' || c = '\''

/-- An attribute can start with `c` behind `previous`. -/
def startsAttribute (previous c : Char) : Bool :=
  (isBlank previous || previous = '/' || isQuote previous) && !(isBlank c || c = '/' || c = '>')

/-- How many blanks and slashes come first, leaving the slash of a self-closing tag. -/
def separatorCount : Text → Nat
  | [] => 0
  | c :: rest =>
    if isBlank c || (c = '/' && rest.head? != some '>') then separatorCount rest + 1 else 0

/-- The value that a text behind equals signs and `blanks` starts with, and its length. A quote that
is not closed starts no value of its own: behind blanks the value is empty, and behind several equals
signs the last of them belongs to the value. -/
def valueAfterEquals? (equals blanks : Nat) (t : Text) : Option (Text × Nat) :=
  match t with
  | c :: rest =>
    if isQuote c then
      if rest.contains c then
        let value := rest.takeWhile (· != c)
        some (value, equals + blanks + value.length + 2)
      else if 0 < blanks then some ([], equals + blanks - 1)
      else if 1 < equals then
        let value := t.takeWhile isBareValueChar
        some ('=' :: value, equals + value.length)
      else none
    else
      let value := t.takeWhile isBareValueChar
      some (value, equals + blanks + value.length)
  | [] => some ([], equals + blanks)

/-- The value written behind an attribute name, without its quotes, and the length of all that is
written from the end of the name to the end of the value. -/
def attributeValue? (t : Text) : Option (Text × Nat) :=
  let before := blankCount t
  let equals := ((t.drop before).takeWhile (· == '=')).length
  if equals = 0 then none
  else
    let behind := t.drop (before + equals)
    let blanks := blankCount behind
    (valueAfterEquals? equals blanks (behind.drop blanks)).map fun (value, n) => (value, before + n)

/-- An attribute as it is written, without the quotes of its value. -/
structure WrittenAttribute where
  name : Text
  value : Option Text
  deriving DecidableEq, Repr

/-- The attributes at the start of a text that comes behind `previous`, and the length of them and the
separators behind each. -/
def scanAttributes (previous : Char) : Text → List WrittenAttribute × Nat
  | [] => ([], 0)
  | c :: rest =>
    if startsAttribute previous c then
      let nameRest := rest.takeWhile isAttributeNameChar
      let value := attributeValue? (rest.drop nameRest.length)
      let written := nameRest.length + (value.map Prod.snd).getD 0
      let used := written + separatorCount (rest.drop written)
      let more := scanAttributes ((rest.take used).getLastD c) (rest.drop used)
      (⟨c :: nameRest, value.map Prod.fst⟩ :: more.1, used + 1 + more.2)
    else ([], 0)
termination_by t => t.length
decreasing_by simp only [List.length_cons, List.length_drop]; omega

/-- What a text that goes on with a letter behind an opening bracket holds. -/
inductive StartTag where
  /-- A tag that the text ends in. -/
  | unfinished
  /-- Characters that are no tag because what follows them cannot be in one. -/
  | stray (length : Nat)
  /-- A tag with its closing bracket. -/
  | complete (name : Text) (attributes : List WrittenAttribute) (selfClosing : Bool) (length : Nat)
  deriving DecidableEq, Repr

/-- The start tag behind an opening bracket; lengths do not count that bracket. -/
def scanStartTag (t : Text) : StartTag :=
  let name := t.takeWhile isTagNameChar
  let used := name.length + separatorCount (t.drop name.length)
  let attributes := scanAttributes ((t.take used).getLastD '<') (t.drop used)
  let length := used + attributes.2
  match t.drop length with
  | '>' :: _ => .complete name attributes.1 false (length + 1)
  | '/' :: '>' :: _ => .complete name attributes.1 true (length + 2)
  | [] => .unfinished
  | c :: _ => if isLetter c || c = '=' || c = '/' then .unfinished else .stray length

end LocatedHtml
