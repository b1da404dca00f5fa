import LocatedHtml.Text.Basic
import LocatedHtml.Text.DecimalDigits

/-!
The arguments of the program. A long option may be shortened as far as it stays the only one, and
short ones may share a dash. What starts with a dash is no value, unless it looks like a negative
number or has a space in it.
-/

namespace LocatedHtml

/-- The options by what they ask for. -/
inductive OptionName where
  | help
  | url
  | attributes
  | stringify
  | output
  | verbose
  deriving DecidableEq, Repr

namespace OptionName

/-- The option needs a value. -/
def takesValue : OptionName → Bool
  | .url | .output => true
  | _ => false

/-- The spellings with two dashes. -/
def longSpellings : List (String × OptionName) := [
  ("--help", .help), ("--url", .url), ("--attributes", .attributes), ("--stringify", .stringify),
  ("--output", .output), ("--verbose", .verbose)]

/-- The option of a letter behind one dash. -/
def ofLetter? (c : Char) : Option OptionName :=
  if c = 'h' then some .help else if c = 'v' then some .verbose else none

end OptionName

/-- An argument by its form. -/
inductive Argument where
  | plain (value : String)
  | separator
  | long (name : OptionName) (attached : Option String)
  | short (name : OptionName) (attached : Option String)
  | unknown
  | ambiguous
  deriving DecidableEq, Repr

/-- The text before the first equals sign and the text behind it, if there is one. -/
def splitAtEquals (t : Text) : Text × Option Text :=
  (t.takeWhile (· != '='), match t.dropWhile (· != '=') with
    | [] => none
    | _ :: value => some value)

/-- The text without a newline at its end. -/
def dropLastNewline (t : Text) : Text := if t.getLast? = some '\n' then t.dropLast else t

/-- A number with a minus sign, with or without a fraction, in the digits of any script; a newline may
follow. -/
def looksNegative (t : Text) : Bool :=
  match dropLastNewline t with
  | '-' :: rest =>
    let whole := rest.takeWhile isDecimalDigit
    match rest.drop whole.length with
    | [] => !whole.isEmpty
    | '.' :: fraction => !fraction.isEmpty && fraction.all isDecimalDigit
    | _ => false
  | _ => false

namespace Argument

/-- An argument that starts with a dash and is no option. -/
def ofUnmatched (s : String) : Argument :=
  if looksNegative s.toList || s.contains ' ' then .plain s else .unknown

/-- An argument that starts with two dashes and goes on. -/
def ofLong (s : String) : Argument :=
  let (spelling, value) := splitAtEquals s.toList
  let value := value.map String.ofList
  match OptionName.longSpellings.lookup (String.ofList spelling) with
  | some name => .long name value
  | none =>
    match OptionName.longSpellings.filter fun entry => spelling.isPrefixOf entry.1.toList with
    | [] => ofUnmatched s
    | [entry] => .long entry.2 value
    | _ => .ambiguous

/-- An argument that starts with one dash and goes on with a character. -/
def ofShort (s : String) (c : Char) (rest : Text) : Argument :=
  match OptionName.ofLetter? c with
  | none => ofUnmatched s
  | some name =>
    match rest with
    | [] => .short name none
    | '=' :: value => .short name (some (String.ofList value))
    | _ => .short name (some (String.ofList rest))

/-- An argument that does not come behind a separator. -/
def ofString (s : String) : Argument :=
  match s.toList with
  | ['-', '-'] => .separator
  | '-' :: '-' :: _ => ofLong s
  | '-' :: c :: rest => ofShort s c rest
  | _ => .plain s

/-- Arguments by their forms; behind the separator all are plain. -/
def ofStrings : List String → List Argument
  | [] => []
  | s :: rest =>
    match ofString s with
    | .separator => .separator :: rest.map .plain
    | argument => argument :: ofStrings rest

end Argument

/-- What the program is asked to do. -/
structure Options where
  path : String
  url : Option String := none
  output : Option String := none
  attributes : Bool := false
  stringify : Bool := false
  verbose : Bool := false
  deriving DecidableEq, Repr

/-- What some arguments come to. -/
inductive Request where
  | help
  | refused
  | run (options : Options)
  deriving DecidableEq, Repr

/-- What has been read of the arguments: `extra` tells of some that have no meaning. -/
structure Reading where
  path : Option String := none
  options : Options := { path := "" }
  extra : Bool := false

namespace Reading

/-- The effect of an option without a value. -/
def setFlag (r : Reading) (name : OptionName) : Reading :=
  match name with
  | .attributes => { r with options := { r.options with attributes := true } }
  | .stringify => { r with options := { r.options with stringify := true } }
  | .verbose => { r with options := { r.options with verbose := true } }
  | _ => r

/-- The value that is attached to an option. Two dashes end the options wherever they stand, so that
they are no value. -/
def attachedValue (value : String) : String := if value = "--" then "" else value

/-- The effect of an option with a value. -/
def setValue (r : Reading) (name : OptionName) (value : String) : Reading :=
  match name with
  | .url => { r with options := { r.options with url := some value } }
  | .output => { r with options := { r.options with output := some value } }
  | _ => r

/-- The options of letters that share a dash with another one. -/
def sharedOptions? (letters : String) : Option (List OptionName) :=
  if letters.isEmpty then none else letters.toList.mapM OptionName.ofLetter?

/-- What the arguments come to when all are read. -/
def finish (r : Reading) : Request :=
  match r.path with
  | some path => if r.extra then .refused else .run { r.options with path := path }
  | none => .refused

/-- Reads arguments. The first plain one is the path, and a separator means nothing beside it. -/
def readAll (r : Reading) : List Argument → Request
  | [] => r.finish
  | .plain value :: .separator :: rest =>
    match r.path with
    | none => readAll { r with path := some value } rest
    | some _ => readAll { r with extra := true } (.separator :: rest)
  | .plain value :: rest =>
    match r.path with
    | none => readAll { r with path := some value } rest
    | some _ => readAll { r with extra := true } rest
  | .separator :: .plain value :: rest =>
    match r.path with
    | none => readAll { r with path := some value } rest
    | some _ => readAll { r with extra := true } rest
  | .separator :: rest => readAll { r with extra := true } rest
  | .unknown :: rest => readAll { r with extra := true } rest
  | .ambiguous :: _ => .refused
  | .long name (some value) :: rest =>
    if name.takesValue then readAll (r.setValue name (attachedValue value)) rest else .refused
  | .long name none :: rest =>
    if name.takesValue then
      match rest with
      | .plain value :: rest => readAll (r.setValue name value) rest
      | _ => .refused
    else if name = .help then .help
    else readAll (r.setFlag name) rest
  | .short name attached :: rest =>
    match attached with
    | none => if name = .help then .help else readAll (r.setFlag name) rest
    | some letters =>
      match sharedOptions? letters with
      | none => .refused
      | some others =>
        if (name :: others).contains .help then .help
        else readAll ((name :: others).foldl setFlag r) rest

end Reading

/-- What the arguments of the program ask for. -/
def Request.ofArguments (arguments : List String) : Request :=
  let forms := Argument.ofStrings arguments
  if forms.contains .ambiguous then .refused else Reading.readAll {} forms

end LocatedHtml
