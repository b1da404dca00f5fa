import LocatedHtml.Json.Basic
import LocatedHtml.Text.Digits

/-!
The compact text of a JSON value, the same for all values that differ in the order of entries only.
Numbers that do not fit 64 bits and values that are nested too deeply have none.
-/

namespace LocatedHtml

/-- Why a value has no text. -/
inductive JsonError where
  | numberTooLarge
  | nestedTooDeeply
  deriving DecidableEq, Repr

/-- The wording of an error. -/
def JsonError.message : JsonError → String
  | .numberTooLarge => "Integer exceeds 64-bit range"
  | .nestedTooDeeply => "Recursion limit reached"

namespace Json

/-- The most containers that may be inside one another. -/
def maxWrittenDepth : Nat := 254

/-- A character of a string as it is written. -/
def writtenChar (c : Char) : Text :=
  if c = '"' then "\\\"".toList
  else if c = '\\' then "\\\\".toList
  else if c = '\x08' then "\\b".toList
  else if c = '\x0c' then "\\f".toList
  else if c = '\n' then "\\n".toList
  else if c = '\r' then "\\r".toList
  else if c = '\t' then "\\t".toList
  else if c.toNat < 0x20 then "\\u".toList ++ hexDigits 4 c.toNat
  else [c]

/-- A string as it is written. -/
def writtenString (t : Text) : Text := '"' :: t.flatMap writtenChar ++ ['"']

/-- A whole number as it is written, if it fits 64 bits. -/
def writtenNumber (n : Int) : Except JsonError Text :=
  if fitsWord n then .ok (toString n).toList else .error .numberTooLarge

/-- A number with a power of ten as it is written. -/
def writtenDecimal (digits exponent : Int) : Text :=
  (toString digits).toList ++ 'e' :: (toString exponent).toList

mutual

/-- The text of a value that may hold containers as deep as `depth`. -/
def write (depth : Nat) : Json → Except JsonError Text
  | .null => .ok "null".toList
  | .bool true => .ok "true".toList
  | .bool false => .ok "false".toList
  | .number n => writtenNumber n
  | .decimal digits exponent => .ok (writtenDecimal digits exponent)
  | .string t => .ok (writtenString t)
  | .array items =>
    match depth with
    | 0 => .error .nestedTooDeeply
    | depth + 1 => do return '[' :: (← writeItems depth items) ++ [']']
  | .object entries =>
    match depth with
    | 0 => .error .nestedTooDeeply
    | depth + 1 => do return '{' :: (← writeEntries depth entries) ++ ['}']

/-- The texts of some values with commas between them. -/
def writeItems (depth : Nat) : List Json → Except JsonError Text
  | [] => .ok []
  | [item] => write depth item
  | item :: rest => do return (← write depth item) ++ ',' :: (← writeItems depth rest)

/-- The texts of some entries with commas between them. -/
def writeEntries (depth : Nat) : List (Text × Json) → Except JsonError Text
  | [] => .ok []
  | [(name, value)] => do return writtenString name ++ ':' :: (← write depth value)
  | (name, value) :: rest => do
    return writtenString name ++ ':' :: (← write depth value) ++ ',' :: (← writeEntries depth rest)

end

/-- The text of a value. -/
def written (value : Json) : Except JsonError Text := write maxWrittenDepth value.sorted

end Json

end LocatedHtml
