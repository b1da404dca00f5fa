import LocatedHtml.Text.Quoted

/-!
The reasons for which a source cannot be read.
-/

namespace LocatedHtml

/-- Why a source is refused. Everything else in a source is read as some kind of markup or text. -/
inductive MarkupError where
  | missingSectionName (near : Text)
  | unknownSectionName (name : Text)
  | tooManyDigits (count : Nat)
  deriving DecidableEq, Repr

/-- The most digits that a decimal character number may have. -/
def maxDigits : Nat := 4300

/-- The wording of an error. -/
def MarkupError.message : MarkupError → String
  | .missingSectionName near => "expected name token at " ++ String.ofList near.quoted
  | .unknownSectionName name =>
    "unknown status keyword " ++ String.ofList name.quoted ++ " in marked section"
  | .tooManyDigits count =>
    "Exceeds the limit (" ++ toString maxDigits ++ " digits) for integer string conversion: value has "
      ++ toString count ++ " digits; use sys.set_int_max_str_digits() to increase the limit"

end LocatedHtml
