import LocatedHtml.Bytes.Windows1252
import LocatedHtml.Markup.Error
import LocatedHtml.Markup.NamedCharacters
import LocatedHtml.Text.Digits

/-!
Character references: characters written by number or by name behind an ampersand. A reference that
means nothing is left as it is.
-/

namespace LocatedHtml

/-- The characters that cannot be written by number: controls other than blanks, and numbers that are
set aside as no characters. -/
def isExcludedNumber (n : Nat) : Bool :=
  (0x1 ≤ n && n ≤ 0x8) || n == 0xB || (0xE ≤ n && n ≤ 0x1F) || n == 0x7F ||
    (0xFDD0 ≤ n && n ≤ 0xFDEF) || n % 0x10000 == 0xFFFE || n % 0x10000 == 0xFFFF

/-- What a character number stands for. -/
def numberedText (n : Nat) : Text :=
  if n = 0 then ['\ufffd']
  else if 0x80 ≤ n && n ≤ 0x9F then [windowsCharacter n]
  else if (0xD800 ≤ n && n ≤ 0xDFFF) || 0x10FFFF < n then ['\ufffd']
  else if isExcludedNumber n then []
  else [Char.ofNat n]

/-- What a name stands for, written with a semicolon at its end or without one. -/
def namedText? (name : Text) : Option Text :=
  if name.getLast? = some ';' then
    let bare := String.ofList name.dropLast
    match looseNames.lookup bare with
    | some n => some [Char.ofNat n]
    | none => (strictNames.lookup bare).map (·.map Char.ofNat)
  else (looseNames.lookup (String.ofList name)).map fun n => [Char.ofNat n]

/-- What the longest of the first `n` characters of `name`, but at least two of them, stand for, and
the characters behind those. -/
def longestNamed? (name : Text) : Nat → Option Text
  | 0 | 1 => none
  | n + 2 =>
    match namedText? (name.take (n + 2)) with
    | some value => some (value ++ name.drop (n + 2))
    | none => longestNamed? name (n + 1)

/-- The text of a name behind an ampersand: of the whole name, else of its longest part that is a name,
else the ampersand and the name themselves. -/
def nameText (name : Text) : Text :=
  match namedText? name with
  | some value => value
  | none => (longestNamed? name (name.length - 1)).getD ('&' :: name)

/-- A character that can be part of a name. -/
def isNameChar (c : Char) : Bool :=
  !(c = '\t' || c = '\n' || c = '\x0c' || c = ' ' || c = '<' || c = '&' || c = '#' || c = ';')

/-- The most characters that a name is looked for in. -/
def maxNameLength : Nat := 32

/-- The length of the part `t` starts with, and one more for a semicolon behind it. -/
def withSemicolon (count : Nat) (t : Text) : Nat :=
  if t[count]? = some ';' then count + 1 else count

/-- The reference behind an ampersand: the text it stands for and its length, if there is one. -/
def reference? (t : Text) : Except MarkupError (Option (Text × Nat)) :=
  match t with
  | '#' :: x :: rest =>
    if (x = 'x' || x = 'X') && (rest.head?.bind hexValue?).isSome then
      let digits := rest.takeWhile fun c => (hexValue? c).isSome
      .ok (some (numberedText (digitsValue 16 digits), withSemicolon (digits.length + 2) t))
    else
      let digits := (x :: rest).takeWhile isDigit
      if digits.isEmpty then .ok none
      else if maxDigits < digits.length then .error (.tooManyDigits digits.length)
      else .ok (some (numberedText (digitsValue 10 digits), withSemicolon (digits.length + 1) t))
  | _ =>
    let name := (t.take maxNameLength).takeWhile isNameChar
    if name.isEmpty then .ok none
    else
      let length := withSemicolon name.length t
      .ok (some (nameText (t.take length), length))

/-- The text with every character reference replaced by what it stands for. -/
def decodeReferences : Text → Except MarkupError Text
  | [] => .ok []
  | c :: rest =>
    if c = '&' then do
      match ← reference? rest with
      | some (value, length) => return value ++ (← decodeReferences (rest.drop length))
      | none => return c :: (← decodeReferences rest)
    else return c :: (← decodeReferences rest)
termination_by t => t.length
decreasing_by all_goals simp only [List.length_cons, List.length_drop]; omega

end LocatedHtml
