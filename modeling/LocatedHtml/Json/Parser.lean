import LocatedHtml.Json.Basic
import LocatedHtml.Text.Digits

/-!
Values read back from their text, which may have blanks between its parts. Of entries with the same
name the last one counts.
-/

namespace LocatedHtml

namespace Json

/-- A blank of JSON. -/
def isSpace (c : Char) : Bool := c = ' ' || c = '\t' || c = '\n' || c = '\r'

/-- The text from its first character on that is not blank. -/
def skipSpace (t : Text) : Text := t.dropWhile isSpace

/-- The most containers that may be inside one another in a text that is read. -/
def maxReadDepth : Nat := 1024

/-- The number that the first four characters write in hexadecimal digits. -/
def fourDigits? (t : Text) : Option Nat :=
  let digits := t.take 4
  if digits.length = 4 && digits.all (fun c => (hexValue? c).isSome) then
    some (digitsValue 16 digits)
  else none

/-- The character that an escape with a number stands for, and the length of all behind its letter;
a character beyond 0xFFFF takes two such escapes. -/
def numberedEscape? (t : Text) : Option (Char × Nat) := do
  let high ← fourDigits? t
  if 0xDC00 ≤ high && high ≤ 0xDFFF then none
  else if 0xD800 ≤ high && high ≤ 0xDBFF then
    match t.drop 4 with
    | '\\' :: 'u' :: rest =>
      let low ← fourDigits? rest
      if 0xDC00 ≤ low && low ≤ 0xDFFF then
        some (Char.ofNat (0x10000 + (high - 0xD800) * 0x400 + (low - 0xDC00)), 10)
      else none
    | _ => none
  else some (Char.ofNat high, 4)

/-- The character that an escape stands for, and the length of all behind the backslash. -/
def escape? : Text → Option (Char × Nat)
  | [] => none
  | c :: rest =>
    if c = '"' || c = '\\' || c = '/' then some (c, 1)
    else if c = 'b' then some ('\x08', 1)
    else if c = 'f' then some ('\x0c', 1)
    else if c = 'n' then some ('\n', 1)
    else if c = 'r' then some ('\r', 1)
    else if c = 't' then some ('\t', 1)
    else if c = 'u' then (numberedEscape? rest).map fun (d, n) => (d, n + 1)
    else none

/-- The string behind an opening quote, and what follows its closing quote. -/
def string? : Text → Option (Text × Text)
  | [] => none
  | c :: rest =>
    if c = '"' then some ([], rest)
    else if c = '\\' then
      match escape? rest with
      | none => none
      | some (d, n) => (string? (rest.drop n)).map fun (value, after) => (d :: value, after)
    else if c.toNat < 0x20 then none
    else (string? rest).map fun (value, after) => (c :: value, after)
termination_by t => t.length
decreasing_by all_goals simp only [List.length_cons, List.length_drop]; omega

/-- The digits behind a point at the front of a text, none without a point, and what follows. -/
def fraction? : Text → Option (Text × Text)
  | '.' :: rest =>
    let digits := rest.takeWhile isDigit
    if digits.isEmpty then none else some (digits, rest.drop digits.length)
  | t => some ([], t)

/-- The digits of an exponent, and what follows. -/
def exponentDigits? (negative : Bool) (t : Text) : Option (Option Int × Text) :=
  let digits := t.takeWhile isDigit
  let n : Int := digitsValue 10 digits
  if digits.isEmpty then none else some (some (if negative then -n else n), t.drop digits.length)

/-- The exponent at the front of a text, if there is one, and what follows. -/
def exponent? : Text → Option (Option Int × Text)
  | [] => some (none, [])
  | c :: rest =>
    if c = 'e' || c = 'E' then
      match rest with
      | '-' :: digits => exponentDigits? true digits
      | '+' :: digits => exponentDigits? false digits
      | digits => exponentDigits? false digits
    else some (none, c :: rest)

/-- The least number that is too large for a floating-point number of 64 bits: from here on the nearest
one would be the power of two behind the largest of them. -/
def firstTooLarge : Nat := Nat.pow 2 1024 - Nat.pow 2 970

/-- The number `digits * 10 ^ exponent` is too large for a floating-point number. It can be so only with
309 digits before the point, and is with more of them. -/
def isTooLarge (digits : Nat) (exponent : Int) : Bool :=
  let places := (toString digits).length + exponent
  if digits = 0 || places < 309 then false
  else if 309 < places then true
  else match exponent with
    | .ofNat n => decide (firstTooLarge ≤ digits * Nat.pow 10 n)
    | .negSucc n => decide (firstTooLarge * Nat.pow 10 (n + 1) ≤ digits)

/-- The value of a number with a power of ten, unless it is too large. A whole number that fits is kept
as one where it is written without a point and without an exponent. -/
def numberOf? (plain negative : Bool) (digits : Nat) (exponent : Int) : Option Json :=
  let n : Int := if negative then -digits else digits
  if plain && fitsWord n then some (.number n)
  else if isTooLarge digits exponent then none
  else some (.decimal n exponent)

/-- The number at the front of a text, and what follows. A number has no needless zeros in front. -/
def number? (t : Text) : Option (Json × Text) := do
  let negative := t.head? == some '-'
  let unsigned := if negative then t.drop 1 else t
  let whole := unsigned.takeWhile isDigit
  if whole.isEmpty || (whole.head? == some '0' && whole.length != 1) then none
  else
    let (fraction, after) ← fraction? (unsigned.drop whole.length)
    let (exponent, after) ← exponent? after
    let value ← numberOf? (fraction.isEmpty && exponent.isNone) negative
      (digitsValue 10 (whole ++ fraction)) (exponent.getD 0 - fraction.length)
    some (value, after)

/-- The entries with a new value for a name. -/
def setEntry (name : Text) (value : Json) : List (Text × Json) → List (Text × Json)
  | [] => [(name, value)]
  | other :: rest =>
    if other.1 = name then (name, value) :: rest else other :: setEntry name value rest

/-- The word at the front of a text stands for the value. -/
def word? (word : String) (value : Json) (t : Text) : Option (Json × Text) :=
  (Text.dropStart? word.toList t).map fun after => (value, after)

mutual

/-- The value at the front of a text that does not start with a blank, and what follows. There may be
`depth` containers inside one another, and `fuel` bounds the number of steps. -/
def value? (fuel depth : Nat) (t : Text) : Option (Json × Text) :=
  match fuel with
  | 0 => none
  | fuel + 1 =>
    match t with
    | [] => none
    | c :: rest =>
      if c = '"' then (string? rest).map fun (value, after) => (.string value, after)
      else if c = '[' then
        match depth with
        | 0 => none
        | depth + 1 =>
          match skipSpace rest with
          | ']' :: after => some (.array [], after)
          | inner => (items? fuel depth inner).map fun (items, after) => (.array items, after)
      else if c = '{' then
        match depth with
        | 0 => none
        | depth + 1 =>
          match skipSpace rest with
          | '}' :: after => some (.object [], after)
          | inner =>
            (entries? fuel depth [] inner).map fun (entries, after) => (.object entries, after)
      else if c = 'n' then word? "null" .null t
      else if c = 't' then word? "true" (.bool true) t
      else if c = 'f' then word? "false" (.bool false) t
      else number? t

/-- The items of an array up to its closing bracket, and what follows that. -/
def items? (fuel depth : Nat) (t : Text) : Option (List Json × Text) :=
  match fuel with
  | 0 => none
  | fuel + 1 => do
    let (item, after) ← value? fuel depth t
    match skipSpace after with
    | ']' :: rest => some ([item], rest)
    | ',' :: rest =>
      let (more, rest) ← items? fuel depth (skipSpace rest)
      some (item :: more, rest)
    | _ => none

/-- The entries of an object up to its closing brace with those read before, and what follows it. -/
def entries? (fuel depth : Nat) (before : List (Text × Json)) (t : Text) :
    Option (List (Text × Json) × Text) :=
  match fuel with
  | 0 => none
  | fuel + 1 =>
    match t with
    | '"' :: rest => do
      let (name, after) ← string? rest
      match skipSpace after with
      | ':' :: rest =>
        let (value, after) ← value? fuel depth (skipSpace rest)
        let entries := setEntry name value before
        match skipSpace after with
        | '}' :: rest => some (entries, rest)
        | ',' :: rest => entries? fuel depth entries (skipSpace rest)
        | _ => none
      | _ => none
    | _ => none

end

/-- The value of a whole text. -/
def read? (t : Text) : Option Json :=
  match value? (2 * t.length + 2) maxReadDepth (skipSpace t) with
  | some (value, after) => if (skipSpace after).isEmpty then some value else none
  | none => none

end Json

end LocatedHtml
