import LocatedHtml.Text.Basic
import LocatedHtml.Text.LetterCaseTables
import LocatedHtml.Text.Ranges

/-!
Lower case for names. Every letter is mapped on its own, except that the capital I with a dot becomes
two characters and that a capital sigma at the end of a word becomes the final form.
-/

namespace LocatedHtml

/-- The lower-case form of a character that has one of a single character, else the character. -/
def lowerChar (c : Char) : Char :=
  let n := c.toNat
  if n < 0x80 then
    if 0x41 ≤ n && n ≤ 0x5A then Char.ofNat (n + 0x20) else c
  else match lowerCaseRuns.find? (·.has n) with
    | some run => Char.ofNat (n + run.shift).toNat
    | none => c

/-- A letter that comes in two cases. -/
def isCased (c : Char) : Bool := inRanges casedRanges c.toNat

/-- A character that is looked through when the letters beside another one are sought. -/
def isCaseIgnorable (c : Char) : Bool := inRanges caseIgnorableRanges c.toNat

namespace Text

/-- The first character that is not looked through is a letter with case. -/
def startsCased (t : Text) : Bool :=
  match t.dropWhile isCaseIgnorable with
  | [] => false
  | c :: _ => isCased c

/-- Lower case of a text that comes after `before`, whose nearest character stands first. -/
def lowerAfter (before : Text) : Text → Text
  | [] => []
  | c :: rest =>
    if c = 'Σ' then
      (if startsCased before && !startsCased rest then 'ς' else 'σ') :: lowerAfter (c :: before) rest
    else if c = 'İ' then
      'i' :: '\u0307' :: lowerAfter (c :: before) rest
    else
      lowerChar c :: lowerAfter (c :: before) rest

/-- The text in lower case. -/
def lower (t : Text) : Text := lowerAfter [] t

/-- The lower-case form of a text that is a name. -/
def lowerName (t : Text) : String := String.ofList t.lower

end Text

end LocatedHtml
