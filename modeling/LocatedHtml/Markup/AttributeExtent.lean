import LocatedHtml.Extent
import LocatedHtml.Markup.StartTag
import LocatedHtml.Text.LetterCase

/-!
Where the attributes of a start tag stand. The tag is searched for pieces that look like an attribute,
a name with or without a value; of pieces with the same name the first counts.
-/

namespace LocatedHtml

/-- A character that an attribute piece can start with. -/
def startsPiece (c : Char) : Bool := !(isBlank c || c = '/' || c = '>' || c = '=' || isQuote c)

/-- The length of an equals sign and a value with the blanks before them, where both are there. -/
def pieceValueLength (t : Text) : Nat :=
  let before := blankCount t
  match t.drop before with
  | '=' :: behind =>
    let blanks := blankCount behind
    match behind.drop blanks with
    | c :: rest =>
      if isQuote c && rest.contains c then
        before + blanks + (rest.takeWhile (· != c)).length + 3
      else
        let bare := ((c :: rest).takeWhile isBareValueChar).length
        if bare = 0 then 0 else before + blanks + bare + 1
    | [] => 0
  | _ => 0

/-- The attribute pieces of a text that starts at a mark: the name and the extent of each. -/
def attributePieces (m : Mark) : Text → List (Text × Extent)
  | [] => []
  | c :: rest =>
    if startsPiece c then
      let nameRest := rest.takeWhile isAttributeNameChar
      let used := nameRest.length + pieceValueLength (rest.drop nameRest.length)
      (c :: nameRest, .ofMark m (m.offset + used + 1)) ::
        attributePieces (m.after (c :: rest.take used)) (rest.drop used)
    else attributePieces (m.after [c]) rest
termination_by t => t.length
decreasing_by all_goals simp only [List.length_cons, List.length_drop]; omega

/-- The extents of the attributes of a start tag that stands at a mark, by lower-case name. -/
def attributeExtents (m : Mark) (tag : Text) : OrderedMap Extent :=
  let opening := 1 + (tag.tail.takeWhile fun c => !(isBlank c || c = '/' || c = '>')).length
  OrderedMap.insertAllNew []
    ((attributePieces (m.after (tag.take opening)) (tag.drop opening)).map fun (name, extent) =>
      (Text.lowerName name, extent))

end LocatedHtml
