import LocatedHtml.Markup.Escape
import LocatedHtml.Markup.TagNames
import LocatedHtml.Node

/-!
The markup of a tree. What is still to be written waits in a list of trees and end tags, so that depth
costs no recursion.
-/

namespace LocatedHtml

/-- The start tag of an element. -/
def writtenStartTag (name : String) (attributes : OrderedMap Text) : Text :=
  '<' :: name.toList ++
    attributes.flatMap (fun (key, value) => ' ' :: key.toList ++ '=' :: quotedValue value) ++ ['>']

/-- The end tag of an element. -/
def writtenEndTag (name : String) : Text := '<' :: '/' :: name.toList ++ ['>']

/-- A comment. -/
def writtenComment (value : Text) : Text := "<!--".toList ++ value ++ "-->".toList

theorem writtenComment_length (value : Text) : (writtenComment value).length = value.length + 7 := by
  simp [writtenComment]

/-- A doctype. -/
def writtenDoctype (value : Text) : Text := '<' :: '!' :: value ++ ['>']

/-- A text, without escapes where its parent is a verbatim element. -/
def writtenText (verbatim : Bool) (value : Text) : Text :=
  if verbatim then value else escapeText value

/-- The texts directly below the node are written without escapes. -/
def Content.isVerbatimParent (content : Content) : Bool :=
  match content with
  | .element name _ => isVerbatim name
  | _ => false

/-- What waits to be written: a tree, with what its parent means for texts, or an end tag. -/
inductive Unwritten where
  | tree (verbatim : Bool) (t : HtmlTree)
  | endTag (name : String)

namespace Unwritten

/-- The children of a node, waiting. -/
def ofChildren (content : Content) (children : List HtmlTree) : List Unwritten :=
  children.map (.tree content.isVerbatimParent)

/-- How much an entry keeps the writer busy: two steps a node, one for an end tag. -/
def weight : Unwritten → Nat
  | .tree _ t => 2 * t.size
  | .endTag _ => 1

/-- How much everything that waits keeps the writer busy. -/
def weightAll : List Unwritten → Nat
  | [] => 0
  | u :: rest => u.weight + weightAll rest

theorem weightAll_append (us vs : List Unwritten) :
    weightAll (us ++ vs) = weightAll us + weightAll vs := by
  induction us with
  | nil => simp [weightAll]
  | cons u us ih => simp only [List.cons_append, weightAll, ih, Nat.add_assoc]

theorem weightAll_ofChildren (content : Content) (children : List HtmlTree) :
    weightAll (ofChildren content children) = 2 * Tree.sizeAll children := by
  induction children with
  | nil => simp [ofChildren, weightAll, Tree.sizeAll]
  | cons t ts ih =>
    simp only [ofChildren, List.map_cons, weightAll, weight, Tree.sizeAll] at ih ⊢
    omega

/-- The markup of everything that waits, in order. -/
def write : List Unwritten → Text
  | [] => []
  | .endTag name :: rest => writtenEndTag name ++ write rest
  | .tree verbatim (.node v cs) :: rest =>
    match v.content with
    | .element name attributes =>
      writtenStartTag name attributes ++
        if isVoid name then write rest
        else write (ofChildren v.content cs ++ .endTag name :: rest)
    | .text value => writtenText verbatim value ++ write rest
    | .comment value => writtenComment value ++ write rest
    | .doctype value => writtenDoctype value ++ write rest
    | .document => write (ofChildren v.content cs ++ rest)
termination_by waiting => weightAll waiting
decreasing_by
  all_goals
    simp only [weightAll, weightAll_append, weightAll_ofChildren, weight, Tree.size]
    omega

end Unwritten

namespace Tree

/-- The markup of the children of a node. -/
def innerHtml (t : HtmlTree) : Text :=
  Unwritten.write (Unwritten.ofChildren t.value.content t.children)

/-- The markup of a node; `verbatim` says that its parent writes texts without escapes. -/
def outerHtml (verbatim : Bool) (t : HtmlTree) : Text :=
  Unwritten.write [.tree verbatim t]

end Tree

end LocatedHtml
