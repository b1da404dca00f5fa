import LocatedHtml.Node

/-!
Several trees whose nodes can be told apart: every node has a number, and a number is never used
again. The parent of a node is the node that has it among its children.
-/

namespace LocatedHtml

/-- The number of a node. -/
abbrev NodeId := Nat

/-- A tree of numbered nodes. -/
abbrev NumberedTree := Tree (NodeId × Node)

namespace NumberedTree

/-- The number of the top. -/
def topId (t : NumberedTree) : NodeId := t.value.1

/-- The tree without its numbers. -/
def toHtml (t : NumberedTree) : HtmlTree := t.map Prod.snd

/-- The numbers of all nodes in document order. -/
def ids (t : NumberedTree) : List NodeId := t.subtrees.map topId

end NumberedTree

/-- Trees next to one another, the order of which means nothing, and the next number that is free. -/
structure Forest where
  roots : List NumberedTree := []
  next : NodeId := 0
  deriving Repr

namespace Forest

/-- Adds a tree, numbering its nodes in document order; the top gets the number that was next. -/
def plant (f : Forest) (t : HtmlTree) : Forest :=
  ⟨f.roots ++ [t.number f.next], f.next + t.size⟩

/-- All subtrees of all trees. -/
def subtrees (f : Forest) : List NumberedTree :=
  (Tree.walk (f.roots.map fun t => (0, t))).map Prod.snd

/-- The tree below a node, and the node with it. -/
def find? (f : Forest) (n : NodeId) : Option NumberedTree := f.subtrees.find? (·.value.1 == n)

/-- The tree below a node without its numbers. -/
def html? (f : Forest) (n : NodeId) : Option HtmlTree := (f.find? n).map NumberedTree.toHtml

/-- The numbers of the children of a node, in order. -/
def childIds (f : Forest) (n : NodeId) : List NodeId :=
  match f.find? n with
  | some t => t.children.map NumberedTree.topId
  | none => []

/-- The node that has a node among its children. -/
def parent? (f : Forest) (n : NodeId) : Option NumberedTree :=
  f.subtrees.find? fun t => t.children.any (·.value.1 == n)

/-- The whole tree that a node is in. -/
def rootOf? (f : Forest) (n : NodeId) : Option NumberedTree :=
  f.roots.find? fun t => (NumberedTree.ids t).contains n

/-- One line that says what a node is; nothing for a number without a node. -/
def description (f : Forest) (n : NodeId) : String :=
  match f.html? n with
  | some t => t.description
  | none => ""

end Forest

end LocatedHtml
