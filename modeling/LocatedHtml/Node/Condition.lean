import LocatedHtml.Node

/-!
Conditions on nodes, and the nodes of a tree that meet one.
-/

namespace LocatedHtml

/-- A condition on a node. -/
inductive Condition where
  | named (name : String)
  | withAttribute (name : String)
  | every (parts : List Condition)
  | some (parts : List Condition)
  | element
  | text
  | comment
  | injected
  | closed
  deriving Repr

namespace Condition

mutual

/-- The node meets the condition; whether it has a parent matters for injected nodes. -/
def holds (node : Node) (hasParent : Bool) : Condition → Bool
  | .named name => node.content.elementName? == Option.some (Text.lowerName name.toList)
  | .withAttribute name => node.content.attributes.has name
  | .every parts => holdsEvery node hasParent parts
  | .some parts => holdsSome node hasParent parts
  | .element => node.content.isElement
  | .text => node.content.isText
  | .comment => node.content.isComment
  | .injected => node.isInjected hasParent
  | .closed => node.isClosed

/-- The node meets all of the conditions. -/
def holdsEvery (node : Node) (hasParent : Bool) : List Condition → Bool
  | [] => true
  | part :: rest => holds node hasParent part && holdsEvery node hasParent rest

/-- The node meets one of the conditions. -/
def holdsSome (node : Node) (hasParent : Bool) : List Condition → Bool
  | [] => false
  | part :: rest => holds node hasParent part || holdsSome node hasParent rest

end

/-- The condition together with being an element. -/
def onElements (p : Condition) : Condition := .every [.element, p]

end Condition

namespace Tree

/-- The nodes from the one at `index` of the document order down that meet the condition, each with
its own index. -/
def findAll (root : HtmlTree) (index : Nat) (p : Condition) : List (Nat × HtmlTree) :=
  let below := match root.visits.drop index with
    | [] => []
    | (depth, t) :: rest => ((depth, t) :: rest).take t.size
  below.zipIdx index |>.filterMap fun ((depth, t), i) =>
    if p.holds t.value (decide (0 < depth)) then some (i, t) else none

/-- The first of the nodes from the one at `index` down that meets the condition. -/
def find? (root : HtmlTree) (index : Nat) (p : Condition) : Option (Nat × HtmlTree) :=
  (root.findAll index p).head?

end Tree

end LocatedHtml
