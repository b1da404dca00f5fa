import LocatedHtml.Forest.Links

/-!
Injected elements taken out of a tree along its links. Which nodes are to go is told before the first of them
does; then each of them puts its children in front of itself, wherever it has come to stand, and leaves.
-/

namespace LocatedHtml

/-- Why the injected elements are not taken out. -/
inductive SpliceError where
  | refused (cause : EditError)
  /-- There is no node that the children of the element could go to. -/
  | withoutParent
  deriving DecidableEq, Repr

namespace Links

/-- The nodes of a walk that has some nodes ahead, as many as there are steps. -/
def walkFrom (s : Links) : Nat → List NodeId → List NodeId
  | 0, _ => []
  | _ + 1, [] => []
  | steps + 1, n :: ahead => n :: s.walkFrom steps (s.children n ++ ahead)

/-- A node and all nodes below it in document order. No walk has more steps than there are nodes. -/
def walk (s : Links) (n : NodeId) : List NodeId := s.walkFrom s.nodes.length [n]

/-- True of a structural element that stands in a tree without having a place in the source. -/
def isInjected (s : Links) (n : NodeId) : Bool :=
  ((s.node? n).map fun node => node.isInjected (s.parent? n).isSome).getD false

/-- Puts some nodes before a child of a node, one after the other. -/
def insertAll (s : Links) (parent target : NodeId) : List NodeId → Links × Option EditError
  | [] => (s, none)
  | child :: rest =>
    match s.insertBefore parent target child with
    | (s, some e) => (s, some e)
    | (s, none) => s.insertAll parent target rest

/-- Takes a node out of its tree, its children staying in its place. -/
def spliceOut (s : Links) (n : NodeId) : Links × Option SpliceError :=
  match s.parent? n, s.children n with
  | none, [] => (s, none)
  | none, child :: _ =>
    match s.remove child with
    | (s, some e) => (s, some (.refused e))
    | (s, none) => (s, some .withoutParent)
  | some parent, children =>
    match s.insertAll parent n children with
    | (s, some e) => (s, some (.refused e))
    | (s, none) => ((s.remove n).1, (s.remove n).2.map .refused)

/-- Takes one node after another out of its tree. -/
def spliceAll (s : Links) : List NodeId → Links × Option SpliceError
  | [] => (s, none)
  | n :: rest =>
    match s.spliceOut n with
    | (s, some e) => (s, some e)
    | (s, none) => s.spliceAll rest

/-- Takes the injected elements from a node down out of their tree, leaving their children in their places,
and tells how many there were. -/
def removeInjected (s : Links) (n : NodeId) : Links × Except SpliceError Nat :=
  let removed := (s.walk n).filter s.isInjected
  match s.spliceAll removed with
  | (s, some e) => (s, .error e)
  | (s, none) => (s, .ok removed.length)

end Links

end LocatedHtml
