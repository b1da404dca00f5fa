import LocatedHtml.Forest.Basic

/-!
Changes to a forest. A node that is put somewhere leaves its old place first, also when putting it
fails. No operation takes a node out of the forest: what is removed from a tree becomes a tree of its
own. To put a node below itself leaves it detached.
-/

namespace LocatedHtml

/-- Why a change is refused; nodes are given by their descriptions. -/
inductive EditError where
  | notAChild (target parent : String)
  deriving DecidableEq, Repr

/-- The wording of an error. -/
def EditError.message : EditError → String
  | .notAChild target parent => target ++ " is not a child of " ++ parent

namespace NumberedTree

mutual

/-- The tree of the given number below the top, and the rest without it. -/
def takeBelow (n : NodeId) : NumberedTree → Option (NumberedTree × NumberedTree)
  | .node v cs => (takeFrom n cs).map fun (taken, rest) => (taken, .node v rest)

/-- The tree of the given number among some trees and below them, and the rest without it. -/
def takeFrom (n : NodeId) : List NumberedTree → Option (NumberedTree × List NumberedTree)
  | [] => none
  | t :: ts =>
    if t.value.1 = n then some (t, ts)
    else match takeBelow n t with
      | some (taken, rest) => some (taken, rest :: ts)
      | none => (takeFrom n ts).map fun (taken, rest) => (taken, t :: rest)

end

mutual

/-- Some trees in place of the tree of the given number, below the top. -/
def substituteBelow (n : NodeId) (change : NumberedTree → List NumberedTree) :
    NumberedTree → NumberedTree
  | .node v cs => .node v (substitute n change cs)

/-- Some trees in place of the tree of the given number, among some trees and below them. -/
def substitute (n : NodeId) (change : NumberedTree → List NumberedTree) :
    List NumberedTree → List NumberedTree
  | [] => []
  | t :: ts =>
    (if t.value.1 = n then change t else [substituteBelow n change t]) ++ substitute n change ts

end

/-- The tree with a tree behind its children. -/
def addLast (child t : NumberedTree) : NumberedTree := .node t.value (t.children ++ [child])

/-- The tree with a tree before the child of the given number. -/
def addBefore (target : NodeId) (child t : NumberedTree) : NumberedTree :=
  .node t.value
    (t.children.takeWhile (·.value.1 != target) ++
      child :: t.children.dropWhile (·.value.1 != target))

/-- The tree with another node at its top. -/
def withContent (content : Content) (t : NumberedTree) : NumberedTree :=
  .node (t.value.1, { t.value.2 with content := content }) t.children

mutual

/-- What takes the place of a tree when injected elements leave their children in theirs. -/
def splice (hasParent : Bool) : NumberedTree → List NumberedTree
  | .node v cs =>
    if v.2.isInjected hasParent then spliceAll cs else [.node v (spliceAll cs)]

/-- What takes the place of the children of a node. -/
def spliceAll : List NumberedTree → List NumberedTree
  | [] => []
  | t :: ts => splice true t ++ spliceAll ts

end

/-- The injected elements of a tree, in document order, without their children. -/
def injected (hasParent : Bool) (t : NumberedTree) : List NumberedTree :=
  t.visits.filterMap fun (depth, u) =>
    if u.value.2.isInjected (hasParent || decide (0 < depth)) then some (.node u.value []) else none

end NumberedTree

namespace Forest

open NumberedTree

/-- Makes a node the top of a tree of its own. -/
def detach (f : Forest) (n : NodeId) : Forest :=
  match takeFrom n f.roots with
  | some (t, rest) => { f with roots := t :: rest }
  | none => f

/-- Puts a node behind the children of another one. -/
def append (f : Forest) (parent child : NodeId) : Forest :=
  match takeFrom child f.roots with
  | none => f
  | some (t, rest) =>
    if ({ f with roots := rest }.find? parent).isSome then
      { f with roots := substitute parent (fun p => [addLast t p]) rest }
    else { f with roots := t :: rest }

/-- Puts a node before a child of another one; what is not such a child is an error. -/
def insertBefore (f : Forest) (parent target child : NodeId) : Forest × Option EditError :=
  match takeFrom child f.roots with
  | none => (f, none)
  | some (t, rest) =>
    if ({ f with roots := rest }.childIds parent).contains target then
      ({ f with roots := substitute parent (fun p => [addBefore target t p]) rest }, none)
    else
      let detached := { f with roots := t :: rest }
      (detached, some (.notAChild (detached.description target) (detached.description parent)))

/-- Changes the text of a text or comment; any other node gets a new text as its only child. -/
def setText (f : Forest) (n : NodeId) (value : Text) : Forest :=
  match f.find? n with
  | none => f
  | some t =>
    match t.value.2.content with
    | .text _ => { f with roots := substitute n (fun t => [withContent (.text value) t]) f.roots }
    | .comment _ =>
      { f with roots := substitute n (fun t => [withContent (.comment value) t]) f.roots }
    | _ =>
      let leaf : NumberedTree := .node (f.next, ⟨.text value, none⟩) []
      { roots := substitute n (fun t => [.node t.value [leaf]]) f.roots ++ t.children
        next := f.next + 1 }

/-- Takes the injected elements from a node down out of their tree, leaving their children in their
places, and tells how many there were. -/
def removeInjected (f : Forest) (n : NodeId) : Forest × Nat :=
  match f.find? n with
  | none => (f, 0)
  | some t =>
    let hasParent := (f.parent? n).isSome
    let removed := injected hasParent t
    ({ f with roots := substitute n (splice hasParent) f.roots ++ removed }, removed.length)

end Forest

/-- A change that can be asked for. -/
inductive Edit where
  | append (parent child : NodeId)
  | insertBefore (parent target child : NodeId)
  | remove (node : NodeId)
  | setText (node : NodeId) (value : Text)
  deriving DecidableEq, Repr

/-- Makes a change, and tells whether it was refused. -/
def Forest.edit (f : Forest) : Edit → Forest × Option EditError
  | .append parent child => (f.append parent child, none)
  | .insertBefore parent target child => f.insertBefore parent target child
  | .remove node => (f.detach node, none)
  | .setText node value => (f.setText node value, none)

end LocatedHtml
