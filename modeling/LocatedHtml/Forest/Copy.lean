import LocatedHtml.Forest.Basic

/-!
Copies of nodes. A node is copied with the whole tree it is in, and nodes of one tree that are copied
together are in one copy.
-/

namespace LocatedHtml

/-- A forest to which copies are added, and for the trees copied so far the number of the top with the
number of the top of its copy. -/
structure Copying where
  forest : Forest
  copied : List (NodeId × NodeId) := []
  deriving Repr

namespace Copying

/-- Copies the tree of a node unless it has been copied, and gives the number of the node's copy. -/
def copy (c : Copying) (n : NodeId) : Copying × NodeId :=
  match c.forest.rootOf? n with
  | none => (c, n)
  | some root =>
    let place := (NumberedTree.ids root).idxOf n
    match c.copied.lookup root.value.1 with
    | some base => (c, base + place)
    | none =>
      (⟨c.forest.plant (NumberedTree.toHtml root), (root.value.1, c.forest.next) :: c.copied⟩,
        c.forest.next + place)

/-- Copies one node after another. -/
def copyAll (c : Copying) : List NodeId → Copying × List NodeId
  | [] => (c, [])
  | n :: rest =>
    let first := c.copy n
    let others := copyAll first.1 rest
    (others.1, first.2 :: others.2)

end Copying

namespace Forest

/-- Copies a node. -/
def copy (f : Forest) (n : NodeId) : Forest × NodeId :=
  let done := Copying.copy ⟨f, []⟩ n
  (done.1.forest, done.2)

/-- Copies several nodes together. -/
def copyAll (f : Forest) (ns : List NodeId) : Forest × List NodeId :=
  let done := Copying.copyAll ⟨f, []⟩ ns
  (done.1.forest, done.2)

end Forest

end LocatedHtml
