import LocatedHtml.Forest.Links

/-!
Copies of nodes that know one another. A copy starts at the top of the tree that a node is in and goes down
with a stack of the nodes that are still to be copied, and a memo tells which node has become which.
-/

namespace LocatedHtml

/-- The copies that have been made: for each copied node its copy. -/
abbrev Memo := List (NodeId × NodeId)

/-- A tree that is being copied: the nodes still to be copied, each with the copy of its parent. -/
structure Cloning where
  links : Links
  memo : Memo
  ahead : List (NodeId × Option NodeId)
  deriving Repr

/-- Copies the next node, as the last child of the copy of its parent; the children of the node are next. -/
def Cloning.step (c : Cloning) : Cloning :=
  match c.ahead with
  | [] => c
  | (n, parent) :: ahead =>
    match c.links.node? n with
    | none => { c with ahead := ahead }
    | some node =>
      let clone := c.links.nodes.length
      let made := c.links.create node
      { links := match parent with
          | none => made
          | some p => (made.setChildren p (made.children p ++ [clone])).setParent clone (some p)
        memo := (n, clone) :: c.memo
        ahead := (c.links.children n).map (fun child => (child, some clone)) ++ ahead }

/-- What has been copied after some steps. -/
def Cloning.run : Nat → Cloning → Cloning
  | 0, c => c
  | steps + 1, c => run steps c.step

namespace Links

/-- The node some parents above a node, or the last one there is. -/
def climb (s : Links) : Nat → NodeId → NodeId
  | 0, n => n
  | steps + 1, n =>
    match s.parent? n with
    | none => n
    | some p => s.climb steps p

/-- The top of the tree that a node is in. No way up is longer than there are nodes. -/
def top (s : Links) (n : NodeId) : NodeId := s.climb s.nodes.length n

/-- Copies everything below a node and the node itself. No node is copied twice, so there are no more steps
than nodes. -/
def cloneTree (s : Links) (memo : Memo) (root : NodeId) : Links × Memo :=
  let done := Cloning.run s.nodes.length ⟨s, memo, [(root, none)]⟩
  (done.links, done.memo)

/-- Copies the tree of a node unless it has been copied, and looks the copy of the node up. -/
def copy (s : Links) (memo : Memo) (n : NodeId) : (Links × Memo) × Option NodeId :=
  let done := if (memo.lookup (s.top n)).isSome then (s, memo) else s.cloneTree memo (s.top n)
  (done, done.2.lookup n)

/-- Copies one node after another with one memo. -/
def copyAll (s : Links) (memo : Memo) : List NodeId → (Links × Memo) × List (Option NodeId)
  | [] => ((s, memo), [])
  | n :: rest =>
    let first := s.copy memo n
    let others := first.1.1.copyAll first.1.2 rest
    (others.1, first.2 :: others.2)

end Links

end LocatedHtml
