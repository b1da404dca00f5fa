import LocatedHtml.Forest.Edit

/-!
The nodes of a forest as they know one another: each has its children in order and, besides, its parent. A
change sets both sides of a link one after the other, and looks for a node among the children of its parent
before it takes the node out.
-/

namespace LocatedHtml

/-- A node with the nodes next to it. -/
structure LinkedNode where
  node : Node
  parent : Option NodeId := none
  children : List NodeId := []
  deriving Repr

/-- Nodes that are linked to one another; the number of a node is its place. -/
structure Links where
  nodes : List LinkedNode := []
  deriving Repr

namespace Links

/-- The node of a number by itself. -/
def node? (s : Links) (n : NodeId) : Option Node := (s.nodes[n]?).map (·.node)

/-- The parent that a node knows. -/
def parent? (s : Links) (n : NodeId) : Option NodeId := (s.nodes[n]?).bind (·.parent)

/-- The children that a node knows, in order. -/
def children (s : Links) (n : NodeId) : List NodeId := ((s.nodes[n]?).map (·.children)).getD []

/-- One line that says what a node is; nothing for a number without a node. -/
def description (s : Links) (n : NodeId) : String :=
  ((s.nodes[n]?).map fun v => v.node.description v.children.length).getD ""

/-- The same links with other content in a node. -/
def setContent (s : Links) (n : NodeId) (content : Content) : Links :=
  ⟨s.nodes.modify n fun v => { v with node := { v.node with content := content } }⟩

/-- The links after a node has got another parent or none; no list of children is touched. -/
def setParent (s : Links) (n : NodeId) (parent : Option NodeId) : Links :=
  ⟨s.nodes.modify n fun v => { v with parent := parent }⟩

/-- The links after a node has got another list of children; no parent is touched. -/
def setChildren (s : Links) (n : NodeId) (children : List NodeId) : Links :=
  ⟨s.nodes.modify n fun v => { v with children := children }⟩

/-- A new node without links, behind the others. -/
def create (s : Links) (node : Node) : Links := ⟨s.nodes ++ [{ node := node }]⟩

/-- The place of a node among the children of another one. -/
def indexOf (s : Links) (parent child : NodeId) : Except EditError Nat :=
  match (s.children parent).idxOf? child with
  | some i => .ok i
  | none => .error (.notAChild (s.description child) (s.description parent))

/-- Takes a node from its parent, if it has one. -/
def remove (s : Links) (n : NodeId) : Links × Option EditError :=
  match s.parent? n with
  | none => (s, none)
  | some parent =>
    match s.indexOf parent n with
    | .error e => (s, some e)
    | .ok i => ((s.setChildren parent ((s.children parent).eraseIdx i)).setParent n none, none)

/-- Puts a node behind the children of another one, after it has left its parent. -/
def append (s : Links) (parent child : NodeId) : Links × Option EditError :=
  match s.remove child with
  | (s, some e) => (s, some e)
  | (s, none) =>
    ((s.setChildren parent (s.children parent ++ [child])).setParent child (some parent), none)

/-- Puts a node before a child of another one, after it has left its parent. -/
def insertBefore (s : Links) (parent target child : NodeId) : Links × Option EditError :=
  match s.remove child with
  | (s, some e) => (s, some e)
  | (s, none) =>
    match s.indexOf parent target with
    | .error e => (s, some e)
    | .ok i =>
      ((s.setChildren parent ((s.children parent).insertIdx i child)).setParent child (some parent), none)

/-- Changes the text of a text or comment; any other node lets go of its children and gets a new text. -/
def setText (s : Links) (n : NodeId) (value : Text) : Links × Option EditError :=
  match (s.node? n).map Node.content with
  | none => (s, none)
  | some (.text _) => (s.setContent n (.text value), none)
  | some (.comment _) => (s.setContent n (.comment value), none)
  | some _ =>
    let alone := (s.children n).foldl (fun s child => s.setParent child none) s
    ((alone.setChildren n []).create ⟨.text value, none⟩).append n s.nodes.length

/-- Makes a change, and tells whether it was refused. -/
def edit (s : Links) : Edit → Links × Option EditError
  | .append parent child => s.append parent child
  | .insertBefore parent target child => s.insertBefore parent target child
  | .remove node => s.remove node
  | .setText node value => s.setText node value

end Links

namespace Forest

/-- What a node of the forest knows of the nodes next to it. -/
def linkedNode (f : Forest) (n : NodeId) : LinkedNode where
  node := ((f.find? n).map (·.value.2)).getD ⟨.document, none⟩
  parent := (f.parent? n).map NumberedTree.topId
  children := f.childIds n

/-- The nodes of the forest with their links. -/
def links (f : Forest) : Links := ⟨(List.range f.next).map f.linkedNode⟩

end Forest

end LocatedHtml
