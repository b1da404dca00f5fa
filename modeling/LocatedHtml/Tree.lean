/-!
Ordered trees with a value at every node. The walks keep the trees still ahead in a list, so that
depth costs no recursion.
-/

namespace LocatedHtml

/-- A value with any number of trees below it, in order. -/
inductive Tree (α : Type) where
  | node (value : α) (children : List (Tree α))
  deriving Repr

namespace Tree

variable {α : Type}

/-- The value at the top. -/
def value : Tree α → α
  | .node v _ => v

/-- The trees directly below the top, in order. -/
def children : Tree α → List (Tree α)
  | .node _ cs => cs

mutual

/-- The number of nodes of a tree. -/
def size : Tree α → Nat
  | .node _ cs => sizeAll cs + 1

/-- The number of nodes of some trees together. -/
def sizeAll : List (Tree α) → Nat
  | [] => 0
  | t :: rest => size t + sizeAll rest

end

theorem size_pos (t : Tree α) : 0 < t.size := by
  cases t
  simp only [size]
  omega

theorem sizeAll_append (ts us : List (Tree α)) : sizeAll (ts ++ us) = sizeAll ts + sizeAll us := by
  induction ts with
  | nil => simp [sizeAll]
  | cons t ts ih => simp only [List.cons_append, sizeAll, ih, Nat.add_assoc]

theorem size_le_sizeAll {t : Tree α} {ts : List (Tree α)} (h : t ∈ ts) : t.size ≤ sizeAll ts := by
  induction ts with
  | nil => simp at h
  | cons u ts ih =>
    simp only [sizeAll]
    rcases List.mem_cons.1 h with rfl | h
    · omega
    · have := ih h
      omega

theorem size_lt_of_mem_children {t u : Tree α} (h : u ∈ t.children) : u.size < t.size := by
  cases t with
  | node v cs =>
    have := size_le_sizeAll h
    simp only [size]
    simp only [children] at this
    omega

mutual

/-- The tree with every value replaced by what `f` makes of it. -/
def map {β : Type} (f : α → β) : Tree α → Tree β
  | .node v cs => .node (f v) (mapAll f cs)

/-- The trees with every value replaced by what `f` makes of it. -/
def mapAll {β : Type} (f : α → β) : List (Tree α) → List (Tree β)
  | [] => []
  | t :: rest => map f t :: mapAll f rest

end

mutual

/-- The tree with its nodes numbered in document order, from `n` on. -/
def number (n : Nat) : Tree α → Tree (Nat × α)
  | .node v cs => .node (n, v) (numberAll (n + 1) cs)

/-- The trees with their nodes numbered in document order, from `n` on. -/
def numberAll (n : Nat) : List (Tree α) → List (Tree (Nat × α))
  | [] => []
  | t :: rest => number n t :: numberAll (n + size t) rest

end

/-- Trees ahead of a walk, each with the depth at which it stands. -/
abbrev Ahead (α : Type) := List (Nat × Tree α)

/-- The number of nodes that a walk has ahead. -/
def Ahead.size (ahead : Ahead α) : Nat := sizeAll (ahead.map Prod.snd)

/-- All subtrees of the trees ahead with their depths, every one before the trees below it. -/
def walk : Ahead α → Ahead α
  | [] => []
  | (depth, .node v cs) :: ahead =>
    (depth, .node v cs) :: walk (cs.map (fun c => (depth + 1, c)) ++ ahead)
termination_by ahead => Ahead.size ahead
decreasing_by
  simp [Ahead.size, sizeAll, size, sizeAll_append, Function.comp_def]

/-- All subtrees in document order, the tree itself first, with their depths below it. -/
def visits (t : Tree α) : List (Nat × Tree α) := walk [(0, t)]

/-- All subtrees in document order, the tree itself first. -/
def subtrees (t : Tree α) : List (Tree α) := t.visits.map Prod.snd

end Tree

end LocatedHtml
