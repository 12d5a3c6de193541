/-!
# Labelled trees

Finitely branching trees. Syntax trees, both as they are read and as they are understood, are such trees; what is done
to all their nodes is a `fold` or a look at the nodes in `preorder`.
-/

namespace KiteCompiler

universe u v

inductive Tree (α : Type u) where
  | node (label : α) (children : List (Tree α))
  deriving Inhabited

namespace Tree

variable {α : Type u} {β : Type v}

def label : Tree α → α
  | node a _ => a

def children : Tree α → List (Tree α)
  | node _ ts => ts

mutual

/-- Combines the label of every node with the results of its children. -/
def fold (f : α → List β → β) : Tree α → β
  | node a ts => f a (foldAll f ts)

def foldAll (f : α → List β → β) : List (Tree α) → List β
  | [] => []
  | t :: ts => fold f t :: foldAll f ts

end

theorem foldAll_eq_map (f : α → List β → β) (ts : List (Tree α)) : foldAll f ts = ts.map (fold f) := by
  induction ts with
  | nil => rfl
  | cons t ts ih => simp [foldAll, ih]

@[simp]
theorem fold_node (f : α → List β → β) (a : α) (ts : List (Tree α)) : fold f (node a ts) = f a (ts.map (fold f)) := by
  rw [fold, foldAll_eq_map]

/-- All labels, a node before its children and these from left to right. -/
def preorder : Tree α → List α := fold fun a below => a :: below.flatten

/-- All labels in `preorder`, each with its depth below a root at depth `depth`. -/
def rows (t : Tree α) (depth : Nat) : List (Nat × α) :=
  fold (fun a below depth => (depth, a) :: below.flatMap (· (depth + 1))) t depth

end Tree

end KiteCompiler
