import KiteCompiler.Proofs.Parsing.ErrorNodes
import KiteCompiler.Proofs.Reading.Steps

/-!
# Faults of trees

A tree has a fault where there is an error node, and where an object of a primitive type is created. Readings are made
for trees whose nodes carry readings already; `Decorated.source` and `Branch.tree` lead back to the tree.
-/

namespace KiteCompiler

namespace Cst

/-- An object of a primitive type is created here. -/
def CreatesPrimitive (t : Cst) : Prop :=
  (t.kind = .objectCreation ∨ t.kind = .newSuffix) ∧
    ∃ created : Cst, created ∈ t.children ∧ created.kind = .type ∧ created.has .primitiveType

/-- The root cannot be read, whatever the nodes below it are. -/
def Faulty (t : Cst) : Prop := t.kind = .error ∨ t.CreatesPrimitive

/-- There is no fault in the tree. -/
def Sound (t : Cst) : Prop := t.Every fun u => ¬Faulty u

/-- A node for one token has no children. -/
def Bare (t : Cst) : Prop := t.kind.isInner = false → t.children = []

end Cst

namespace Ast

variable {α : Type}

/-- The concrete tree without its readings. -/
def Decorated.source (d : Decorated) : Cst := d.map Prod.fst

/-- The concrete tree of a node. -/
def Branch.tree (t : Branch) : Cst := .node t.source (t.children.map Decorated.source)

@[simp] theorem Decorated.tree_branch (d : Decorated) : d.branch.tree = d.source := by
  obtain ⟨⟨l, rs⟩, cs⟩ := d
  exact (Tree.map_node Prod.fst (l, rs) cs).symm

namespace Reading

theorem ofList_toList {c : Category} : ∀ as : Ast (.list c), ofList as.toList = as
  | .nil => by rw [toList, ofList]
  | .cons a as => by rw [toList, ofList, ofList_toList as]

theorem toList_ofList {c : Category} (as : List (Ast c)) : (ofList as).toList = as := by
  induction as with
  | nil => rw [ofList, toList]
  | cons a as ih => rw [ofList, toList, ih]

@[simp] theorem decorate_node (l : Cst.Label) (ts : List Cst) :
    decorate (.node l ts) = .node (l, readings ⟨l, ts.map decorate⟩) (ts.map decorate) := Tree.fold_node ..

@[simp] theorem source_decorate (t : Cst) : (decorate t).source = t := by
  induction t using Tree.induction with
  | step l ts ih =>
    rw [decorate_node, Decorated.source, Tree.map_node, List.map_map]
    exact congrArg (Tree.node l) ((List.map_congr_left ih).trans (List.map_id ts))

theorem kind_decorate (t : Cst) : (decorate t).kind = t.kind := by
  cases t
  rw [decorate_node]
  rfl

theorem read_decorate (t : Cst) (r : Role) : (decorate t).read r = readings (decorate t).branch r := by
  cases t
  rw [decorate_node]
  rfl

variable {t : Branch} {a : α}

theorem children_eq {ds : List Decorated} (h : children t = .ok ds) : ds = t.children := by
  obtain ⟨-, c', h⟩ := within_ok.1 h
  exact (rest_ok.1 h).2.1.symm

/-- What is made of the children of a node. -/
theorem of_children {f : List Decorated → Result α} (h : (children t >>= f) = .ok a) : f t.children = .ok a := by
  obtain ⟨ds, hds, h⟩ := Result.bind_ok.1 h
  exact children_eq hds ▸ h

/-- A node that is read only if it is of a kind. -/
theorem of_kind_test {k : Cst.Kind} {cause : Malformed.Cause} {x : Result α}
    (h : (if t.kind = k then x else t.fail cause) = .ok a) : t.kind = k ∧ x = .ok a := by
  split at h
  · exact ⟨‹_›, h⟩
  · exact nomatch h

/-- A node that is read only if it is of a kind, in the form of a test with an early end. -/
theorem of_kind_test' {k : Cst.Kind} {cause : Malformed.Cause} {f : PUnit → Result α}
    (h : (if t.kind ≠ k then t.fail cause >>= f else f ⟨⟩) = .ok a) : t.kind = k ∧ f ⟨⟩ = .ok a := by
  split at h
  · exact nomatch h
  · exact ⟨Decidable.not_not.1 ‹_›, h⟩

/-- With one more part than children, no children are left. -/
theorem rest_allParts {bound : Nat} {c c' : Cursor} {ns : List Text} (h : qualifiedName.allParts bound c = (.ok ns, c'))
    (hbound : c.rest.length < bound) : c'.rest = [] := by
  induction bound generalizing c ns with
  | zero => exact absurd hbound (Nat.not_lt_zero _)
  | succ bound ih =>
    obtain ⟨o, c₁, hpeek, h⟩ := bind_ok.1 h
    obtain ⟨rfl, rfl⟩ := peek_ok.1 hpeek
    split at h
    · next hnone =>
      obtain ⟨-, rfl⟩ := pure_ok.1 h
      simpa using hnone
    · obtain ⟨d, c₁, hnext, hread⟩ := bind_ok.1 h
      obtain ⟨-, rfl⟩ := next_ok.1 hnext
      obtain ⟨n, c₂, hn, hmore⟩ := bind_ok.1 hread
      obtain ⟨-, rfl⟩ := lift_ok.1 hn
      obtain ⟨ns', c₃, hparts, hpure⟩ := bind_ok.1 hmore
      obtain ⟨-, rfl⟩ := pure_ok.1 hpure
      exact ih hparts (Nat.lt_of_succ_lt_succ hbound)

end Reading

end Ast

end KiteCompiler
