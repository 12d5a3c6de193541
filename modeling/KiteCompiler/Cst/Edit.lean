import KiteCompiler.Cst.Basic

/-!
# Editing syntax trees

Trees can be changed by hand to see what reading them makes of it. A node that is put into a second place stays the
same node: a later edit at one of its places shows at the other. So nodes carry an identity while they are edited.
-/

namespace KiteCompiler.Cst

/-- A syntax tree whose nodes have an identity. -/
abbrev Shared := Tree (Nat × Label)

/-- Where a node stands: the indices of children from the root on. -/
abbrev Address := List Nat

inductive Edit where
  /-- Leaves no tree at all. -/
  | discard
  | delete (address : Address)
  /-- Puts the node behind itself once more. -/
  | duplicate (address : Address)
  /-- Exchanges the node with its next sibling. -/
  | swap (address : Address)
  | setKind (address : Address) (kind : Kind)
  | setToken (address : Address) (token : Option (Token.Kind × Text))
  | clear (address : Address)
  /-- Adds a node without children as the last child. -/
  | append (address : Address) (kind : Kind) (token : Option (Token.Kind × Text)) (message : Option Text)
  /-- Adds the node at `source` as the last child. -/
  | copy (source address : Address)

namespace Shared

/-- Gives identities from `next` on to the nodes of a tree; also returns the first one that is free. -/
def number (t : Cst) (next : Nat) : Shared × Nat :=
  let visit (l : Label) (below : List (Nat → Shared × Nat)) (next : Nat) : Shared × Nat :=
    let (children, free) := below.foldl (fun (done, next) child =>
      let (c, free) := child next
      (done ++ [c], free)) ([], next + 1)
    (.node (next, l) children, free)
  t.fold visit next

def forget : Shared → Cst := Tree.fold fun (_, l) children => .node l children

def get? : Address → Shared → Option Shared
  | [], t => some t
  | i :: rest, t => t.children[i]?.bind (get? rest)

def update (identity : Nat) (change : Label → List Shared → Shared) : Shared → Shared :=
  Tree.fold fun (n, l) children => if n = identity then change l children else .node (n, l) children

end Shared

/-- A tree under edit, if there is one, and the next free identity. -/
structure Draft where
  tree : Option Shared
  next : Nat

namespace Draft

def ofCst (t : Cst) : Draft :=
  let (tree, next) := Shared.number t 0
  ⟨some tree, next⟩

/-- Changes the node at an address; nothing if there is none. -/
def change (d : Draft) (address : Address) (f : Label → List Shared → Option (Label × List Shared)) : Option Draft := do
  let tree ← d.tree
  let target ← Shared.get? address tree
  let identity := target.label.1
  let (label, children) ← f target.label.2 target.children
  return { d with tree := some (Shared.update identity (fun _ _ => .node (identity, label) children) tree) }

/-- Changes the siblings of the node at an address, given with its index; nothing if there is none. -/
def changeSiblings (d : Draft) (address : Address) (f : Nat → List Shared → Option (List Shared)) : Option Draft := do
  let index ← address.getLast?
  d.change address.dropLast fun l children => do
    let _ ← children[index]?
    return (l, ← f index children)

def tokenOf (span : Span) (t : Token.Kind × Text) : Token := ⟨t.1, t.2, span⟩

/-- Applies an edit; nothing if its address leads nowhere. -/
def apply (d : Draft) : Edit → Option Draft
  | .discard => some { d with tree := none }
  | .delete address => d.changeSiblings address fun i children => some (children.eraseIdx i)
  | .duplicate address => d.changeSiblings address fun i children => do
    return children.take (i + 1) ++ children.drop i
  | .swap address => d.changeSiblings address fun i children => do
    let a ← children[i]?
    let b ← children[i + 1]?
    return (children.set i b).set (i + 1) a
  | .setKind address kind => d.change address fun l children => some ({ l with kind }, children)
  | .setToken address token => d.change address fun l children =>
    some ({ l with token := token.map (tokenOf l.span) }, children)
  | .clear address => d.change address fun l _ => some (l, [])
  | .append address kind token message => do
    let d' ← d.change address fun l children =>
      let new : Label :=
        { kind, span := l.span, token := token.map (tokenOf l.span),
          error := message.map fun m => ⟨.stated m, l.span.first⟩ }
      some (l, children ++ [.node (d.next, new) []])
    return { d' with next := d.next + 1 }
  | .copy source address => do
    let node ← Shared.get? source (← d.tree)
    d.change address fun l children => some (l, children ++ [node])

end Draft

/-- The tree after some edits, if there is one; nothing if an edit leads nowhere. -/
def edit (t : Cst) (edits : List Edit) : Option (Option Cst) := do
  let d ← edits.foldlM Draft.apply (Draft.ofCst t)
  return d.tree.map Shared.forget

end KiteCompiler.Cst
