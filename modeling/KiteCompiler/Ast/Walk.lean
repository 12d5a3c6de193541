import KiteCompiler.Ast.TypeText

/-!
# Walks over the AST

A walk visits the nodes of a tree before their children and knows the ancestors of each.
-/

namespace KiteCompiler

/-- A node met on a walk, with its ancestors from the nearest outwards. -/
structure Visit where
  node : Node
  ancestors : List Node

namespace Visit

def parent (v : Visit) : Option Node := v.ancestors.head?

def depth (v : Visit) : Nat := v.ancestors.length

end Visit

namespace Node

def declared? : Node → Option Ast.Declared
  | term (.classDecl place h ps n namePlace base is ms) =>
    some (Ast.declared (.classDecl place h ps n namePlace base is ms))
  | term (.interfaceDecl place h ps n namePlace bases ms) =>
    some (Ast.declared (.interfaceDecl place h ps n namePlace bases ms))
  | term (.annotationTypeDecl place h n namePlace ms) =>
    some (Ast.declared (.annotationTypeDecl place h n namePlace ms))
  | _ => none

/-- The walk over a tree; the children of nodes that are to be skipped are left out. -/
def walk (isSkipped : Node → Bool) (t : Tree Node) : List Visit :=
  let visit (n : Node) (below : List (List Node → List Visit)) (ancestors : List Node) : List Visit :=
    ⟨n, ancestors⟩ :: if isSkipped n then [] else below.flatMap (· (n :: ancestors))
  t.fold visit []

def names (t : Tree Node) : List QualifiedName :=
  t.preorder.filterMap fun
    | name q => some q
    | _ => none

end Node

/-- The innermost type declaration around a node. -/
def Visit.enclosingType (v : Visit) : Option Ast.Declared := v.ancestors.findSome? Node.declared?

def Ast.segmentNames : {c : Category} → Ast c → List Text
  | _, segment _ scope _ n _ _ => segmentNames scope ++ [n]
  | _, present t => segmentNames t
  | _, _ => []

end KiteCompiler
