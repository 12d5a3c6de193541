import KiteCompiler.Ast.Node

/-!
# Pieces of syntax

Every piece of syntax that a piece of syntax consists of, however deep it stands. Lists and optional parts are no pieces
of their own, what stands in them is.
-/

namespace KiteCompiler

namespace Ast

/-- A piece of syntax of any category. -/
abbrev Piece := (c : Category) × Ast c

/-- All pieces, the whole one first. -/
def subterms {c : Category} : Ast c → List Piece := fold fun t parts => match t with
  | nil | cons .. | absent | present _ => parts.flatten
  | _ => ⟨_, t⟩ :: parts.flatten

end Ast

/-- The pieces of syntax in a file. -/
def CompilationUnit.subterms (u : CompilationUnit) : List Ast.Piece := u.package.annotations.subterms ++ u.type.subterms

end KiteCompiler
