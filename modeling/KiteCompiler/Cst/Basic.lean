import KiteCompiler.Cst.Kind
import KiteCompiler.Cst.SyntaxError
import KiteCompiler.Tree

/-!
# Concrete syntax trees

A syntax tree follows the source: terminals carry their token, productions carry their parts in source order, and an
optional part that is not in the source is not in the tree. What could not be read is an `error` node.
-/

namespace KiteCompiler

/-- What a node of a syntax tree holds besides its children. -/
structure Cst.Label where
  kind : Cst.Kind
  span : Span
  token : Option Token := none
  error : Option SyntaxError := none
  deriving DecidableEq, Repr, Inhabited

abbrev Cst := Tree Cst.Label

namespace Cst

def kind (t : Cst) : Kind := t.label.kind

def span (t : Cst) : Span := t.label.span

/-- The bytes of the root's token, none if it has no token. -/
def literal (t : Cst) : Text := (t.label.token.map (·.text)).getD []

/-- The kind of the root's token, end of file if it has no token. -/
def tokenKind (t : Cst) : Token.Kind := (t.label.token.map (·.kind)).getD .eof

def has (t : Cst) (kind : Kind) : Bool := t.children.any fun c : Cst => c.kind == kind

def endingAt (t : Cst) (last : Position) : Cst :=
  .node { t.label with span := { t.label.span with last } } t.children

end Cst

end KiteCompiler
