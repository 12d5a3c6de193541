import KiteCompiler.Ast.Kind
import KiteCompiler.Cst.Basic
import KiteCompiler.Text.Quoted

/-!
# Trees that are no syntax

A concrete syntax tree can have shapes that the grammar never makes. Reading one as abstract syntax fails at the first
such place, with a cause.
-/

namespace KiteCompiler

inductive Malformed.Cause where
  | syntaxError
  | missingChild (index : Nat)
  /-- The node is none of these kinds, one of which its parent needs. -/
  | expectedIn (kinds : List Cst.Kind) (parent : Cst.Kind)
  | expected (what : String)
  | unexpectedIn (context : String)
  | emptyQualifiedName
  | emptyClassType
  | wildcardBound (word : Text)
  | annotationValues (count : Nat)
  | castWithoutTypeOrOperand
  | literalToken (kind : Token.Kind)
  | unterminatedLiteral (text : Text)
  | callOf (kind : Ast.Kind)
  | qualifierIs (kind : Ast.Kind)
  | typeIs (kind : Ast.Kind)
  | creationOfNonClass
  | arrayWithoutDimensions
  | switchGroupWithoutLabels
  | declarationWithoutVariables
  | classExtends (count : Nat)
  | qualifiedThisCall
  | initializerModifier (word : Text)
  deriving DecidableEq, Repr

/-- Why a tree cannot be read, and at which node; there may be no tree at all. -/
inductive Malformed where
  | noTree
  | node (label : Cst.Label) (cause : Malformed.Cause)
  deriving DecidableEq, Repr

namespace Malformed

def Cause.message (label : Cst.Label) : Cause → Text
  | syntaxError => "syntax error in tree"
  | missingChild index => "missing child " ++ Text.ofNat index
  | expectedIn kinds parent =>
    "expected [" ++ Text.join " " (kinds.map fun k => Text.ofString k.name) ++ "] in " ++ parent.name
  | expected what => "expected " ++ Text.ofString what
  | unexpectedIn context => "unexpected " ++ Text.ofString label.kind.name ++ " in " ++ context
  | emptyQualifiedName => "empty qualified name"
  | emptyClassType => "empty class type"
  | wildcardBound word => "wildcard bound " ++ Text.quoted word
  | annotationValues count => "annotation with " ++ Text.ofNat count ++ " values"
  | castWithoutTypeOrOperand => "cast without type or operand"
  | literalToken kind => "literal token " ++ Text.ofString kind.name
  | unterminatedLiteral text => "unterminated literal " ++ text
  | callOf kind => "call of " ++ Text.ofString kind.name
  | qualifierIs kind => "qualifier is a " ++ Text.ofString kind.name ++ ", not a name"
  | typeIs kind => "type is a " ++ Text.ofString kind.name ++ ", not a name"
  | creationOfNonClass => "object creation of a non-class type"
  | arrayWithoutDimensions => "array creation without dimensions"
  | switchGroupWithoutLabels => "switch group without labels"
  | declarationWithoutVariables => "declaration without variables"
  | classExtends count => "class extends " ++ Text.ofNat count ++ " types"
  | qualifiedThisCall => "qualified this(...) call"
  | initializerModifier word => "initializer modifier " ++ Text.quoted word

/-- What the user reads. A node for a syntax error adds the message of that error. -/
def message (file : Text) : Malformed → Text
  | noTree => "malformed syntax tree: nil tree"
  | node label cause =>
    let reason := match label.kind, label.error with
      | .error, some e => ": " ++ e.message
      | _, _ => []
    "malformed syntax tree: " ++ label.span.first.text file ++ ": " ++ label.kind.name ++ ": "
      ++ cause.message label ++ reason

def kind : Malformed → Option Cst.Kind
  | noTree => none
  | node label _ => some label.kind

end Malformed

end KiteCompiler
