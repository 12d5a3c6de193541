import KiteCompiler.Token.Basic

/-!
# Syntax errors

A syntax error is a cause at a place. The cause fixes the message, the kinds of tokens that would have been right, and
the token that was found.
-/

namespace KiteCompiler

/-- What was expected where no more exact kind of token can be named. -/
inductive Construct where
  | typeDeclaration | member | interfaceMember | annotationMember | selfOrSuper | type | createdType | memberName
  | superMember | expression | statement | switchLabel
  deriving DecidableEq, Repr, Inhabited

namespace Construct

def message : Construct → String
  | typeDeclaration => "expected class, interface or @interface declaration"
  | member => "expected member declaration"
  | interfaceMember => "expected interface member declaration"
  | annotationMember => "expected annotation member declaration"
  | selfOrSuper => "expected 'this' or 'super'"
  | type => "expected type"
  | createdType => "expected type after 'new'"
  | memberName => "expected identifier after '.'"
  | superMember => "expected '.' or '::' after 'super'"
  | expression => "expected expression"
  | statement => "expected statement"
  | switchLabel => "expected 'case' or 'default'"

/-- The kinds of tokens that may start the construct, as far as they are reported. -/
def expected : Construct → List Token.Kind
  | typeDeclaration => [.kwClass, .kwInterface]
  | type | createdType | memberName => [.identifier]
  | superMember => [.dot]
  | _ => []

end Construct

inductive SyntaxError.Cause where
  | invalidToken (token : Token)
  /-- A token of this kind is missing before the one that was found. -/
  | missing (kind : Token.Kind) (found : Token)
  | missingIdentifier (found : Token)
  | missingConstruct (construct : Construct) (found : Token)
  | unexpected (found : Token)
  | unexpectedAfterExpression (found : Token)
  /-- The second top-level type starts with this token. -/
  | secondTopLevelType (start : Token)
  | noTopLevelType (found : Token)
  | callWithoutName
  /-- `this` or `super` behind something that is no type name. -/
  | qualifiedWithoutType (word : Text)
  | classLiteralWithoutType
  | arrayReferenceWithoutType
  /-- Type arguments after this dot, and no call. -/
  | typeArgumentsWithoutCall (dot : Token)
  | dimensionsAndInitializer
  | noDimensions
  | tryWithoutHandler
  /-- The source nests deeper than the reader goes. -/
  | tooDeep
  /-- An error put into a tree by hand. -/
  | stated (message : Text)
  deriving DecidableEq, Repr, Inhabited

structure SyntaxError where
  cause : SyntaxError.Cause
  pos : Position
  deriving DecidableEq, Repr, Inhabited

namespace SyntaxError

namespace Cause

def message : Cause → Text
  | invalidToken token => "invalid token " ++ Token.clip token.text
  | missing kind found => "expected '" ++ kind.label ++ "', found " ++ found.describe
  | missingIdentifier found => "expected identifier, found " ++ found.describe
  | missingConstruct construct found => construct.message ++ ", found " ++ found.describe
  | unexpected found => "unexpected " ++ found.describe
  | unexpectedAfterExpression found => "unexpected " ++ found.describe ++ " after expression"
  | secondTopLevelType _ => "a file may declare only one top-level type"
  | noTopLevelType _ => Construct.typeDeclaration.message
  | callWithoutName => "method call needs a method name"
  | qualifiedWithoutType word => "qualified '" ++ word ++ "' needs a type name"
  | classLiteralWithoutType => "class literal needs a type name"
  | arrayReferenceWithoutType => "array constructor reference needs a type name"
  | typeArgumentsWithoutCall _ => "expected method arguments after explicit type arguments"
  | dimensionsAndInitializer => "array creation with both dimension expressions and initializer"
  | noDimensions => "array creation needs a dimension expression or an initializer"
  | tryWithoutHandler => "try without catch, finally or resources"
  | tooDeep => "nesting too deep"
  | stated message => message

/-- The kinds of tokens that would have been right. -/
def expected : Cause → List Token.Kind
  | missing kind _ => [kind]
  | missingIdentifier _ => [.identifier]
  | missingConstruct construct _ => construct.expected
  | noTopLevelType _ => [.kwClass, .kwInterface, .atSign]
  | typeArgumentsWithoutCall _ => [.lparen]
  | noDimensions => [.lbrace]
  | _ => []

def found : Cause → Option Token
  | invalidToken t | missing _ t | missingIdentifier t | missingConstruct _ t | unexpected t
  | unexpectedAfterExpression t | secondTopLevelType t | noTopLevelType t | typeArgumentsWithoutCall t => some t
  | _ => none

end Cause

def message (e : SyntaxError) : Text := e.cause.message

def text (file : Text) (e : SyntaxError) : Text := e.pos.text file ++ ": " ++ e.message

end SyntaxError

end KiteCompiler
