import KiteCompiler.Text.Basic

/-!
# Kinds of syntax nodes

The nodes of the concrete syntax tree, from the compilation unit down to single names and operators.
-/

namespace KiteCompiler.Cst

/-- The kinds of syntax nodes. `error` stands where the source could not be read; `unknown` is no kind of the
grammar and only arises when a tree is edited by hand. -/
inductive Kind where
  | error | compilationUnit | packageDecl | importDecl | qualifiedName | identifier | operator | classDecl
  | interfaceDecl | annotationTypeDecl | extendsClause | ofClause | classBody | interfaceBody
  | annotationTypeBody | fieldDecl | constantDecl | methodDecl | interfaceMethodDecl | annotationMemberDecl
  | constructorDecl | initializer | variableDeclarator | formalParameters | formalParameter | varargs
  | throwsClause | defaultValue | constructorBody | explicitConstructorInvocation | modifiers | modifier
  | annotationUse | elementValuePair | type | primitiveType | classType | classTypeElement | voidType | dims
  | dim | typeArguments | wildcard | typeParameters | typeParameter | typeBound | block | localVarDecl
  | emptyStmt | exprStmt | ifStmt | whileStmt | doStmt | forStmt | forInit | forUpdate | forEachStmt | tryStmt
  | resourceSpec | resource | catchClause | catchType | finallyClause | switchStmt | switchGroup | switchLabel
  | synchronizedStmt | labeledStmt | breakStmt | continueStmt | returnStmt | throwStmt | assertStmt | assignment
  | conditional | binary | instanceOf | unary | cast | suffixed | fieldSuffix | indexSuffix | callSuffix
  | methodRefSuffix | newSuffix | classLiteralSuffix | postIncDecSuffix | literal | simpleName | thisRef
  | superRef | parens | objectCreation | arrayCreation | dimExpr | arrayInitializer | arguments | lambda
  | lambdaParameters | typeLiteral | typeReference | unknown
  deriving DecidableEq, Repr, Inhabited

namespace Kind

/-- The names of the kinds of the grammar, in their order. -/
def names : List String := [
  "Error", "CompilationUnit", "PackageDecl", "ImportDecl", "QualifiedName", "Identifier", "Operator", "ClassDecl",
  "InterfaceDecl", "AnnotationTypeDecl", "ExtendsClause", "OfClause", "ClassBody", "InterfaceBody",
  "AnnotationTypeBody", "FieldDecl", "ConstantDecl", "MethodDecl", "InterfaceMethodDecl", "AnnotationMemberDecl",
  "ConstructorDecl", "Initializer", "VariableDeclarator", "FormalParameters", "FormalParameter", "Varargs",
  "ThrowsClause", "DefaultValue", "ConstructorBody", "ExplicitConstructorInvocation", "Modifiers", "Modifier",
  "Annotation", "ElementValuePair", "Type", "PrimitiveType", "ClassType", "ClassTypeElement", "VoidType", "Dims", "Dim",
  "TypeArguments", "Wildcard", "TypeParameters", "TypeParameter", "TypeBound", "Block", "LocalVarDecl", "EmptyStmt",
  "ExprStmt", "IfStmt", "WhileStmt", "DoStmt", "ForStmt", "ForInit", "ForUpdate", "ForEachStmt", "TryStmt",
  "ResourceSpec", "Resource", "CatchClause", "CatchType", "FinallyClause", "SwitchStmt", "SwitchGroup", "SwitchLabel",
  "SynchronizedStmt", "LabeledStmt", "BreakStmt", "ContinueStmt", "ReturnStmt", "ThrowStmt", "AssertStmt", "Assignment",
  "Conditional", "Binary", "Instanceof", "Unary", "Cast", "Postfix", "FieldSuffix", "IndexSuffix", "CallSuffix",
  "MethodRefSuffix", "NewSuffix", "ClassLiteralSuffix", "PostIncDecSuffix", "Literal", "Name", "This", "Super",
  "Parens", "ObjectCreation", "ArrayCreation", "DimExpr", "ArrayInitializer", "Arguments", "Lambda", "LambdaParameters",
  "TypeLiteral", "TypeReference"]

def name (k : Kind) : String := names.getD k.ctorIdx "Unknown"

def ofName (n : String) : Kind := .ofNat (names.idxOf n)

end Kind

end KiteCompiler.Cst
