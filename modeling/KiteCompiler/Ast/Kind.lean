/-!
# Kinds of AST nodes
-/

namespace KiteCompiler.Ast

/-- The kinds of nodes of the abstract syntax tree. `invalid` is the kind of what is no node: lists and optional
parts. -/
inductive Kind where
  | invalid | compilationUnit | packageDecl | importDecl | qualifiedName | classDecl | interfaceDecl
  | annotationTypeDecl | modifier | fieldDecl | constantDecl | variableDeclarator | arrayDim | methodDecl
  | interfaceMethodDecl | annotationMemberDecl | constructorDecl | initializerDecl | parameter
  | markerAnnotationUse | singleMemberAnnotationUse | normalAnnotationUse | memberValuePair | blockStmt
  | localVarDeclStmt | emptyStmt | exprStmt | ifStmt | whileStmt | doStmt | forStmt | forEachStmt | tryStmt
  | resource | catchClause | catchParameter | switchStmt | switchGroup | switchLabel | synchronizedStmt
  | labeledStmt | breakStmt | continueStmt | returnStmt | throwStmt | assertStmt | explicitConstructorInvocation
  | integerLiteralExpr | longLiteralExpr | doubleLiteralExpr | charLiteralExpr | stringLiteralExpr
  | booleanLiteralExpr | nullLiteralExpr | nameExpr | fieldAccessExpr | arrayAccessExpr | methodInvocationExpr
  | methodReferenceExpr | objectCreationExpr | arrayCreationExpr | arrayCreationLevel | arrayInitializerExpr
  | lambdaExpr | thisExpr | superExpr | typeLiteralExpr | typeExpr | binaryExpr | unaryExpr | assignExpr
  | conditionalExpr | castExpr | instanceOfExpr | enclosedExpr | primitiveType | classType | arrayType
  | wildcardType | voidType | typeParameter | exceptionType
  deriving DecidableEq, Repr, Inhabited

namespace Kind

/-- The names of the kinds, in their order. -/
def names : List String := [
  "Invalid", "CompilationUnit", "PackageDecl", "ImportDecl", "QualifiedName", "ClassDecl", "InterfaceDecl",
  "AnnotationTypeDecl", "Modifier", "FieldDecl", "ConstantDecl", "VariableDeclarator", "ArrayDim", "MethodDecl",
  "InterfaceMethodDecl", "AnnotationMemberDecl", "ConstructorDecl", "InitializerDecl", "Parameter", "MarkerAnnotation",
  "SingleMemberAnnotation", "NormalAnnotation", "MemberValuePair", "BlockStmt", "LocalVarDeclStmt", "EmptyStmt",
  "ExprStmt", "IfStmt", "WhileStmt", "DoStmt", "ForStmt", "ForEachStmt", "TryStmt", "Resource", "CatchClause",
  "CatchParameter", "SwitchStmt", "SwitchGroup", "SwitchLabel", "SynchronizedStmt", "LabeledStmt", "BreakStmt",
  "ContinueStmt", "ReturnStmt", "ThrowStmt", "AssertStmt", "ExplicitConstructorInvocation", "IntegerLiteralExpr",
  "LongLiteralExpr", "DoubleLiteralExpr", "CharLiteralExpr", "StringLiteralExpr", "BooleanLiteralExpr",
  "NullLiteralExpr", "NameExpr", "FieldAccessExpr", "ArrayAccessExpr", "MethodInvocationExpr", "MethodReferenceExpr",
  "ObjectCreationExpr", "ArrayCreationExpr", "ArrayCreationLevel", "ArrayInitializerExpr", "LambdaExpr", "ThisExpr",
  "SuperExpr", "TypeLiteralExpr", "TypeExpr", "BinaryExpr", "UnaryExpr", "AssignExpr", "ConditionalExpr", "CastExpr",
  "InstanceOfExpr", "EnclosedExpr", "PrimitiveType", "ClassType", "ArrayType", "WildcardType", "VoidType",
  "TypeParameter", "ExceptionType"]

def name (k : Kind) : String := names.getD k.ctorIdx "Invalid"

end Kind

end KiteCompiler.Ast
