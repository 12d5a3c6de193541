import KiteCompiler.Ast.Basic
import KiteCompiler.Tree

/-!
# The AST as a tree of nodes

`Ast.forest` forgets the categories: every piece of syntax becomes a tree of `Node`s, with optional parts that are
absent left out. Dumps, walks and checks work on these trees.
-/

namespace KiteCompiler

inductive Node where
  | unit (unit : CompilationUnit)
  | package (package : PackageDecl)
  | importDecl (declaration : ImportDecl)
  | name (name : QualifiedName)
  | modifier (modifier : Modifier)
  | term {c : Category} (term : Ast c)

namespace Ast

def kind : {c : Category} → Ast c → Kind
  | _, nil | _, cons .. | _, absent | _, present .. | _, header .. => .invalid
  | _, primitive .. => .primitiveType
  | _, classRef a | _, ofReference a | _, ofArrayElements a | _, ofAnnotationUse a | _, blockBody a | _, exprBody a
  | _, ofBlock a | _, ofVariables a | _, ofTypeDecl a | _, ofField a | _, ofConstant a => kind a
  | _, array .. => .arrayType
  | _, wildcard .. => .wildcardType
  | _, void _ => .voidType
  | _, segment .. => .classType
  | _, typeParameter .. => .typeParameter
  | _, exception .. => .exceptionType
  | _, dim .. => .arrayDim
  | _, marker .. => .markerAnnotationUse
  | _, single .. => .singleMemberAnnotationUse
  | _, normal .. => .normalAnnotationUse
  | _, memberValue .. => .memberValuePair
  | _, literal _ (.integer _) => .integerLiteralExpr
  | _, literal _ (.long _) => .longLiteralExpr
  | _, literal _ (.double _) => .doubleLiteralExpr
  | _, literal _ (.char _) => .charLiteralExpr
  | _, literal _ (.string _) => .stringLiteralExpr
  | _, literal _ (.boolean _) => .booleanLiteralExpr
  | _, literal _ .null => .nullLiteralExpr
  | _, name .. => .nameExpr
  | _, access .. => .fieldAccessExpr
  | _, call .. => .methodInvocationExpr
  | _, index .. => .arrayAccessExpr
  | _, methodRef .. => .methodReferenceExpr
  | _, typeExpr .. => .typeExpr
  | _, objectCreation .. => .objectCreationExpr
  | _, arrayCreation .. => .arrayCreationExpr
  | _, level .. => .arrayCreationLevel
  | _, arrayElements .. => .arrayInitializerExpr
  | _, lambda .. => .lambdaExpr
  | _, thisRef .. => .thisExpr
  | _, superRef .. => .superExpr
  | _, typeLiteral .. => .typeLiteralExpr
  | _, binary .. => .binaryExpr
  | _, unary .. => .unaryExpr
  | _, assign .. => .assignExpr
  | _, conditional .. => .conditionalExpr
  | _, cast .. => .castExpr
  | _, instanceOf .. => .instanceOfExpr
  | _, enclosed .. => .enclosedExpr
  | _, block .. => .blockStmt
  | _, emptyStmt _ => .emptyStmt
  | _, exprStmt .. => .exprStmt
  | _, ifStmt .. => .ifStmt
  | _, whileStmt .. => .whileStmt
  | _, doStmt .. => .doStmt
  | _, forStmt .. => .forStmt
  | _, forEachStmt .. => .forEachStmt
  | _, tryStmt .. => .tryStmt
  | _, switchStmt .. => .switchStmt
  | _, synchronizedStmt .. => .synchronizedStmt
  | _, labeledStmt .. => .labeledStmt
  | _, breakStmt .. => .breakStmt
  | _, continueStmt .. => .continueStmt
  | _, returnStmt .. => .returnStmt
  | _, throwStmt .. => .throwStmt
  | _, assertStmt .. => .assertStmt
  | _, resource .. => .resource
  | _, catchClause .. => .catchClause
  | _, catchParameter .. => .catchParameter
  | _, switchGroup .. => .switchGroup
  | _, switchLabel .. => .switchLabel
  | _, declarator .. => .variableDeclarator
  | .variableDecl .field, variableDecl .. => .fieldDecl
  | .variableDecl .constant, variableDecl .. => .constantDecl
  | .variableDecl .localVariable, variableDecl .. => .localVarDeclStmt
  | _, parameter .. => .parameter
  | _, classDecl .. => .classDecl
  | _, interfaceDecl .. => .interfaceDecl
  | _, annotationTypeDecl .. => .annotationTypeDecl
  | _, methodDecl _ false .. => .methodDecl
  | _, methodDecl _ true .. => .interfaceMethodDecl
  | _, annotationMemberDecl .. => .annotationMemberDecl
  | _, constructorDecl .. => .constructorDecl
  | _, constructorCall .. => .explicitConstructorInvocation
  | _, initializerDecl .. => .initializerDecl

def place : {c : Category} → Ast c → Place
  | _, nil | _, cons .. | _, absent | _, present .. | _, header .. => .none
  | _, primitive p .. | _, array p .. | _, wildcard p .. | _, void p | _, segment p .. | _, typeParameter p ..
  | _, exception p .. | _, dim p .. | _, marker p .. | _, single p .. | _, normal p .. | _, memberValue p ..
  | _, literal p _ | _, name p _ | _, access p .. | _, call p .. | _, index p .. | _, methodRef p ..
  | _, typeExpr p .. | _, objectCreation p .. | _, arrayCreation p .. | _, level p .. | _, arrayElements p ..
  | _, lambda p .. | _, thisRef p _ | _, superRef p _ | _, typeLiteral p _ | _, binary p .. | _, unary p ..
  | _, assign p .. | _, conditional p .. | _, cast p .. | _, instanceOf p .. | _, enclosed p .. | _, block p ..
  | _, emptyStmt p | _, exprStmt p .. | _, ifStmt p .. | _, whileStmt p .. | _, doStmt p .. | _, forStmt p ..
  | _, forEachStmt p .. | _, tryStmt p .. | _, switchStmt p .. | _, synchronizedStmt p .. | _, labeledStmt p ..
  | _, breakStmt p _ | _, continueStmt p _ | _, returnStmt p _ | _, throwStmt p _ | _, assertStmt p ..
  | _, resource p .. | _, catchClause p .. | _, catchParameter p .. | _, switchGroup p .. | _, switchLabel p _
  | _, declarator p .. | _, variableDecl p .. | _, parameter p .. | _, classDecl p .. | _, interfaceDecl p ..
  | _, annotationTypeDecl p .. | _, methodDecl p .. | _, annotationMemberDecl p .. | _, constructorDecl p ..
  | _, constructorCall p .. | _, initializerDecl p .. => p
  | _, classRef a | _, ofReference a | _, ofArrayElements a | _, ofAnnotationUse a | _, blockBody a | _, exprBody a
  | _, ofBlock a | _, ofVariables a | _, ofTypeDecl a | _, ofField a | _, ofConstant a => place a

/-- The plain properties of a node by name, in the order of their names. A text that is empty and a flag that is not
set do not show. -/
def properties : {c : Category} → Ast c → List (String × Text)
  | _, primitive _ _ n | _, typeParameter _ _ n _ | _, memberValue _ n _ | _, name _ n | _, access _ _ _ n
  | _, methodRef _ _ _ n | _, resource _ _ _ n _ | _, catchParameter _ _ _ n | _, declarator _ n _ _
  | _, classDecl _ _ _ n _ _ _ _ | _, interfaceDecl _ _ _ n _ _ _ | _, annotationTypeDecl _ _ n _ _
  | _, methodDecl _ _ _ _ _ n _ _ _ _ | _, annotationMemberDecl _ _ _ n _ _ | _, constructorDecl _ _ _ n _ _ _ _ =>
    [("Name", n)]
  | _, segment _ _ _ n _ diamond => [("Diamond", flag diamond), ("Name", n)]
  | _, parameter _ _ _ n _ varargs _ => [("Name", n), ("Varargs", flag varargs)]
  | _, literal _ (.integer t) | _, literal _ (.long t) | _, literal _ (.double t) | _, literal _ (.char t)
  | _, literal _ (.string t) => [("Value", t)]
  | _, literal _ (.boolean b) => [("Value", flag b)]
  | _, objectCreation _ _ _ _ _ body => [("Anonymous", flag body.toOption.isSome)]
  | _, lambda _ _ parenthesized _ => [("Parenthesized", flag parenthesized)]
  | _, binary _ operator _ _ | _, assign _ operator _ _ => [("Op", operator)]
  | _, unary _ operator behind _ => [("Op", operator), ("Postfix", flag behind)]
  | _, labeledStmt _ label _ | _, breakStmt _ label | _, continueStmt _ label => [("Label", label)]
  | _, constructorCall _ isThis _ _ _ => [("This", flag isThis)]
  | _, initializerDecl _ isStatic _ => [("Static", flag isStatic)]
  | _, _ => []
where
  /-- A flag that is set is written `true`. -/
  flag (b : Bool) : Text := if b then "true" else []

def modifierTrees (ms : List Modifier) : List (Tree Node) := ms.map fun m => .node (.modifier m) []

def nameTree (q : QualifiedName) : Tree Node := .node (.name q) []

/-- What `f` makes of a piece of syntax and of what it makes of the parts of the piece, in order. -/
def fold {α : Type} (f : {c : Category} → Ast c → List α → α) : {c : Category} → Ast c → α
  | _, t@nil | _, t@absent | _, t@(void _) | _, t@(marker ..) | _, t@(literal ..) | _, t@(name ..) | _, t@(thisRef ..)
  | _, t@(superRef ..) | _, t@(emptyStmt _) | _, t@(breakStmt ..) | _, t@(continueStmt ..) => f t []
  | _, t@(present a) | _, t@(primitive _ a _) | _, t@(classRef a) | _, t@(exception _ a) | _, t@(dim _ a)
  | _, t@(single _ _ a) | _, t@(normal _ _ a) | _, t@(memberValue _ _ a) | _, t@(header a _) | _, t@(ofReference a)
  | _, t@(typeExpr _ a) | _, t@(arrayElements _ a) | _, t@(ofArrayElements a) | _, t@(ofAnnotationUse a)
  | _, t@(blockBody a) | _, t@(exprBody a) | _, t@(typeLiteral _ a) | _, t@(unary _ _ _ a) | _, t@(enclosed _ a)
  | _, t@(block _ a) | _, t@(ofBlock a) | _, t@(ofVariables a) | _, t@(exprStmt _ a) | _, t@(labeledStmt _ _ a)
  | _, t@(returnStmt _ a) | _, t@(throwStmt _ a) | _, t@(switchLabel _ a) | _, t@(ofTypeDecl a) | _, t@(ofField a)
  | _, t@(ofConstant a) | _, t@(initializerDecl _ _ a) => f t [fold f a]
  | _, t@(cons a b) | _, t@(array _ a b) | _, t@(typeParameter _ a _ b) | _, t@(access _ a b _) | _, t@(call _ a b)
  | _, t@(index _ a b) | _, t@(methodRef _ a b _) | _, t@(level _ a b) | _, t@(lambda _ a _ b)
  | _, t@(binary _ _ a b) | _, t@(assign _ _ a b) | _, t@(cast _ a b) | _, t@(instanceOf _ a b)
  | _, t@(whileStmt _ a b) | _, t@(doStmt _ a b) | _, t@(switchStmt _ a b) | _, t@(synchronizedStmt _ a b)
  | _, t@(assertStmt _ a b) | _, t@(catchClause _ a b) | _, t@(catchParameter _ a b _) | _, t@(switchGroup _ a b)
  | _, t@(declarator _ _ a b) | _, t@(annotationTypeDecl _ a _ _ b) => f t [fold f a, fold f b]
  | _, t@(wildcard _ a b c) | _, t@(segment _ a b _ c _) | _, t@(arrayCreation _ a b c) | _, t@(conditional _ a b c)
  | _, t@(ifStmt _ a b c) | _, t@(forEachStmt _ a b c) | _, t@(resource _ a b _ c) | _, t@(variableDecl _ a b c)
  | _, t@(constructorCall _ _ a b c) => f t [fold f a, fold f b, fold f c]
  | _, t@(tryStmt _ a b c d) | _, t@(parameter _ a b _ d _ c) | _, t@(interfaceDecl _ a b _ _ c d)
  | _, t@(annotationMemberDecl _ a b _ c d) => f t [fold f a, fold f b, fold f c, fold f d]
  | _, t@(objectCreation _ a b c d e) | _, t@(forStmt _ a b c d e) | _, t@(classDecl _ a b _ _ c d e) =>
    f t [fold f a, fold f b, fold f c, fold f d, fold f e]
  | _, t@(constructorDecl _ a b _ c d e h) => f t [fold f a, fold f b, fold f c, fold f d, fold f e, fold f h]
  | _, t@(methodDecl _ _ a b c _ d e h i) =>
    f t [fold f a, fold f b, fold f c, fold f d, fold f e, fold f h, fold f i]

/-- The trees of a piece of syntax: one for a node, one for each element of a list, none for an absent part. -/
def forest {c : Category} : Ast c → List (Tree Node) := fold fun t parts => match t with
  | nil | cons .. | absent | present _ | classRef _ | ofReference _ | ofArrayElements _ | ofAnnotationUse _
  | blockBody _ | exprBody _ | ofBlock _ | ofVariables _ | ofTypeDecl _ | ofField _ | ofConstant _ => parts.flatten
  | header _ ms => parts.flatten ++ modifierTrees ms
  | marker _ q | single _ q _ | normal _ q _ => [.node (.term t) (nameTree q :: parts.flatten)]
  | thisRef _ qualifier | superRef _ qualifier => [.node (.term t) (qualifier.toList.map nameTree)]
  | _ => [.node (.term t) parts.flatten]

end Ast

namespace Node

def kind : Node → Ast.Kind
  | unit _ => .compilationUnit
  | package _ => .packageDecl
  | importDecl _ => .importDecl
  | name _ => .qualifiedName
  | modifier _ => .modifier
  | term t => t.kind

def place : Node → Place
  | unit u => u.place
  | package p => p.place
  | importDecl i => i.place
  | name q => q.place
  | modifier m => m.place
  | term t => t.place

/-- The plain properties of a node that are not empty, in the order of their names. -/
def properties (n : Node) : List (String × Text) :=
  let all : List (String × Text) := match n with
    | importDecl i => [("OnDemand", Ast.properties.flag i.onDemand), ("Static", Ast.properties.flag i.isStatic)]
    | modifier m => [("Keyword", m.keyword)]
    | term t => t.properties
    | _ => []
  all.filter fun (_, value) => !value.isEmpty

end Node

def Ast.exprTree (e : Ast .expr) : Tree Node := e.forest.headD (.node (.term e) [])

def CompilationUnit.tree (u : CompilationUnit) : Tree Node :=
  let package := .node (.package u.package) (u.package.annotations.forest ++ u.package.name.toList.map Ast.nameTree)
  let imports := u.imports.map fun i => .node (.importDecl i) [Ast.nameTree i.name]
  .node (.unit u) (package :: imports ++ u.type.forest)

end KiteCompiler
