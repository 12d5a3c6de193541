import KiteCompiler.Text.Basic

/-!
# Java syntax

The part of Java that Kite is compiled to, again as one family of trees with its categories as index. It has no places,
and three of its forms are closer to the text than those of `Ast`: an array type is its element type followed by its
dimensions, the outermost first; the call of another constructor is a statement; and declarators have no dimensions.
-/

namespace KiteCompiler

inductive Java.Category where
  | type | element | classType | typeParameter | dim | annotationUse | memberValue | header | expr | lambdaBody
  | arrayElements | level | stmt | block | resource | catchClause | switchGroup | switchLabel | declarator
  | variableDecl | parameter | member | typeDecl
  | list (c : Java.Category)
  | option (c : Java.Category)
  deriving DecidableEq, Repr

inductive Java : Java.Category → Type where
  | nil {c : Java.Category} : Java (.list c)
  | cons {c : Java.Category} (head : Java c) (tail : Java (.list c)) : Java (.list c)
  | absent {c : Java.Category} : Java (.option c)
  | present {c : Java.Category} (value : Java c) : Java (.option c)
  -- Types.
  /-- An element type and the dimensions behind it. -/
  | type (element : Java .element) (dims : Java (.list .dim)) : Java .type
  | primitive (annotations : Java (.list .annotationUse)) (name : Text) : Java .element
  | classRef (type : Java .classType) : Java .element
  | wildcard (annotations : Java (.list .annotationUse)) (upper lower : Java (.option .type)) : Java .element
  | void : Java .element
  | intersection (types : Java (.list .type)) : Java .element
  | segment (scope : Java (.option .classType)) (annotations : Java (.list .annotationUse)) (name : Text)
      (arguments : Java (.list .type)) (diamond : Bool) : Java .classType
  | typeParameter (annotations : Java (.list .annotationUse)) (name : Text) (bounds : Java (.list .classType)) :
      Java .typeParameter
  | dim (annotations : Java (.list .annotationUse)) : Java .dim
  -- Annotations and modifiers.
  /-- An annotation with a single value, or else with pairs of names and values. -/
  | annotationUse (name : Text) (value : Java (.option .expr)) (pairs : Java (.list .memberValue)) :
      Java .annotationUse
  | memberValue (name : Text) (value : Java .expr) : Java .memberValue
  | header (annotations : Java (.list .annotationUse)) (modifiers : List Text) : Java .header
  -- Expressions.
  | literal (text : Text) : Java .expr
  | name (name : Text) : Java .expr
  | access (scope : Java .expr) (name : Text) : Java .expr
  | index (array index : Java .expr) : Java .expr
  | call (scope : Java (.option .expr)) (typeArguments : Java (.list .type)) (name : Text)
      (arguments : Java (.list .expr)) : Java .expr
  | methodRef (scope : Java .expr) (typeArguments : Java (.list .type)) (name : Text) : Java .expr
  | typeExpr (type : Java .type) : Java .expr
  | objectCreation (scope : Java (.option .expr)) (typeArguments : Java (.list .type)) (type : Java .classType)
      (arguments : Java (.list .expr)) (body : Java (.option (.list .member))) : Java .expr
  | arrayCreation (element : Java .type) (levels : Java (.list .level)) (elements : Java (.option .arrayElements)) :
      Java .expr
  | level (annotations : Java (.list .annotationUse)) (length : Java (.option .expr)) : Java .level
  | arrayElements (values : Java (.list .expr)) : Java .arrayElements
  | ofArrayElements (elements : Java .arrayElements) : Java .expr
  | ofAnnotationUse (value : Java .annotationUse) : Java .expr
  | lambda (parameters : Java (.list .parameter)) (parenthesized : Bool) (body : Java .lambdaBody) : Java .expr
  | blockBody (block : Java .block) : Java .lambdaBody
  | exprBody (expr : Java .expr) : Java .lambdaBody
  /-- `this`; an empty qualifier is none. -/
  | thisRef (qualifier : Text) : Java .expr
  /-- `super`; an empty qualifier is none. -/
  | superRef (qualifier : Text) : Java .expr
  | classLiteral (type : Java .type) : Java .expr
  | binary (operator : Text) (left right : Java .expr) : Java .expr
  | unary (operator : Text) (behind : Bool) (operand : Java .expr) : Java .expr
  | assign (operator : Text) (target value : Java .expr) : Java .expr
  | conditional (condition yes no : Java .expr) : Java .expr
  | cast (type : Java .type) (operand : Java .expr) : Java .expr
  | instanceOf (operand : Java .expr) (type : Java .type) : Java .expr
  | enclosed (inner : Java .expr) : Java .expr
  -- Statements.
  | block (statements : Java (.list .stmt)) : Java .block
  | ofBlock (block : Java .block) : Java .stmt
  | ofVariables (declaration : Java .variableDecl) : Java .stmt
  | emptyStmt : Java .stmt
  | exprStmt (expr : Java .expr) : Java .stmt
  | ifStmt (condition : Java .expr) (yes : Java .stmt) (no : Java (.option .stmt)) : Java .stmt
  | whileStmt (condition : Java .expr) (body : Java .stmt) : Java .stmt
  | doStmt (body : Java .stmt) (condition : Java .expr) : Java .stmt
  | forStmt (declaration : Java (.option .variableDecl)) (start : Java (.list .expr)) (condition : Java (.option .expr))
      (step : Java (.list .expr)) (body : Java .stmt) : Java .stmt
  | forEachStmt (binder : Java .parameter) (collection : Java .expr) (body : Java .stmt) : Java .stmt
  | tryStmt (resources : Java (.list .resource)) (body : Java .block) (handlers : Java (.list .catchClause))
      (cleanup : Java (.option .block)) : Java .stmt
  | switchStmt (selector : Java .expr) (groups : Java (.list .switchGroup)) : Java .stmt
  | synchronizedStmt (lock : Java .expr) (body : Java .block) : Java .stmt
  | labeledStmt (label : Text) (body : Java .stmt) : Java .stmt
  | breakStmt (label : Text) : Java .stmt
  | continueStmt (label : Text) : Java .stmt
  | returnStmt (value : Java (.option .expr)) : Java .stmt
  | throwStmt (exception : Java .expr) : Java .stmt
  | assertStmt (condition : Java .expr) (message : Java (.option .expr)) : Java .stmt
  /-- `this(…)` or `super(…)`. -/
  | constructorCall (isThis : Bool) (scope : Java (.option .expr)) (typeArguments : Java (.list .type))
      (arguments : Java (.list .expr)) : Java .stmt
  | declaredResource (header : Java .header) (type : Java .type) (name : Text) (value : Java .expr) : Java .resource
  | namedResource (value : Java .expr) : Java .resource
  | catchClause (header : Java .header) (types : Java (.list .classType)) (name : Text) (body : Java .block) :
      Java .catchClause
  | switchGroup (labels : Java (.list .switchLabel)) (statements : Java (.list .stmt)) : Java .switchGroup
  | switchLabel (value : Java (.option .expr)) : Java .switchLabel
  -- Declarations.
  | declarator (name : Text) (value : Java (.option .expr)) : Java .declarator
  | variableDecl (header : Java .header) (type : Java .type) (declarators : Java (.list .declarator)) :
      Java .variableDecl
  | parameter (header : Java .header) (type : Java (.option .type)) (varargs : Bool)
      (varargAnnotations : Java (.list .annotationUse)) (name : Text) : Java .parameter
  | classDecl (header : Java .header) (name : Text) (typeParameters : Java (.list .typeParameter))
      (base : Java (.option .classType)) (interfaces : Java (.list .classType)) (members : Java (.list .member)) :
      Java .typeDecl
  | interfaceDecl (header : Java .header) (name : Text) (typeParameters : Java (.list .typeParameter))
      (bases : Java (.list .classType)) (members : Java (.list .member)) : Java .typeDecl
  | annotationTypeDecl (header : Java .header) (name : Text) (members : Java (.list .member)) : Java .typeDecl
  | ofTypeDecl (declaration : Java .typeDecl) : Java .member
  | ofField (declaration : Java .variableDecl) : Java .member
  | methodDecl (header : Java .header) (typeParameters : Java (.list .typeParameter)) (result : Java .type)
      (name : Text) (parameters : Java (.list .parameter)) (exceptions : Java (.list .classType))
      (body : Java (.option .block)) : Java .member
  | constructorDecl (header : Java .header) (typeParameters : Java (.list .typeParameter)) (name : Text)
      (parameters : Java (.list .parameter)) (exceptions : Java (.list .classType)) (body : Java .block) : Java .member
  | initializerDecl (isStatic : Bool) (body : Java .block) : Java .member
  | annotationMemberDecl (header : Java .header) (type : Java .type) (name : Text) (fallback : Java (.option .expr)) :
      Java .member

namespace Java

def ofList {c : Category} : List (Java c) → Java (.list c)
  | [] => nil
  | a :: as => cons a (ofList as)

def toList {c : Category} : Java (.list c) → List (Java c)
  | nil => []
  | cons a as => a :: toList as

def ofOption {c : Category} : Option (Java c) → Java (.option c)
  | none => absent
  | some a => present a

@[simp] theorem toList_ofList {c : Category} (as : List (Java c)) : (ofList as).toList = as := by
  induction as with
  | nil => simp [ofList, toList]
  | cons a as ih => simp [ofList, toList, ih]

/-- Puts dimensions in front of those of a type: the first of them becomes the outermost. -/
def withDims (outer : List (Java .dim)) : Java .type → Java .type
  | type e inner => type e (ofList (outer ++ inner.toList))

def isField : Java .member → Bool
  | ofField _ => true
  | _ => false

def declaredName : Java .typeDecl → Text
  | classDecl _ n .. | interfaceDecl _ n .. | annotationTypeDecl _ n _ => n

structure Package where
  annotations : Java (.list .annotationUse)
  name : Text

structure Import where
  name : Text
  isStatic : Bool
  onDemand : Bool
  deriving DecidableEq, Repr

structure Unit where
  package : Option Package
  imports : List Import
  types : List (Java .typeDecl)

end Java

end KiteCompiler
