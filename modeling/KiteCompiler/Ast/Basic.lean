import KiteCompiler.Ast.Kind
import KiteCompiler.Text.Basic

/-!
# Abstract syntax

The syntax of a Kite file as a typed tree. One inductive family `Ast` covers types, annotations, expressions,
statements and declarations: its index, the `Category`, makes a tree that mixes them up impossible. So the target of a
call is a name or a member, and the body of a lambda is a block or an expression. Lists and optional parts are
categories of the family, which makes every function over the syntax one structural recursion.
-/

namespace KiteCompiler

/-- Where a node starts. Lines count from one, columns from zero; both are negative for what is not in the source. -/
structure Place where
  line : Int
  column : Int
  deriving DecidableEq, Repr, Inhabited

namespace Place

def none : Place := ⟨-1, -1⟩

def isValid (p : Place) : Bool := 0 ≤ p.line && 0 ≤ p.column

/-- `line:column`, or a dash for what is not in a source. -/
def text (p : Place) : Text :=
  if p.isValid then Text.ofInt p.line ++ ":" ++ Text.ofInt p.column else "-"

/-- Does `p` come before `q`? What is in no source comes first. -/
def before (p q : Place) : Bool :=
  if p.line = q.line then p.column < q.column else p.line < q.line

end Place

structure QualifiedName where
  place : Place
  parts : List Text
  deriving DecidableEq, Repr, Inhabited

namespace QualifiedName

def text (q : QualifiedName) : Text := Text.join "." q.parts

def last (q : QualifiedName) : Text := q.parts.getLast?.getD []

end QualifiedName

structure Modifier where
  place : Place
  keyword : Text
  deriving DecidableEq, Repr, Inhabited

namespace Modifier

/-- Was the modifier added and not written? -/
def isImplicit (m : Modifier) : Bool := !m.place.isValid

def contains (ms : List Modifier) (keyword : Text) : Bool := ms.any (·.keyword == keyword)

/-- Adds `final` unless the variable is declared `final` or `mutable`. -/
def immutableByDefault (ms : List Modifier) : List Modifier :=
  if contains ms "final" || contains ms "mutable" then ms else ms ++ [⟨.none, "final"⟩]

end Modifier

/-- Literals in their source spelling. Strings and characters are kept without their quotes, escapes as written. -/
inductive Literal where
  | integer (text : Text)
  | long (text : Text)
  | double (text : Text)
  | char (text : Text)
  | string (text : Text)
  | boolean (value : Bool)
  | null
  deriving DecidableEq, Repr, Inhabited

inductive VariableRole where
  | field | constant | localVariable
  deriving DecidableEq, Repr

inductive Category where
  | type | classType | typeParameter | exception | dim | annotationUse | memberValue | header | expr | reference
  | lambdaBody | arrayElements | level | stmt | block | constructorCall | resource | catchClause | catchParameter
  | switchGroup | switchLabel | declarator | variableDecl (role : VariableRole) | parameter | member | typeDecl
  | list (c : Category)
  | option (c : Category)
  deriving DecidableEq, Repr

inductive Ast : Category → Type where
  | nil {c : Category} : Ast (.list c)
  | cons {c : Category} (head : Ast c) (tail : Ast (.list c)) : Ast (.list c)
  | absent {c : Category} : Ast (.option c)
  | present {c : Category} (value : Ast c) : Ast (.option c)
  -- Types.
  | primitive (place : Place) (annotations : Ast (.list .annotationUse)) (name : Text) : Ast .type
  | classRef (type : Ast .classType) : Ast .type
  /-- `component[]`; the annotations belong to this dimension. -/
  | array (place : Place) (component : Ast .type) (annotations : Ast (.list .annotationUse)) : Ast .type
  /-- `?`, `? extends upper` or `? super lower`. -/
  | wildcard (place : Place) (annotations : Ast (.list .annotationUse)) (upper lower : Ast (.option .type)) : Ast .type
  | void (place : Place) : Ast .type
  /-- One segment of a class type; `scope` is what stands to its left. The diamond is an empty argument list. -/
  | segment (place : Place) (scope : Ast (.option .classType)) (annotations : Ast (.list .annotationUse)) (name : Text)
      (arguments : Ast (.list .type)) (diamond : Bool) : Ast .classType
  | typeParameter (place : Place) (annotations : Ast (.list .annotationUse)) (name : Text)
      (bounds : Ast (.list .classType)) : Ast .typeParameter
  | exception (place : Place) (type : Ast .classType) : Ast .exception
  | dim (place : Place) (annotations : Ast (.list .annotationUse)) : Ast .dim
  -- Annotations and modifiers.
  | marker (place : Place) (name : QualifiedName) : Ast .annotationUse
  | single (place : Place) (name : QualifiedName) (value : Ast .expr) : Ast .annotationUse
  | normal (place : Place) (name : QualifiedName) (pairs : Ast (.list .memberValue)) : Ast .annotationUse
  | memberValue (place : Place) (name : Text) (value : Ast .expr) : Ast .memberValue
  | header (annotations : Ast (.list .annotationUse)) (modifiers : List Modifier) : Ast .header
  -- Expressions.
  | literal (place : Place) (value : Literal) : Ast .expr
  | name (place : Place) (name : Text) : Ast .reference
  /-- `scope.name`; type arguments only stand before the name of a method that is called. -/
  | access (place : Place) (scope : Ast .expr) (typeArguments : Ast (.list .type)) (name : Text) : Ast .reference
  | ofReference (reference : Ast .reference) : Ast .expr
  | call (place : Place) (target : Ast .reference) (arguments : Ast (.list .expr)) : Ast .expr
  | index (place : Place) (array index : Ast .expr) : Ast .expr
  | methodRef (place : Place) (scope : Ast .expr) (typeArguments : Ast (.list .type)) (name : Text) : Ast .expr
  | typeExpr (place : Place) (type : Ast .type) : Ast .expr
  | objectCreation (place : Place) (scope : Ast (.option .expr)) (typeArguments : Ast (.list .type))
      (type : Ast .classType) (arguments : Ast (.list .expr)) (body : Ast (.option (.list .member))) : Ast .expr
  | arrayCreation (place : Place) (element : Ast .type) (levels : Ast (.list .level))
      (elements : Ast (.option .arrayElements)) : Ast .expr
  | level (place : Place) (annotations : Ast (.list .annotationUse)) (length : Ast (.option .expr)) : Ast .level
  | arrayElements (place : Place) (values : Ast (.list .expr)) : Ast .arrayElements
  | ofArrayElements (elements : Ast .arrayElements) : Ast .expr
  | ofAnnotationUse (value : Ast .annotationUse) : Ast .expr
  | lambda (place : Place) (parameters : Ast (.list .parameter)) (parenthesized : Bool) (body : Ast .lambdaBody) :
      Ast .expr
  | blockBody (block : Ast .block) : Ast .lambdaBody
  | exprBody (expr : Ast .expr) : Ast .lambdaBody
  | thisRef (place : Place) (qualifier : Option QualifiedName) : Ast .expr
  | superRef (place : Place) (qualifier : Option QualifiedName) : Ast .expr
  | typeLiteral (place : Place) (type : Ast .type) : Ast .expr
  | binary (place : Place) (operator : Text) (left right : Ast .expr) : Ast .expr
  /-- An operator before its operand, or behind it. -/
  | unary (place : Place) (operator : Text) (behind : Bool) (operand : Ast .expr) : Ast .expr
  | assign (place : Place) (operator : Text) (target value : Ast .expr) : Ast .expr
  | conditional (place : Place) (condition yes no : Ast .expr) : Ast .expr
  | cast (place : Place) (types : Ast (.list .type)) (operand : Ast .expr) : Ast .expr
  | instanceOf (place : Place) (operand : Ast .expr) (type : Ast .type) : Ast .expr
  | enclosed (place : Place) (inner : Ast .expr) : Ast .expr
  -- Statements.
  | block (place : Place) (statements : Ast (.list .stmt)) : Ast .block
  | ofBlock (block : Ast .block) : Ast .stmt
  | ofVariables (declaration : Ast (.variableDecl .localVariable)) : Ast .stmt
  | emptyStmt (place : Place) : Ast .stmt
  | exprStmt (place : Place) (expr : Ast .expr) : Ast .stmt
  | ifStmt (place : Place) (condition : Ast .expr) (yes : Ast .stmt) (no : Ast (.option .stmt)) : Ast .stmt
  | whileStmt (place : Place) (condition : Ast .expr) (body : Ast .stmt) : Ast .stmt
  | doStmt (place : Place) (body : Ast .stmt) (condition : Ast .expr) : Ast .stmt
  /-- A loop that starts with a declaration or with expressions, never with both. -/
  | forStmt (place : Place) (declaration : Ast (.option (.variableDecl .localVariable))) (start : Ast (.list .expr))
      (condition : Ast (.option .expr)) (step : Ast (.list .expr)) (body : Ast .stmt) : Ast .stmt
  | forEachStmt (place : Place) (binder : Ast .parameter) (collection : Ast .expr) (body : Ast .stmt) : Ast .stmt
  | tryStmt (place : Place) (resources : Ast (.list .resource)) (body : Ast .block)
      (handlers : Ast (.list .catchClause)) (cleanup : Ast (.option .block)) : Ast .stmt
  | switchStmt (place : Place) (selector : Ast .expr) (groups : Ast (.list .switchGroup)) : Ast .stmt
  | synchronizedStmt (place : Place) (lock : Ast .expr) (body : Ast .block) : Ast .stmt
  | labeledStmt (place : Place) (label : Text) (body : Ast .stmt) : Ast .stmt
  | breakStmt (place : Place) (label : Text) : Ast .stmt
  | continueStmt (place : Place) (label : Text) : Ast .stmt
  | returnStmt (place : Place) (value : Ast (.option .expr)) : Ast .stmt
  | throwStmt (place : Place) (exception : Ast .expr) : Ast .stmt
  | assertStmt (place : Place) (condition : Ast .expr) (message : Ast (.option .expr)) : Ast .stmt
  /-- A declared resource, or with no type an expression for a variable declared before. -/
  | resource (place : Place) (header : Ast .header) (type : Ast (.option .type)) (name : Text) (value : Ast .expr) :
      Ast .resource
  | catchClause (place : Place) (parameter : Ast .catchParameter) (body : Ast .block) : Ast .catchClause
  | catchParameter (place : Place) (header : Ast .header) (types : Ast (.list .exception)) (name : Text) :
      Ast .catchParameter
  | switchGroup (place : Place) (labels : Ast (.list .switchLabel)) (statements : Ast (.list .stmt)) : Ast .switchGroup
  /-- `case value`, or with no value `default`. -/
  | switchLabel (place : Place) (value : Ast (.option .expr)) : Ast .switchLabel
  -- Declarations.
  | declarator (place : Place) (name : Text) (dims : Ast (.list .dim)) (value : Ast (.option .expr)) : Ast .declarator
  | variableDecl {role : VariableRole} (place : Place) (header : Ast .header) (type : Ast .type)
      (declarators : Ast (.list .declarator)) : Ast (.variableDecl role)
  /-- A parameter; one of a lambda may have no type. -/
  | parameter (place : Place) (header : Ast .header) (type : Ast (.option .type)) (name : Text)
      (dims : Ast (.list .dim)) (varargs : Bool) (varargAnnotations : Ast (.list .annotationUse)) : Ast .parameter
  | classDecl (place : Place) (header : Ast .header) (typeParameters : Ast (.list .typeParameter)) (name : Text)
      (namePlace : Place) (base : Ast (.option .classType)) (interfaces : Ast (.list .classType))
      (members : Ast (.list .member)) : Ast .typeDecl
  | interfaceDecl (place : Place) (header : Ast .header) (typeParameters : Ast (.list .typeParameter)) (name : Text)
      (namePlace : Place) (bases : Ast (.list .classType)) (members : Ast (.list .member)) : Ast .typeDecl
  | annotationTypeDecl (place : Place) (header : Ast .header) (name : Text) (namePlace : Place)
      (members : Ast (.list .member)) : Ast .typeDecl
  | ofTypeDecl (declaration : Ast .typeDecl) : Ast .member
  | ofField (declaration : Ast (.variableDecl .field)) : Ast .member
  | ofConstant (declaration : Ast (.variableDecl .constant)) : Ast .member
  | methodDecl (place : Place) (inInterface : Bool) (header : Ast .header)
      (typeParameters : Ast (.list .typeParameter)) (result : Ast .type) (name : Text)
      (parameters : Ast (.list .parameter)) (dims : Ast (.list .dim)) (exceptions : Ast (.list .exception))
      (body : Ast (.option .block)) : Ast .member
  | annotationMemberDecl (place : Place) (header : Ast .header) (type : Ast .type) (name : Text)
      (dims : Ast (.list .dim)) (fallback : Ast (.option .expr)) : Ast .member
  /-- A constructor; a call of another one is kept apart from the body. -/
  | constructorDecl (place : Place) (header : Ast .header) (typeParameters : Ast (.list .typeParameter)) (name : Text)
      (parameters : Ast (.list .parameter)) (exceptions : Ast (.list .exception))
      (call : Ast (.option .constructorCall)) (body : Ast .block) : Ast .member
  /-- `this(…)` or `super(…)`; `scope` stands before the latter. -/
  | constructorCall (place : Place) (isThis : Bool) (scope : Ast (.option .expr)) (typeArguments : Ast (.list .type))
      (arguments : Ast (.list .expr)) : Ast .constructorCall
  | initializerDecl (place : Place) (isStatic : Bool) (body : Ast .block) : Ast .member

namespace Ast

def ofList {c : Category} : List (Ast c) → Ast (.list c)
  | [] => nil
  | a :: as => cons a (ofList as)

def toList {c : Category} : Ast (.list c) → List (Ast c)
  | nil => []
  | cons a as => a :: toList as

def ofOption {c : Category} : Option (Ast c) → Ast (.option c)
  | none => absent
  | some a => present a

def toOption {c : Category} : Ast (.option c) → Option (Ast c)
  | absent => none
  | present a => some a

def isEmpty {c : Category} (as : Ast (.list c)) : Bool := as.toList.isEmpty

/-- Wraps a type into array types; the first dimension becomes the outermost array. -/
def withDims (t : Ast .type) (dims : List (Ast .dim)) : Ast .type :=
  dims.foldr (fun | .dim place annotations, t => .array place t annotations) t

def nameParts : {c : Category} → Ast c → Option (List Text)
  | _, name _ n => some [n]
  | _, access _ scope nil n => (nameParts scope).map (· ++ [n])
  | _, ofReference r => nameParts r
  | _, _ => none

def keywords : Ast .header → List Modifier
  | header _ ms => ms

/-- What every type declaration has. -/
structure Declared where
  name : Text
  namePlace : Place
  modifiers : List Modifier

def declared : Ast .typeDecl → Declared
  | classDecl _ h _ n place _ _ _ | interfaceDecl _ h _ n place _ _ | annotationTypeDecl _ h n place _ =>
    ⟨n, place, keywords h⟩

def elementType : {c : Category} → Ast c → Ast c
  | _, array _ component _ => elementType component
  | _, t => t

end Ast

/-- The package of a file; without a name the file declares none. -/
structure PackageDecl where
  place : Place
  annotations : Ast (.list .annotationUse)
  name : Option QualifiedName

structure ImportDecl where
  place : Place
  isStatic : Bool
  name : QualifiedName
  onDemand : Bool

structure CompilationUnit where
  place : Place
  package : PackageDecl
  imports : List ImportDecl
  type : Ast .typeDecl

end KiteCompiler
