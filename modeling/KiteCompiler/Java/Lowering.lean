import KiteCompiler.Ast.Basic
import KiteCompiler.Java.Basic

/-!
# Lowering

Kite syntax as Java syntax. What Java does not have is expressed by what it has: `of` by `implements`, variables that
are final without saying so by `final`, and dimensions behind a name by dimensions of the type. Because of the latter,
one declaration can need several in Java (`declarationGroups`), so statements and members are lowered to lists.
-/

namespace KiteCompiler

/-- What is called: the scope before the name, type arguments and the name itself. -/
structure Java.Callee where
  scope : Option (Java .expr)
  typeArguments : List (Java .type)
  name : Text

namespace Category

@[reducible] def Lowered : Category → Type
  | type => Java .type
  | classType => Java .classType
  | typeParameter => Java .typeParameter
  | exception => Java .classType
  | dim => Java .dim
  | annotationUse => Java .annotationUse
  | memberValue => Java .memberValue
  | header => Java .header
  | expr => Java .expr
  | reference => Java.Callee
  | lambdaBody => Java .lambdaBody
  | arrayElements => Java .arrayElements
  | level => Java .level
  | stmt => List (Java .stmt)
  | block => List (Java .stmt)
  | constructorCall => Java .stmt
  | resource => Java .resource
  | catchClause => Java .catchClause
  | catchParameter => Java .header × List (Java .classType) × Text
  | switchGroup => Java .switchGroup
  | switchLabel => Java .switchLabel
  | declarator => List (Java .dim) × Java .declarator
  | variableDecl _ => List (Java .variableDecl)
  | parameter => Java .parameter
  | member => List (Java .member)
  | typeDecl => Java .typeDecl
  | list c => List c.Lowered
  | option c => Option c.Lowered

end Category

namespace Java

/-- Java has no `mutable`. -/
def modifiers (ms : List Modifier) : List Text :=
  (ms.map (·.keyword)).filter (· ≠ Text.ofString "mutable")

def literalText : Literal → Text
  | .integer t | .long t | .double t => t
  | .char t => "'" ++ t ++ "'"
  | .string t => "\"" ++ t ++ "\""
  | .boolean true => "true"
  | .boolean false => "false"
  | .null => "null"

/-- Neighbours without dimensions of their own share a declaration; one with dimensions is alone. -/
def declarationGroups : List (List (Java .dim) × Java .declarator) → List (List (Java .dim) × List (Java .declarator))
  | [] => []
  | (dims, v) :: rest =>
    match dims, declarationGroups rest with
    | [], ([], vs) :: groups => ([], v :: vs) :: groups
    | dims, groups => (dims, [v]) :: groups

def declarations (h : Java .header) (t : Java .type) (vs : List (List (Java .dim) × Java .declarator)) :
    List (Java .variableDecl) :=
  (declarationGroups vs).map fun (dims, group) => variableDecl h (withDims dims t) (ofList group)

/-- Statements where Java takes one: a block, unless it is one already. -/
def single : List (Java .stmt) → Java .stmt
  | [s] => s
  | ss => ofBlock (block (ofList ss))

def Callee.expr : Callee → Java .expr
  | ⟨none, _, n⟩ => .name n
  | ⟨some scope, _, n⟩ => .access scope n

def castTo : List (Java .type) → Java .type
  | [t] => t
  | ts => type (intersection (ofList ts)) nil

def plain (e : Java .element) : Java .type := type e nil

/-- A loop with the declarations at its start; if they are several, they stand before the loop in a block around
both. -/
def forLoop (ds : List (Java .variableDecl)) (loop : Java (.option .variableDecl) → Java .stmt) : Java .stmt :=
  match ds with
  | [d] => loop (present d)
  | ds => ofBlock (block (ofList (ds.map ofVariables ++ [loop absent])))

end Java

namespace Ast

def lower : {c : Category} → Ast c → c.Lowered
  | _, nil => []
  | _, cons a as => lower a :: lower as
  | _, absent => none
  | _, present a => some (lower a)
  | _, primitive _ annotations n => .plain (.primitive (.ofList (lower annotations)) n)
  | _, classRef t => .plain (.classRef (lower t))
  | _, array _ component annotations => .withDims [.dim (.ofList (lower annotations))] (lower component)
  | _, wildcard _ annotations upper lower' =>
    .plain (.wildcard (.ofList (lower annotations)) (.ofOption (lower upper)) (.ofOption (lower lower')))
  | _, void _ => .plain .void
  | _, segment _ scope annotations n arguments diamond =>
    .segment (.ofOption (lower scope)) (.ofList (lower annotations)) n (.ofList (lower arguments)) diamond
  | _, typeParameter _ annotations n bounds =>
    .typeParameter (.ofList (lower annotations)) n (.ofList (lower bounds))
  | _, exception _ t => (lower t : Java .classType)
  | _, dim _ annotations => .dim (.ofList (lower annotations))
  | _, marker _ n => .annotationUse n.text .absent .nil
  | _, single _ n value => .annotationUse n.text (.present (lower value)) .nil
  | _, normal _ n pairs => .annotationUse n.text .absent (.ofList (lower pairs))
  | _, memberValue _ n value => .memberValue n (lower value)
  | _, header annotations ms => .header (.ofList (lower annotations)) (Java.modifiers ms)
  | _, literal _ value => .literal (Java.literalText value)
  | _, name _ n => ⟨none, [], n⟩
  | _, access _ scope typeArguments n => ⟨some (lower scope), lower typeArguments, n⟩
  | _, ofReference r => Java.Callee.expr (lower r)
  | _, call _ target arguments =>
    let callee := lower target
    .call (.ofOption callee.scope) (.ofList callee.typeArguments) callee.name (.ofList (lower arguments))
  | _, index _ a i => .index (lower a) (lower i)
  | _, methodRef _ scope typeArguments n => .methodRef (lower scope) (.ofList (lower typeArguments)) n
  | _, typeExpr _ t => .typeExpr (lower t)
  | _, objectCreation _ scope typeArguments t arguments body =>
    .objectCreation (.ofOption (lower scope)) (.ofList (lower typeArguments)) (lower t) (.ofList (lower arguments))
      (.ofOption ((lower body).map fun members => .ofList members.flatten))
  | _, arrayCreation _ element levels elements =>
    .arrayCreation (lower element) (.ofList (lower levels)) (.ofOption (lower elements))
  | _, level _ annotations length => .level (.ofList (lower annotations)) (.ofOption (lower length))
  | _, arrayElements _ values => .arrayElements (.ofList (lower values))
  | _, ofArrayElements elements => .ofArrayElements (lower elements)
  | _, ofAnnotationUse value => .ofAnnotationUse (lower value)
  | _, lambda _ parameters parenthesized body => .lambda (.ofList (lower parameters)) parenthesized (lower body)
  | _, blockBody b => .blockBody (.block (.ofList (lower b)))
  | _, exprBody e => .exprBody (lower e)
  | _, thisRef _ qualifier => .thisRef (qualifier.elim [] (·.text))
  | _, superRef _ qualifier => .superRef (qualifier.elim [] (·.text))
  | _, typeLiteral _ t => .classLiteral (lower t)
  | _, binary _ operator left right => .binary operator (lower left) (lower right)
  | _, unary _ operator behind operand => .unary operator behind (lower operand)
  | _, assign _ operator target value => .assign operator (lower target) (lower value)
  | _, conditional _ condition yes no => .conditional (lower condition) (lower yes) (lower no)
  | _, cast _ types operand => .cast (Java.castTo (lower types)) (lower operand)
  | _, instanceOf _ operand t => .instanceOf (lower operand) (lower t)
  | _, enclosed _ inner => .enclosed (lower inner)
  | _, block _ statements => (lower statements).flatten
  | _, ofBlock b => [.ofBlock (.block (.ofList (lower b)))]
  | _, ofVariables declaration => (lower declaration).map .ofVariables
  | _, emptyStmt _ => [.emptyStmt]
  | _, exprStmt _ e => [.exprStmt (lower e)]
  | _, ifStmt _ condition yes no =>
    [.ifStmt (lower condition) (.single (lower yes)) (.ofOption ((lower no).map .single))]
  | _, whileStmt _ condition body => [.whileStmt (lower condition) (.single (lower body))]
  | _, doStmt _ body condition => [.doStmt (.single (lower body)) (lower condition)]
  | _, forStmt _ declaration start condition step body =>
    let loop (declaration : Java (.option .variableDecl)) (start : List (Java .expr)) : Java .stmt :=
      .forStmt declaration (.ofList start) (.ofOption (lower condition)) (.ofList (lower step)) (.single (lower body))
    match lower declaration with
    | none => [loop .absent (lower start)]
    | some ds => [.forLoop ds (loop · [])]
  | _, forEachStmt _ binder collection body =>
    [.forEachStmt (lower binder) (lower collection) (.single (lower body))]
  | _, tryStmt _ resources body handlers cleanup =>
    [.tryStmt (.ofList (lower resources)) (.block (.ofList (lower body))) (.ofList (lower handlers))
      (.ofOption ((lower cleanup).map fun b => .block (.ofList b)))]
  | _, switchStmt _ selector groups => [.switchStmt (lower selector) (.ofList (lower groups))]
  | _, synchronizedStmt _ lock body => [.synchronizedStmt (lower lock) (.block (.ofList (lower body)))]
  | _, labeledStmt _ label body => [.labeledStmt label (.single (lower body))]
  | _, breakStmt _ label => [.breakStmt label]
  | _, continueStmt _ label => [.continueStmt label]
  | _, returnStmt _ value => [.returnStmt (.ofOption (lower value))]
  | _, throwStmt _ e => [.throwStmt (lower e)]
  | _, assertStmt _ condition message => [.assertStmt (lower condition) (.ofOption (lower message))]
  | _, resource _ h t n value =>
    match lower t with
    | none => .namedResource (lower value)
    | some t => .declaredResource (lower h) t n (lower value)
  | _, catchClause _ p body =>
    let (h, types, n) := lower p
    .catchClause h (.ofList types) n (.block (.ofList (lower body)))
  | _, catchParameter _ h types n => (lower h, lower types, n)
  | _, switchGroup _ labels statements => .switchGroup (.ofList (lower labels)) (.ofList (lower statements).flatten)
  | _, switchLabel _ value => .switchLabel (.ofOption (lower value))
  | _, declarator _ n dims value => (lower dims, .declarator n (.ofOption (lower value)))
  | _, variableDecl _ h t declarators => Java.declarations (lower h) (lower t) (lower declarators)
  | _, parameter _ h t n dims varargs varargAnnotations =>
    .parameter (lower h) (.ofOption ((lower t).map (.withDims (lower dims)))) varargs
      (.ofList (lower varargAnnotations)) n
  | _, classDecl _ h typeParameters n _ base interfaces members =>
    .classDecl (lower h) n (.ofList (lower typeParameters)) (.ofOption (lower base)) (.ofList (lower interfaces))
      (.ofList (lower members).flatten)
  | _, interfaceDecl _ h typeParameters n _ bases members =>
    .interfaceDecl (lower h) n (.ofList (lower typeParameters)) (.ofList (lower bases))
      (.ofList (lower members).flatten)
  | _, annotationTypeDecl _ h n _ members => .annotationTypeDecl (lower h) n (.ofList (lower members).flatten)
  | _, ofTypeDecl declaration => [.ofTypeDecl (lower declaration)]
  | _, ofField declaration => (lower declaration).map .ofField
  | _, ofConstant declaration => (lower declaration).map .ofField
  | _, methodDecl _ _ h typeParameters result n parameters dims exceptions body =>
    [.methodDecl (lower h) (.ofList (lower typeParameters)) (.withDims (lower dims) (lower result)) n
      (.ofList (lower parameters)) (.ofList (lower exceptions))
      (.ofOption ((lower body).map fun b => .block (.ofList b)))]
  | _, annotationMemberDecl _ h t n dims fallback =>
    [.annotationMemberDecl (lower h) (.withDims (lower dims) (lower t)) n (.ofOption (lower fallback))]
  | _, constructorDecl _ h typeParameters n parameters exceptions other body =>
    [.constructorDecl (lower h) (.ofList (lower typeParameters)) n (.ofList (lower parameters))
      (.ofList (lower exceptions)) (.block (.ofList ((lower other).toList ++ lower body)))]
  | _, constructorCall _ isThis scope typeArguments arguments =>
    .constructorCall isThis (.ofOption (lower scope)) (.ofList (lower typeArguments)) (.ofList (lower arguments))
  | _, initializerDecl _ isStatic body => [.initializerDecl isStatic (.block (.ofList (lower body)))]

end Ast

namespace CompilationUnit

def lower (u : CompilationUnit) : Java.Unit where
  package := u.package.name.map fun name => ⟨.ofList u.package.annotations.lower, name.text⟩
  imports := u.imports.map fun i => ⟨i.name.text, i.isStatic, i.onDemand⟩
  types := [u.type.lower]

end CompilationUnit

end KiteCompiler
