import KiteCompiler.Grammar.Statements

/-!
# Declarations

Types, their members, and the compilation unit. A declaration starts at its modifiers, or, if it has none, at the
token that is current when its kind is known.
-/

namespace KiteCompiler.Grammar

variable (rules : Rules)

/-- A node for a declaration with these modifiers; `parts` reads what follows them. -/
def declaration (kind : Cst.Kind) (modifiers : Cst) (parts : Parser (List Cst)) : Parser Cst := do
  let start ← if modifiers.children.isEmpty then here else pure modifiers.span.first
  let parts ← parts
  finish kind start (modifiers :: parts)

/-! ## Types -/

def classDecl (modifiers : Cst) : Parser Cst :=
  declaration .classDecl modifiers do
    expect .kwClass
    let name ← identifier
    let parameters ← optionalAt .less (typeParameters rules)
    let base ← optionalAt .kwExtends do
      node .extendsClause do
        skip
        return [← classType rules]
    let interfaces ← optionalAt .kwOf do
      node .ofClause do
        skip
        typeList rules
    return name :: parameters ++ base ++ interfaces ++ [← rules .classBody]

def interfaceDecl (modifiers : Cst) : Parser Cst :=
  declaration .interfaceDecl modifiers do
    expect .kwInterface
    let name ← identifier
    let parameters ← optionalAt .less (typeParameters rules)
    let bases ← optionalAt .kwExtends do
      node .extendsClause do
        skip
        typeList rules
    return name :: parameters ++ bases ++ [← rules .interfaceBody]

def annotationTypeDecl (modifiers : Cst) : Parser Cst :=
  declaration .annotationTypeDecl modifiers do
    expect .atSign
    expect .kwInterface
    let name ← identifier
    return [name, ← rules .annotationTypeBody]

def typeDecl? (modifiers : Cst) : Parser (Option Cst) := do
  if ← check .kwClass then return some (← classDecl rules modifiers)
  if ← check .kwInterface then return some (← interfaceDecl rules modifiers)
  if ← check .atSign <&&> checkAhead 1 .kwInterface then return some (← annotationTypeDecl rules modifiers)
  return none

/-! ## Members -/

def throwsClause : Parser Cst :=
  node .throwsClause do
    expect .kwThrows
    typeList rules

def returnType : Parser Cst := do
  if ← check .kwVoid then leaf .voidType else rules .type

def methodDecl (kind : Cst.Kind) (modifiers : Cst) (typeParameters : List Cst) (returnType : Cst) : Parser Cst :=
  declaration kind modifiers do
    let name ← identifier
    let parameters ← formalParameters rules
    let dims ← dimsHere rules
    let exceptions ← optionalAt .kwThrows (throwsClause rules)
    let body ← optionalAt .lbrace (block rules)
    if body.isEmpty then expect .semicolon
    return typeParameters ++ returnType :: name :: parameters :: dims ++ exceptions ++ body

/-- Fields or constants from their first name on. -/
def fieldDecl (kind : Cst.Kind) (modifiers type : Cst) : Parser Cst :=
  declaration kind modifiers do
    let declared ← variableDeclarators rules
    expect .semicolon
    return type :: declared

/-- The object whose class contains the class of the constructor that is called: a dotted name. -/
def constructorScope : Parser Cst := do
  let first ← leaf .simpleName
  let members ← manyWhile (check .dot <&&> checkNameAhead) do
    node .fieldSuffix do
      skip
      return [← identifier]
  if members.isEmpty then return first
  nodeFrom .suffixed first (return members)

def constructorCall : Parser Cst :=
  node .explicitConstructorInvocation do
    let scope ← optionalIf checkName do
      let scope ← constructorScope
      expect .dot
      return scope
    let typeArguments ← optionalAt .less (typeArguments rules)
    let target ←
      if ← check .kwThis then leaf .thisRef
      else if ← check .kwSuper then leaf .superRef
      else errorNode .selfOrSuper [.lparen]
    let arguments ← arguments rules
    expect .semicolon
    return scope ++ typeArguments ++ [target, arguments]

/-- The body of a constructor, which may start with a call of another one. -/
def constructorBody : Parser Cst :=
  node .constructorBody do
    expect .lbrace
    let call ← optionalIf isConstructorCall (constructorCall rules)
    let statements ← guardedUntil [.rbrace] (blockStatement rules)
    expect .rbrace
    return call ++ statements

def constructorDecl (modifiers : Cst) (typeParameters : List Cst) : Parser Cst :=
  declaration .constructorDecl modifiers do
    let name ← identifier
    let parameters ← formalParameters rules
    let exceptions ← optionalAt .kwThrows (throwsClause rules)
    return typeParameters ++ name :: parameters :: exceptions ++ [← constructorBody rules]

/-- Where reading goes on after something that is no member. -/
def memberRecovery : List Token.Kind := [.semicolon, .rbrace, .kwPublic, .kwPrivate, .kwProtected, .kwStatic]

/-- A method or field after its type parameters. With type parameters, before a parenthesis or after `void` it is a
method. -/
def methodOrField (method field : Cst.Kind) (construct : Construct) (modifiers : Cst) (typeParameters : List Cst) :
    Parser Cst := do
  if !(← check .kwVoid <||> startsType) then return ← errorNode construct memberRecovery
  let type ← returnType rules
  if !typeParameters.isEmpty || (← checkAhead 1 .lparen) || type.kind == .voidType then
    methodDecl rules method modifiers typeParameters type
  else fieldDecl rules field modifiers type

/-- Modifiers and a type, or what `rest` reads if no type follows them. -/
def typeOr (rest : Cst → Parser Cst) : Parser Cst := do
  let modifiers ← modifiers rules
  match ← typeDecl? rules modifiers with
  | some nested => return nested
  | none => rest modifiers

def classMember : Parser Cst := do
  if ← check .lbrace then return ← node .initializer do return [← block rules]
  if ← check .kwStatic <&&> checkAhead 1 .lbrace then
    return ← node .initializer do
      let word ← leaf .modifier
      return [word, ← block rules]
  typeOr rules fun modifiers => do
    let typeParameters ← optionalAt .less (typeParameters rules)
    if ← checkName <&&> checkAhead 1 .lparen then constructorDecl rules modifiers typeParameters
    else methodOrField rules .methodDecl .fieldDecl .member modifiers typeParameters

def interfaceMember : Parser Cst :=
  typeOr rules fun modifiers => do
    let typeParameters ← optionalAt .less (typeParameters rules)
    methodOrField rules .interfaceMethodDecl .constantDecl .interfaceMember modifiers typeParameters

/-- A member of an annotation type: an element with its default, or a constant. -/
def annotationTypeMember : Parser Cst :=
  typeOr rules fun modifiers => do
    if !(← startsType) then return ← errorNode .annotationMember memberRecovery
    let type ← rules .type
    if !(← checkName <&&> checkAhead 1 .lparen) then return ← fieldDecl rules .constantDecl modifiers type
    declaration .annotationMemberDecl modifiers do
      let name ← identifier
      expect .lparen
      expect .rparen
      let dims ← dimsHere rules
      let value ← optionalAt .kwDefault do
        node .defaultValue do
          skip
          return [← rules .elementValue]
      expect .semicolon
      return type :: name :: dims ++ value

def body (kind : Cst.Kind) (member : Parser Cst) : Parser Cst :=
  node kind do
    expect .lbrace
    let members ← declarationsUntil [.rbrace] member
    expect .rbrace
    return members

/-! ## Compilation units -/

/-- `package` with its name, after annotations. -/
def packageDecl : Parser Cst :=
  node .packageDecl do
    let annotations ← annotations rules
    expect .kwPackage
    let name ← qualifiedName
    expect .semicolon
    return annotations ++ [name]

/-- `import` with an optional `static`, a name and an optional `.*`. -/
def importDecl : Parser Cst :=
  node .importDecl do
    expect .kwImport
    let word ← optionalAt .kwStatic (leaf .modifier)
    let start ← here
    let first ← identifier
    let rest ← manyWhile (check .dot <&&> (not <$> checkAhead 1 .star)) do
      skip
      identifier
    let onDemand ← check .dot
    if onDemand then skip
    let name ← finish .qualifiedName start (first :: rest)
    let star ← if onDemand then pure [← leaf .operator] else pure []
    expect .semicolon
    return word ++ name :: star

def topLevelType : Parser Cst :=
  typeOr rules fun _ => errorNode .typeDeclaration [.kwClass, .kwInterface, .atSign, .kwPublic, .kwAbstract, .kwFinal]

/-- A type of a file and how many of them there have been; `seen` counts those before, of which there ought to be
none. -/
def countedType (seen : Nat) : Parser (Cst × Nat) := do
  let start ← peek
  let declaration ← topLevelType rules
  if declaration.kind = .error then return (declaration, seen)
  if seen = 1 then let _ ← report (.secondTopLevelType start) start.span.first
  return (declaration, seen + 1)

/-- A type of a file, or a semicolon. -/
def typeTurn (seen : Nat) : Parser (Turn Nat) := do
  if ← check .eof then return .last []
  if ← check .semicolon then
    skip
    return .more [] seen
  let ((declaration, seen), moved) ← guarded (countedType rules seen)
  return if moved then .more [declaration] seen else .last [declaration]

def topLevelTypes : Parser (List Cst) := repeatFrom 0 (typeTurn rules)

def compilationUnit : Parser Cst :=
  node .compilationUnit do
    let package ← optionalIf (check .kwPackage <||> isAnnotatedPackage) (packageDecl rules)
    let imports ← manyAt .kwImport importDecl
    let types ← topLevelTypes rules
    if types.all fun t : Cst => t.kind == .error then let _ ← reportHere .noTopLevelType
    return package ++ imports ++ types

def standaloneExpression : Parser Cst := do
  let e ← rules .expression
  if !(← check .eof) then let _ ← reportHere .unexpectedAfterExpression
  return e

end KiteCompiler.Grammar
