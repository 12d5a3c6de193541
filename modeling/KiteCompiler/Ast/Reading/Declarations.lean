import KiteCompiler.Ast.Reading.Statements

/-!
# Reading declarations and whole trees
-/

namespace KiteCompiler

namespace Ast.Reading

/-! ## Types -/

def members (t : Branch) : Result (Ast (.list .member)) := do eachIn .member (← children t)

def baseClass (t : Branch) : Result (Ast .classType) := do
  match ← classTypeList t with
  | [type] => return type
  | types => t.fail (.classExtends types.length)

def classDecl (t : Branch) : Result (Ast .typeDecl) :=
  whole t do
    let h ← nextHeader
    let n ← expect [.identifier]
    let typeParameters ← optionalTypeParameters
    let base ← match ← optional [.extendsClause] with
      | some clause => some <$> (baseClass clause : Result _)
      | none => pure none
    let interfaces ← match ← optional [.ofClause] with
      | some clause => (classTypeList clause : Result _)
      | none => pure []
    let members ← members (← expect [.classBody])
    return .classDecl t.place h typeParameters n.literal n.place (ofOption base) (ofList interfaces) members

def interfaceDecl (t : Branch) : Result (Ast .typeDecl) :=
  whole t do
    let h ← nextHeader
    let n ← expect [.identifier]
    let typeParameters ← optionalTypeParameters
    let bases ← match ← optional [.extendsClause] with
      | some clause => (classTypeList clause : Result _)
      | none => pure []
    let members ← members (← expect [.interfaceBody])
    return .interfaceDecl t.place h typeParameters n.literal n.place (ofList bases) members

def annotationTypeDecl (t : Branch) : Result (Ast .typeDecl) :=
  whole t do
    let h ← nextHeader
    let n ← expect [.identifier]
    let members ← members (← expect [.annotationTypeBody])
    return .annotationTypeDecl t.place h n.literal n.place members

def typeDeclKinds : List Cst.Kind := [.classDecl, .interfaceDecl, .annotationTypeDecl]

def typeDecl (t : Branch) : Result (Ast .typeDecl) :=
  match t.kind with
  | .classDecl => classDecl t
  | .interfaceDecl => interfaceDecl t
  | .annotationTypeDecl => annotationTypeDecl t
  | _ => t.fail (.unexpectedIn "type declaration")

/-! ## Members -/

def optionalExceptions : Reading (Ast (.list .exception)) := do
  match ← optional [.throwsClause] with
  | some clause => exceptions clause
  | none => return .nil

def resultType (t : Decorated) : Result (Ast .type) :=
  if t.kind = .voidType then .ok (.void t.place) else t.read .type

def methodDecl (inInterface : Bool) (t : Branch) : Result (Ast .member) :=
  whole t do
    let h ← nextHeader
    let typeParameters ← optionalTypeParameters
    let result ← resultType (← expect [.type, .voidType])
    let n ← identifier (← expect [.identifier])
    let parameters ← formalParameters (← expect [.formalParameters])
    let dims ← optionalDims
    let exceptions ← optionalExceptions
    let body ← match ← optional [.block] with
      | some body => some <$> (block body : Result _)
      | none => pure none
    return .methodDecl t.place inInterface h typeParameters result n parameters (ofList dims) exceptions (ofOption body)

def annotationMemberDecl (t : Branch) : Result (Ast .member) :=
  whole t do
    let h ← nextHeader
    let type ← (← expect [.type]).read .type
    let n ← identifier (← expect [.identifier])
    let dims ← optionalDims
    let fallback : Ast (.option .expr) ← match ← optional [.defaultValue] with
      | some clause => pure (.present (← whole clause do (← next).read .elementValue))
      | none => pure .absent
    return .annotationMemberDecl t.place h type n (ofList dims) fallback

def constructorCall (t : Branch) : Result (Ast .constructorCall) :=
  whole t do
    let scope ← match ← optional [.simpleName, .suffixed] with
      | some scope => some <$> (scope.read .expr : Result _)
      | none => pure none
    let typeArguments ← optionalTypeArguments
    let isThis := (← expect [.thisRef, .superRef]).kind = .thisRef
    if isThis && scope.isSome then fail t .qualifiedThisCall
    let arguments ← arguments (← expect [.arguments])
    return .constructorCall t.place isThis (ofOption scope) typeArguments arguments

def constructorDecl (t : Branch) : Result (Ast .member) :=
  whole t do
    let h ← nextHeader
    let typeParameters ← optionalTypeParameters
    let n ← identifier (← expect [.identifier])
    let parameters ← formalParameters (← expect [.formalParameters])
    let exceptions ← optionalExceptions
    let body ← expect [.constructorBody]
    let (delegation, statements) ← within body do
      let delegation ← match ← optional [.explicitConstructorInvocation] with
        | some t => some <$> (constructorCall t : Result _)
        | none => pure none
      return (delegation, (← eachIn .stmt (← rest) : Ast (.list .stmt)))
    return .constructorDecl t.place h typeParameters n parameters exceptions (ofOption delegation)
      (.block body.place statements)

def initializer (t : Branch) : Result (Ast .member) :=
  whole t do
    let word ← optional [.modifier]
    if let some word := word then
      if word.literal ≠ Text.ofString "static" then fail word (.initializerModifier word.literal)
    return .initializerDecl t.place word.isSome (← block (← expect [.block]))

def member (t : Branch) : Result (Ast .member) :=
  match t.kind with
  | .classDecl | .interfaceDecl | .annotationTypeDecl => .ofTypeDecl <$> typeDecl t
  | .fieldDecl => .ofField <$> fields .field t
  | .constantDecl => .ofConstant <$> fields .constant t
  | .methodDecl => methodDecl false t
  | .interfaceMethodDecl => methodDecl true t
  | .annotationMemberDecl => annotationMemberDecl t
  | .constructorDecl => constructorDecl t
  | .initializer => initializer t
  | _ => t.fail (.unexpectedIn "type body")

/-! ## Files -/

def packageDecl (t : Branch) : Result PackageDecl :=
  whole t do
    let annotations ← leadingAnnotations
    let q ← qualifiedName (← expect [.qualifiedName])
    return ⟨t.place, annotations, some q⟩

def importDecl (t : Branch) : Result ImportDecl :=
  whole t do
    let word ← optional [.modifier]
    let q ← qualifiedName (← expect [.qualifiedName])
    let star ← optional [.operator]
    return ⟨t.place, word.isSome, q, star.isSome⟩

def compilationUnit (t : Branch) : Result CompilationUnit := do
  if t.kind ≠ .compilationUnit then t.fail (.expected "CompilationUnit")
  whole t do
    let package ← match ← optional [.packageDecl] with
      | some package => packageDecl package
      | none => pure ⟨.none, .nil, none⟩
    let imports ← each importDecl (← many .importDecl)
    let type ← typeDecl (← expect typeDeclKinds)
    return ⟨t.place, package, imports, type⟩

/-! ## Readings -/

/-- The readings of a node over decorated children. -/
def readings (t : Branch) : Readings
  | .type => type t
  | .annotationUse => annotationUse t
  | .elementValue => elementValue t
  | .expr => expr t
  | .stmt => stmt t
  | .member => member t

def decorate : Cst → Decorated := Tree.fold fun label children => .node (label, readings ⟨label, children⟩) children

end Ast.Reading

namespace Ast

def exprOfCst (t : Cst) : Result (Ast .expr) := (Reading.decorate t).read .expr

end Ast

def CompilationUnit.ofCst (t : Cst) : Except Malformed CompilationUnit :=
  Ast.Reading.compilationUnit (Ast.Reading.decorate t)

end KiteCompiler
