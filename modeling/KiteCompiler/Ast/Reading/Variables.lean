import KiteCompiler.Ast.Reading.Types

/-!
# Reading variables, parameters and blocks
-/

namespace KiteCompiler.Ast.Reading

/-- Annotations and modifier keywords, each in source order; `adjust` completes the keywords. -/
def header (adjust : List Modifier → List Modifier) (t : Branch) : Result (Ast .header) := do
  if t.kind ≠ .modifiers then t.fail (.expected "Modifiers")
  let part (child : Decorated) : Result (Ast .annotationUse ⊕ Modifier) :=
    match child.kind with
    | .annotationUse => .inl <$> child.read .annotationUse
    | .modifier => .ok (.inr ⟨child.place, child.literal⟩)
    | _ => child.branch.fail (.unexpectedIn "modifiers")
  let parts ← (← children t).mapM part
  return .header (ofList (parts.filterMap Sum.getLeft?)) (adjust (parts.filterMap Sum.getRight?))

def nextHeader : Reading (Ast .header) := do header id (← expect [.modifiers])

/-- The modifiers of a variable, which is immutable unless it says otherwise. -/
def nextImmutableHeader : Reading (Ast .header) := do header Modifier.immutableByDefault (← expect [.modifiers])

def declarator (t : Branch) : Result (Ast .declarator) :=
  if t.kind = .variableDeclarator then
    whole t do
      let n ← identifier (← expect [.identifier])
      let dims ← optionalDims
      let value : Ast (.option .expr) ←
        if (← peek).isSome then pure (.present (← (← next).read .expr)) else pure .absent
      return .declarator t.place n (ofList dims) value
  else t.fail (.unexpectedIn "declaration")

/-- All children that are left, as variables; there has to be one. -/
def declarators : Reading (Ast (.list .declarator)) := do
  let declared ← each declarator (← rest)
  if declared.isEmpty then fail (← node) .declarationWithoutVariables
  return ofList declared

def fields (role : VariableRole) (t : Branch) : Result (Ast (.variableDecl role)) :=
  within t do
    let h ← nextHeader
    let type ← (← expect [.type]).read .type
    return .variableDecl t.place h type (← declarators)

def localVariables (t : Branch) : Result (Ast (.variableDecl .localVariable)) :=
  if t.kind = .localVarDecl then
    within t do
      let h ← nextImmutableHeader
      let type ← (← expect [.type]).read .type
      return .variableDecl t.place h type (← declarators)
  else t.fail (.expected "LocalVarDecl")

def formalParameter (t : Branch) : Result (Ast .parameter) :=
  whole t do
    let h ← nextImmutableHeader
    let type ← (← expect [.type]).read .type
    let varargs ← match ← optional [.varargs] with
      | some v => some <$> (annotations (← children v) : Result _)
      | none => pure none
    let n ← identifier (← expect [.identifier])
    let dims ← optionalDims
    return .parameter t.place h (.present type) n (ofList dims) varargs.isSome (varargs.getD .nil)

def formalParameters (t : Branch) : Result (Ast (.list .parameter)) := do
  let parameter (child : Branch) : Result (Ast .parameter) :=
    if child.kind = .formalParameter then formalParameter child else child.fail (.unexpectedIn "parameter list")
  return ofList (← each parameter (← children t))

def block (t : Branch) : Result (Ast .block) := do
  if t.kind ≠ .block then t.fail (.expected "Block")
  return .block t.place (← eachIn .stmt (← children t))

end KiteCompiler.Ast.Reading
