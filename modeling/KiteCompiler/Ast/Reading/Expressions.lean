import KiteCompiler.Ast.Reading.Variables

/-!
# Reading expressions

The shape of the concrete tree already gives precedence and grouping. A chain of suffixes is folded from the left: each
suffix takes what was read before it as its scope, and starts where that starts.
-/

namespace KiteCompiler.Ast.Reading

def nextExpr : Reading (Ast .expr) := do (← next).read .expr

def nextOperator : Reading Text := return (← expect [.operator]).literal

/-! ## Literals -/

/-- A literal without its quotes. -/
def unquote (t : Branch) : Result Text :=
  if t.literal.length < 2 then t.fail (.unterminatedLiteral t.literal)
  else .ok ((t.literal.drop 1).take (t.literal.length - 2))

def literal (t : Branch) : Result Literal :=
  match t.tokenKind with
  | .intLiteral =>
    match t.literal.getLast? with
    | some last =>
      if last = Text.byte 'l' || last = Text.byte 'L' then .ok (.long t.literal) else .ok (.integer t.literal)
    | none => .ok (.integer t.literal)
  | .floatLiteral => .ok (.double t.literal)
  | .charLiteral => .char <$> unquote t
  | .stringLiteral => .string <$> unquote t
  | .kwTrue => .ok (.boolean true)
  | .kwFalse => .ok (.boolean false)
  | .kwNull => .ok .null
  | k => t.fail (.literalToken k)

/-! ## Creations -/

def arguments (t : Branch) : Result (Ast (.list .expr)) := do
  if t.kind ≠ .arguments then t.fail (.expected "Arguments")
  eachIn .expr (← children t)

/-- The creation of an object, perhaps inside that of `scope`. -/
def objectCreation (scope : Option (Ast .expr)) (t : Branch) : Result (Ast .expr) :=
  whole t do
    let typeArguments ← optionalTypeArguments
    let created ← expect [.type]
    let type ← match (← created.read .type : Ast .type) with
      | .classRef type => pure type
      | _ => fail created .creationOfNonClass
    let arguments ← arguments (← expect [.arguments])
    let body : Ast (.option (.list .member)) ← match ← optional [.classBody] with
      | some body => pure (.present (← eachIn .member (← children body)))
      | none => pure .absent
    let place := (scope.map (·.place)).getD t.place
    return .objectCreation place (ofOption scope) typeArguments type arguments body

def dimExpr (t : Branch) : Result (Ast .level) :=
  whole t do
    let annotations ← leadingAnnotations
    let length ← nextExpr
    return .level t.place annotations (.present length)

def arrayElements (t : Branch) : Result (Ast .arrayElements) := do
  return .arrayElements t.place (← eachIn .expr (← children t))

/-- The creation of an array. Dimensions with and without length make one list. -/
def arrayCreation (t : Branch) : Result (Ast .expr) :=
  whole t do
    let element ← (← expect [.type]).read .type
    let lengths ← each dimExpr (← many .dimExpr)
    let dims := (← optionalDims).map fun | .dim place annotations => .level place annotations .absent
    let elements : Ast (.option .arrayElements) ← match ← optional [.arrayInitializer] with
      | some elements => pure (.present (← arrayElements elements))
      | none => pure .absent
    done
    let levels : List (Ast .level) := lengths ++ dims
    if levels.isEmpty then fail t .arrayWithoutDimensions
    return .arrayCreation t.place element (ofList levels) elements

/-! ## Lambdas -/

def bareParameter (t : Branch) : Ast .parameter :=
  .parameter t.place (.header .nil []) .absent t.literal .nil false .nil

def lambdaParameter (t : Branch) : Result (Ast .parameter) :=
  match t.kind with
  | .identifier => .ok (bareParameter t)
  | .formalParameter => formalParameter t
  | _ => t.fail (.unexpectedIn "lambda parameters")

def lambda (t : Branch) : Result (Ast .expr) :=
  whole t do
    let head ← expect [.identifier, .lambdaParameters]
    let parenthesized := head.kind = .lambdaParameters
    let parameters ←
      if parenthesized then pure (← each lambdaParameter (← children head)) else pure [bareParameter head]
    let body ← next
    let body : Ast .lambdaBody ←
      if body.kind = .block then pure (.blockBody (← block body)) else pure (.exprBody (← body.read .expr))
    return .lambda t.place (ofList parameters) parenthesized body

/-! ## Suffixes -/

def qualifierOf (t : Branch) (e : Ast .expr) : Result QualifiedName :=
  match e.nameParts with
  | some parts => .ok ⟨e.place, parts⟩
  | none => t.fail (.qualifierIs e.kind)

def classTypeOf (t : Branch) (e : Ast .expr) : Result (Ast .type) :=
  match e.nameParts with
  | some (first :: more) =>
    let segment (scope : Ast (.option .classType)) (n : Text) : Ast .classType :=
      .segment e.place scope .nil n .nil false
    .ok (.classRef (more.foldl (fun type n => segment (.present type) n) (segment .absent first)))
  | _ => t.fail (.typeIs e.kind)

def suffix (scope : Ast .expr) (t : Branch) : Result (Ast .expr) :=
  if t.kind = .newSuffix then objectCreation (some scope) t
  else
    within t <| thenDone do
      let start := scope.place
      match t.kind with
      | .fieldSuffix =>
        let typeArguments ← optionalTypeArguments
        let last ← expect [.identifier, .thisRef, .superRef]
        match last.kind with
        | .thisRef => return .thisRef start (some (← qualifierOf t scope))
        | .superRef => return .superRef start (some (← qualifierOf t scope))
        | _ => return .ofReference (.access start scope typeArguments last.literal)
      | .indexSuffix => return .index start scope (← nextExpr)
      | .callSuffix =>
        match scope with
        | .ofReference target => return .call start target (← arguments (← expect [.arguments]))
        | _ => fail t (.callOf scope.kind)
      | .methodRefSuffix =>
        let scope ← match ← optional [.dims] with
          | some d =>
            let type ← classTypeOf t scope
            pure (.typeExpr start (type.withDims (← dims d)))
          | none => pure scope
        let typeArguments ← optionalTypeArguments
        let member ← expect [.identifier, .operator]
        return .methodRef start scope typeArguments member.literal
      | .classLiteralSuffix =>
        let type ← classTypeOf t scope
        return .typeLiteral start (type.withDims (← optionalDims))
      | .postIncDecSuffix => return .unary start (← nextOperator) true scope
      | _ => fail t (.unexpectedIn "suffix chain")

def suffixed (t : Branch) : Result (Ast .expr) :=
  within t do
    let first ← nextExpr
    (← rest).foldlM (fun scope t => (suffix scope t.branch : Result _)) first

/-! ## All expressions -/

/-- `int.class`, `int[].class` or `void.class`. -/
def typeLiteral (t : Branch) : Result (Ast .expr) :=
  whole t do
    let base ← expect [.primitiveType, .voidType]
    let type : Ast .type :=
      if base.kind = .voidType then .void base.place else .primitive base.place .nil base.literal
    return .typeLiteral t.place (type.withDims (← optionalDims))

def cast (t : Branch) : Result (Ast .expr) :=
  within t do
    let parts ← rest
    match parts.getLast? with
    | some operand =>
      if parts.length < 2 then fail t .castWithoutTypeOrOperand
      let types ← eachIn .type parts.dropLast
      return .cast t.place types (← operand.read .expr)
    | none => fail t .castWithoutTypeOrOperand

def expr (t : Branch) : Result (Ast .expr) :=
  match t.kind with
  | .assignment =>
    whole t do
      let target ← nextExpr
      let operator ← nextOperator
      return .assign t.place operator target (← nextExpr)
  | .conditional =>
    whole t do
      let condition ← nextExpr
      let yes ← nextExpr
      return .conditional t.place condition yes (← nextExpr)
  | .binary =>
    whole t do
      let left ← nextExpr
      let operator ← nextOperator
      return .binary t.place operator left (← nextExpr)
  | .instanceOf =>
    whole t do
      let operand ← nextExpr
      return .instanceOf t.place operand (← (← expect [.type]).read .type)
  | .unary =>
    whole t do
      let operator ← nextOperator
      return .unary t.place operator false (← nextExpr)
  | .cast => cast t
  | .suffixed => suffixed t
  | .literal => .literal t.place <$> literal t
  | .simpleName => .ok (.ofReference (.name t.place t.literal))
  | .thisRef => .ok (.thisRef t.place none)
  | .superRef => .ok (.superRef t.place none)
  | .parens => whole t do return .enclosed t.place (← nextExpr)
  | .objectCreation => objectCreation none t
  | .arrayCreation => arrayCreation t
  | .arrayInitializer => .ofArrayElements <$> arrayElements t
  | .lambda => lambda t
  | .typeLiteral => typeLiteral t
  | .typeReference => whole t do return .typeExpr t.place (← (← expect [.type]).read .type)
  | _ => t.fail (.unexpectedIn "expression")

/-- The value of an annotation's element: an annotation, a list of such values, or an expression. -/
def elementValue (t : Branch) : Result (Ast .expr) :=
  match t.kind with
  | .annotationUse => .ofAnnotationUse <$> annotationUse t
  | .arrayInitializer => do
    return .ofArrayElements (.arrayElements t.place (← eachIn .elementValue (← children t)))
  | _ => expr t

end KiteCompiler.Ast.Reading
