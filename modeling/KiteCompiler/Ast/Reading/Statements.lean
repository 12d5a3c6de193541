import KiteCompiler.Ast.Reading.Expressions

/-!
# Reading statements
-/

namespace KiteCompiler.Ast.Reading

def nextStmt : Reading (Ast .stmt) := do (← next).read .stmt

def optionalExpr : Reading (Ast (.option .expr)) := do
  if (← peek).isSome then return .present (← nextExpr) else return .absent

/-- The label of a jump; empty if there is none. -/
def jumpLabel (t : Branch) : Result Text :=
  whole t do
    return ((← optional [.identifier]).map (·.literal)).getD []

def forStmt (t : Branch) : Result (Ast .stmt) :=
  whole t do
    let start ← expect [.forInit]
    let (declaration, start) ← within start do
      match ← optional [.localVarDecl] with
      | some d =>
        let declaration ← localVariables d
        done
        return (some declaration, .nil)
      | none => return (none, (← eachIn .expr (← rest) : Ast (.list .expr)))
    let condition : Ast (.option .expr) ← match ← peek with
      | some child => if child.kind = .forUpdate then pure .absent else pure (.present (← nextExpr))
      | none => pure .absent
    let step ← eachIn .expr (← children (← expect [.forUpdate]))
    let body ← nextStmt
    return .forStmt t.place (ofOption declaration) start condition step body

def resource (t : Branch) : Result (Ast .resource) :=
  if t.kind = .resource then
    whole t do
      match ← optional [.modifiers] with
      | some modifiers =>
        let h ← header Modifier.immutableByDefault modifiers
        let type ← (← expect [.type]).read .type
        let n ← identifier (← expect [.identifier])
        return .resource t.place h (.present type) n (← nextExpr)
      | none => return .resource t.place (.header .nil []) .absent [] (← nextExpr)
  else t.fail (.expected "Resource")

/-- `catch` with its parameter, which starts at its modifiers. -/
def catchClause (t : Branch) : Result (Ast .catchClause) :=
  whole t do
    let modifiers ← expect [.modifiers]
    let h ← header Modifier.immutableByDefault modifiers
    let types ← exceptions (← expect [.catchType])
    let n ← identifier (← expect [.identifier])
    let body ← block (← expect [.block])
    return .catchClause t.place (.catchParameter modifiers.place h types n) body

def tryStmt (t : Branch) : Result (Ast .stmt) :=
  whole t do
    let resources ← match ← optional [.resourceSpec] with
      | some spec => (each resource (← children spec) : Result _)
      | none => pure []
    let body ← block (← expect [.block])
    let handlers ← each catchClause (← many .catchClause)
    let cleanup : Ast (.option .block) ← match ← optional [.finallyClause] with
      | some clause => pure (.present (← whole clause do block (← expect [.block])))
      | none => pure .absent
    return .tryStmt t.place (ofList resources) body (ofList handlers) cleanup

def switchLabel (t : Branch) : Result (Ast .switchLabel) :=
  whole t do
    if t.tokenKind = .kwCase then return .switchLabel t.place (.present (← nextExpr))
    return .switchLabel t.place .absent

def switchGroup (t : Branch) : Result (Ast .switchGroup) :=
  if t.kind = .switchGroup then
    within t do
      let labels ← each switchLabel (← many .switchLabel)
      if labels.isEmpty then fail t .switchGroupWithoutLabels
      return .switchGroup t.place (ofList labels) (← eachIn .stmt (← rest))
  else t.fail (.unexpectedIn "switch")

def stmt (t : Branch) : Result (Ast .stmt) :=
  match t.kind with
  | .block => .ofBlock <$> block t
  | .localVarDecl => .ofVariables <$> localVariables t
  | .emptyStmt => .ok (.emptyStmt t.place)
  | .exprStmt => whole t do return .exprStmt t.place (← nextExpr)
  | .ifStmt =>
    whole t do
      let condition ← nextExpr
      let yes ← nextStmt
      let no : Ast (.option .stmt) ← if (← peek).isSome then pure (.present (← nextStmt)) else pure .absent
      return .ifStmt t.place condition yes no
  | .whileStmt =>
    whole t do
      let condition ← nextExpr
      return .whileStmt t.place condition (← nextStmt)
  | .doStmt =>
    whole t do
      let body ← nextStmt
      return .doStmt t.place body (← nextExpr)
  | .forStmt => forStmt t
  | .forEachStmt =>
    whole t do
      let binder ← formalParameter (← expect [.formalParameter])
      let collection ← nextExpr
      return .forEachStmt t.place binder collection (← nextStmt)
  | .tryStmt => tryStmt t
  | .switchStmt =>
    within t do
      let selector ← nextExpr
      return .switchStmt t.place selector (ofList (← each switchGroup (← rest)))
  | .synchronizedStmt =>
    whole t do
      let lock ← nextExpr
      return .synchronizedStmt t.place lock (← block (← expect [.block]))
  | .labeledStmt =>
    whole t do
      let label ← identifier (← expect [.identifier])
      return .labeledStmt t.place label (← nextStmt)
  | .breakStmt => .breakStmt t.place <$> jumpLabel t
  | .continueStmt => .continueStmt t.place <$> jumpLabel t
  | .returnStmt => whole t do return .returnStmt t.place (← optionalExpr)
  | .throwStmt => whole t do return .throwStmt t.place (← nextExpr)
  | .assertStmt =>
    whole t do
      let condition ← nextExpr
      return .assertStmt t.place condition (← optionalExpr)
  | _ => t.fail (.unexpectedIn "block")

end KiteCompiler.Ast.Reading
