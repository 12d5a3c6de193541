import KiteCompiler.Grammar.Expressions

/-!
# Statements
-/

namespace KiteCompiler.Grammar

variable (rules : Rules)

def ifStatement : Parser Cst :=
  node .ifStmt do
    expect .kwIf
    let condition ← parenthesized rules
    let yes ← rules .statement
    let no ← optionalAt .kwElse do
      skip
      rules .statement
    return condition :: yes :: no

def whileStatement : Parser Cst :=
  node .whileStmt do
    expect .kwWhile
    let condition ← parenthesized rules
    return [condition, ← rules .statement]

def doStatement : Parser Cst :=
  node .doStmt do
    expect .kwDo
    let body ← rules .statement
    expect .kwWhile
    let condition ← parenthesized rules
    expect .semicolon
    return [body, condition]

/-- The variable, the collection and the body of a loop over a collection. -/
def forEachParts : Parser (List Cst) := do
  let parameter ← node .formalParameter do
    let modifiers ← modifiers rules
    let type ← rules .type
    return [modifiers, type, ← identifier]
  expect .colon
  let collection ← rules .expression
  expect .rparen
  return [parameter, collection, ← rules .statement]

/-- Start, condition, step and body of a loop; start and step are always there, though perhaps empty. -/
def forParts : Parser (List Cst) := do
  let start ← node .forInit do
    if ← check .semicolon then return []
    if ← isLocalVarDecl then return [← localVarDecl rules]
    expressionList rules
  expect .semicolon
  let condition ← optionalIf (not <$> check .semicolon) (rules .expression)
  expect .semicolon
  let step ← node .forUpdate do
    if ← check .rparen then return []
    expressionList rules
  expect .rparen
  return start :: condition ++ [step, ← rules .statement]

def forStatement : Parser Cst := do
  let start ← here
  expect .kwFor
  expect .lparen
  if ← isEnhancedFor then
    let parts ← forEachParts rules
    finish .forEachStmt start parts
  else
    let parts ← forParts rules
    finish .forStmt start parts

/-- A resource: a declaration, or an expression for a variable declared before. -/
def resource : Parser Cst :=
  node .resource do
    if ← isLocalVarDecl then
      let modifiers ← modifiers rules
      let type ← rules .type
      let name ← identifier
      expect .assign
      return [modifiers, type, name, ← rules .expression]
    return [← rules .expression]

def catchClause : Parser Cst :=
  node .catchClause do
    expect .kwCatch
    expect .lparen
    let modifiers ← modifiers rules
    let types ← node .catchType (separated .bar (classType rules))
    let name ← identifier
    expect .rparen
    return [modifiers, types, name, ← block rules]

/-- `try` with its resources, block and handlers; one of resources, `catch` and `finally` has to be there. -/
def tryStatement : Parser Cst := do
  let start ← here
  let parts : Parser (List Cst) := do
    expect .kwTry
    let resources ← optionalAt .lparen do
      node .resourceSpec do
        skip
        let resources ← separatedUntil .rparen .semicolon (resource rules)
        expect .rparen
        return resources
    let body ← block rules
    let handlers ← manyAt .kwCatch (catchClause rules)
    let cleanup ← optionalAt .kwFinally do
      node .finallyClause do
        skip
        return [← block rules]
    if resources.isEmpty && handlers.isEmpty && cleanup.isEmpty then let _ ← report .tryWithoutHandler start
    return resources ++ body :: handlers ++ cleanup
  finish .tryStmt start (← parts)

/-- `case` with its value, or `default`. -/
def switchLabel : Parser Cst := do
  let t ← next
  let value ← if t.kind = .kwCase then pure [← rules .conditional] else pure []
  expect .colon
  let label ← finish .switchLabel t.span.first value
  return .node { label.label with token := some t } value

def switchGroup : Parser Cst :=
  node .switchGroup do
    let labels ← manyWhile (checkAny [.kwCase, .kwDefault]) (switchLabel rules)
    let statements ← guardedUntil [.kwCase, .kwDefault, .rbrace] (blockStatement rules)
    return labels ++ statements

def groupTurn : Parser (Turn Unit) := do
  if ← checkAny [.rbrace, .eof] then return .last []
  if ← checkAny [.kwCase, .kwDefault] then guardedTurn (switchGroup rules)
  else return .more [← errorNode .switchLabel [.kwCase, .kwDefault, .rbrace]] ()

def switchStatement : Parser Cst :=
  node .switchStmt do
    expect .kwSwitch
    let selector ← parenthesized rules
    expect .lbrace
    let groups ← repeatTurns (groupTurn rules)
    expect .rbrace
    return selector :: groups

def synchronizedStatement : Parser Cst :=
  node .synchronizedStmt do
    expect .kwSynchronized
    let lock ← parenthesized rules
    return [lock, ← block rules]

/-- `return`, `break` or `continue` with what may follow it. -/
def jumpStatement (kind : Cst.Kind) (operand : Parser Cst) : Parser Cst :=
  node kind do
    skip
    let operand ← optionalIf (not <$> check .semicolon) operand
    expect .semicolon
    return operand

def throwStatement : Parser Cst :=
  node .throwStmt do
    skip
    let exception ← rules .expression
    expect .semicolon
    return [exception]

def assertStatement : Parser Cst :=
  node .assertStmt do
    expect .kwAssert
    let condition ← rules .expression
    let message ← optionalAt .colon do
      skip
      rules .expression
    expect .semicolon
    return condition :: message

def labeledStatement : Parser Cst :=
  node .labeledStmt do
    let label ← identifier
    expect .colon
    return [label, ← rules .statement]

def expressionStatement : Parser Cst :=
  node .exprStmt do
    let e ← rules .expression
    expect .semicolon
    return [e]

/-- Any statement but a declaration of local variables. -/
def statement : Parser Cst := do
  match (← peek).kind with
  | .lbrace => block rules
  | .semicolon =>
    node .emptyStmt do
      skip
      return []
  | .kwIf => ifStatement rules
  | .kwWhile => whileStatement rules
  | .kwDo => doStatement rules
  | .kwFor => forStatement rules
  | .kwTry => tryStatement rules
  | .kwSwitch => switchStatement rules
  | .kwSynchronized => synchronizedStatement rules
  | .kwReturn => jumpStatement .returnStmt (rules .expression)
  | .kwBreak => jumpStatement .breakStmt identifier
  | .kwContinue => jumpStatement .continueStmt identifier
  | .kwThrow => throwStatement rules
  | .kwAssert => assertStatement rules
  | .kwClass | .kwInterface | .kwElse | .kwCatch | .kwFinally | .kwCase | .kwDefault =>
    errorNode .statement [.semicolon, .rbrace]
  | _ =>
    if ← checkName <&&> checkAhead 1 .colon then labeledStatement rules else expressionStatement rules

end KiteCompiler.Grammar
