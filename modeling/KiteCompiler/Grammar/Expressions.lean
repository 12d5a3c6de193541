import KiteCompiler.Grammar.Variables

/-!
# Expressions

Operators of one precedence level group to the left, assignments and conditionals to the right. What follows a primary
expression (calls, members, indices, …) is kept as a flat list of suffixes.
-/

namespace KiteCompiler.Grammar

variable (rules : Rules)

/-- Where reading goes on after something that is no expression. -/
def expressionRecovery : List Token.Kind := [.semicolon, .comma, .rparen, .rbrace, .rbracket]

def expressionList : Parser (List Cst) := separated .comma (rules .expression)

/-- An expression between parentheses, without a node of its own. -/
def parenthesized : Parser Cst := do
  expect .lparen
  let e ← rules .expression
  expect .rparen
  return e

def arguments : Parser Cst :=
  node .arguments do
    expect .lparen
    let arguments ← if ← check .rparen then pure [] else expressionList rules
    expect .rparen
    return arguments

/-! ## Lambdas, assignments, conditionals -/

/-- Parameters of a lambda between parentheses: typed ones or bare names. -/
def lambdaParameters : Parser Cst :=
  node .lambdaParameters do
    expect .lparen
    let parameters ←
      if ← check .rparen then pure []
      else separated .comma do
        if ← isTypedParameter then formalParameter rules else identifier
    expect .rparen
    return parameters

/-- A lambda: one bare name or parameters, and a block or an expression. -/
def lambda : Parser Cst :=
  node .lambda do
    let parameters ← if ← checkName then identifier else lambdaParameters rules
    expect .arrow
    return [parameters, ← if ← check .lbrace then block rules else rules .expression]

def assignmentOperators : List Token.Kind := [
  .assign, .plusAssign, .minusAssign, .starAssign, .slashAssign, .percentAssign, .ampersandAssign, .barAssign,
  .caretAssign, .shiftLeftAssign, .shiftRightAssign, .shiftRightUnsignedAssign]

def expression : Parser Cst := do
  if ← isLambda then return ← lambda rules
  let target ← rules .conditional
  if ← checkAny assignmentOperators then
    nodeFrom .assignment target do
      let operator ← leaf .operator
      return [operator, ← rules .expression]
  else return target

/-- The binary operators from the loosest to the tightest level. -/
def binaryLevels : List (List Token.Kind) := [
  [.orOr],
  [.andAnd],
  [.bar],
  [.caret],
  [.ampersand],
  [.equal, .notEqual],
  [.less, .greater, .lessEqual, .greaterEqual, .kwInstanceof],
  [.shiftLeft, .shiftRight, .shiftRightUnsigned],
  [.plus, .minus],
  [.star, .slash, .percent]]

/-- An operator of one level and what stands on its right; `operand` reads operands of the tighter levels. -/
def operatorTurn (level : List Token.Kind) (operand : Parser Cst) (left : Cst) : Parser (Option Cst) := do
  if !(← checkAny level) then return none
  if ← check .kwInstanceof then
    return some (← nodeFrom .instanceOf left do
      skip
      return [← rules .type])
  else
    return some (← nodeFrom .binary left do
      let operator ← leaf .operator
      return [operator, ← operand])

/-- Operands joined by the operators of the given levels. -/
def binary : List (List Token.Kind) → Parser Cst
  | [] => rules .unary
  | level :: tighter => do
    let first ← binary tighter
    grow first (operatorTurn rules level (binary tighter))

def conditional : Parser Cst := do
  let condition ← binary rules binaryLevels
  if ← check .question then
    nodeFrom .conditional condition do
      skip
      let yes ← rules .expression
      expect .colon
      return [yes, ← if ← isLambda then lambda rules else rules .conditional]
  else return condition

/-! ## Primary expressions -/

/-- `void.class`, `int.class`, `int[].class`, or the type of `int[]::new`. -/
def primitiveTypeExpression : Parser Cst := do
  if ← check .kwVoid then
    node .typeLiteral do
      let word ← leaf .voidType
      expect .dot
      expect .kwClass
      return [word]
  else
    let pos := (← get).pos
    skip
    let dimensions ← dims rules
    let isReference ← check .colonColon
    modify fun s => { s with pos }
    if isReference then node .typeReference do return [← rules .type]
    else
      node .typeLiteral do
        let word ← leaf .primitiveType
        let dimensions ← if dimensions.isSome then pure (← dims rules).toList else pure []
        expect .dot
        expect .kwClass
        return word :: dimensions

/-- The type after `new`, without array dimensions. -/
def createdType : Parser Cst := elementType rules (errorNode .createdType expressionRecovery) (return [])

/-- What follows the type of a created object. -/
def creationTail : Parser (List Cst) := do
  let arguments ← arguments rules
  return arguments :: (← optionalAt .lbrace (rules .classBody))

def dimExpr : Parser Cst :=
  node .dimExpr do
    let annotations ← annotations rules
    expect .lbracket
    let length ← rules .expression
    expect .rbracket
    return annotations ++ [length]

/-- What follows the type of a created array: lengths, dimensions without length, elements. There have to be lengths
or elements, but not both. -/
def arrayCreationTail : Parser (List Cst) := do
  let lengths ← manyWhile startsDimExpr (dimExpr rules)
  let dimensions := (← dims rules).toList
  if ← check .lbrace then
    let elements ← rules .arrayInitializer
    if !lengths.isEmpty then let _ ← report .dimensionsAndInitializer elements.span.first
    return lengths ++ dimensions ++ [elements]
  if lengths.isEmpty then let _ ← report .noDimensions (← here)
  return lengths ++ dimensions

def creation : Parser Cst := do
  let start ← here
  expect .kwNew
  let typeArguments ← optionalAt .less (typeArguments rules)
  let type ← createdType rules
  if ← checkAnnotated .lbracket then
    let tail ← arrayCreationTail rules
    finish .arrayCreation start (type :: tail)
  else
    let tail ← creationTail rules
    finish .objectCreation start (typeArguments ++ type :: tail)

/-- An expression without operators and suffixes. -/
def primary : Parser Cst := do
  match (← peek).kind with
  | .intLiteral | .floatLiteral | .charLiteral | .stringLiteral | .kwTrue | .kwFalse | .kwNull => leaf .literal
  | .kwThis => leaf .thisRef
  | .kwSuper =>
    if ← checkAhead 1 .dot <||> checkAhead 1 .colonColon then leaf .superRef
    else errorNode .superMember expressionRecovery
  | .kwNew => creation rules
  | .lparen => node .parens do return [← parenthesized rules]
  | k =>
    if k.isPrimitive || k = .kwVoid then primitiveTypeExpression rules
    else if k.isName then
      if ← isGenericReference then node .typeReference do return [← rules .type] else leaf .simpleName
    else errorNode .expression expressionRecovery

/-! ## Suffixes -/

/-- `::` and a method name or `new`, after dimensions that have been read already. -/
def methodRefSuffix (dimensions : Option Cst) : Parser Cst := do
  let start ← match dimensions with
    | some d => pure d.span.first
    | none => here
  expect .colonColon
  let typeArguments ← optionalAt .less (typeArguments rules)
  let member ← if ← check .kwNew then leaf .operator else identifier
  finish .methodRefSuffix start (dimensions.toList ++ typeArguments ++ [member])

/-- The dimensions of `Name[].class` or `Name[]::new` and what follows them. -/
def arrayTypeSuffix : Parser Cst := do
  let start ← here
  let dimensions ← dims rules
  if ← check .colonColon then methodRefSuffix rules dimensions
  else
    expect .dot
    expect .kwClass
    finish .classLiteralSuffix start dimensions.toList

/-- What can follow a dot: a name, a call with type arguments, `this`, `super`, `class` or `new`. -/
def dotSuffix : Parser Cst := do
  let dot ← peek
  match ((← get).ahead 1).kind with
  | .kwNew =>
    node .newSuffix do
      expect .dot
      expect .kwNew
      let typeArguments ← optionalAt .less (typeArguments rules)
      let type ← createdType rules
      return typeArguments ++ type :: (← creationTail rules)
  | .kwClass =>
    node .classLiteralSuffix do
      skip
      skip
      return []
  | .kwThis =>
    node .fieldSuffix do
      skip
      return [← leaf .thisRef]
  | .kwSuper =>
    node .fieldSuffix do
      skip
      return [← leaf .superRef]
  | .less =>
    node .fieldSuffix do
      skip
      let typeArguments ← typeArguments rules
      let name ← identifier
      if !(← check .lparen) then let _ ← report (.typeArgumentsWithoutCall dot) (← here)
      return [typeArguments, name]
  | k =>
    if k.isName then
      node .fieldSuffix do
        skip
        return [← identifier]
    else
      skip
      errorNode .memberName expressionRecovery

def suffix : Parser (Option Cst) := do
  match (← peek).kind with
  | .dot => return some (← dotSuffix rules)
  | .lbracket =>
    if ← checkAhead 1 .rbracket then return some (← arrayTypeSuffix rules)
    return some (← node .indexSuffix do
      skip
      let index ← rules .expression
      expect .rbracket
      return [index])
  | .lparen => return some (← node .callSuffix do return [← arguments rules])
  | .colonColon => return some (← methodRefSuffix rules none)
  | .plusPlus | .minusMinus => return some (← node .postIncDecSuffix do return [← leaf .operator])
  | _ => return none

/-- What has been read before a suffix. `isTypeName`: nothing but a dotted name, as `.this`, `.super`, `.class` and
`[]` need it. `isCallable`: the last part names a method. -/
structure Receiver where
  isTypeName : Bool
  isCallable : Bool

/-- Checks that a suffix may stand behind what was read before it. -/
def Receiver.after (r : Receiver) (suffix : Cst) : Parser Receiver := do
  let demand (holds : Bool) (cause : SyntaxError.Cause) : Parser Unit :=
    unless holds do let _ ← report cause suffix.span.first
  match suffix.kind with
  | .callSuffix =>
    demand r.isCallable .callWithoutName
    return ⟨false, false⟩
  | .fieldSuffix =>
    match suffix.children.getLast? with
    | some last =>
      if [Cst.Kind.thisRef, .superRef].contains (Cst.kind last) then
        demand r.isTypeName (.qualifiedWithoutType (Cst.literal last))
        return ⟨false, false⟩
      return ⟨r.isTypeName && !suffix.has .typeArguments, true⟩
    | none => return ⟨r.isTypeName, true⟩
  | .classLiteralSuffix =>
    demand r.isTypeName .classLiteralWithoutType
    return ⟨false, false⟩
  | .methodRefSuffix =>
    demand (!suffix.has .dims || r.isTypeName) .arrayReferenceWithoutType
    return ⟨false, false⟩
  | _ => return ⟨false, false⟩

def suffixTurn (receiver : Receiver) : Parser (Turn Receiver) := do
  match ← suffix rules with
  | some s => return .more [s] (← receiver.after s)
  | none => return .last []

def suffixed : Parser Cst := do
  let first ← primary rules
  if first.kind = .error then return first
  let isName := first.kind == .simpleName
  let suffixes ← repeatFrom ⟨isName, isName⟩ (suffixTurn rules)
  if suffixes.isEmpty then return first
  nodeFrom .suffixed first (return suffixes)

/-! ## Unary operators and casts -/

/-- A cast to one or more types; its operand is a lambda or a unary expression. -/
def cast : Parser Cst :=
  node .cast do
    expect .lparen
    let types ← separated .ampersand (rules .type)
    expect .rparen
    return types ++ [← if ← isLambda then lambda rules else rules .unary]

/-- An operator before its operand, a cast, or an expression with suffixes. -/
def unary : Parser Cst := do
  match (← peek).kind with
  | .plusPlus | .minusMinus | .plus | .minus | .bang | .tilde =>
    node .unary do
      let operator ← leaf .operator
      return [operator, ← rules .unary]
  | .lparen => if ← isCast then cast rules else suffixed rules
  | _ => suffixed rules

end KiteCompiler.Grammar
