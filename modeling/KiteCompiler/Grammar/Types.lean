import KiteCompiler.Grammar.LookAhead

/-!
# Annotations, modifiers and types

The grammar is recursive. Its productions are ordinary functions; where one of them may end up in itself again, it goes
through `Rules`, which gives the reader of each `Production` on which all recursion passes.
-/

namespace KiteCompiler.Grammar

/-- The productions through which the grammar is recursive. -/
inductive Production where
  | expression | conditional | unary | elementValue | type | statement | classBody | interfaceBody | annotationTypeBody
  | arrayInitializer
  deriving DecidableEq, Repr

abbrev Rules := Production → Parser Cst

variable (rules : Rules)

/-! ## Annotations and modifiers -/

/-- A name and a value inside the parentheses of an annotation. -/
def elementValuePair : Parser Cst :=
  node .elementValuePair do
    let name ← identifier
    expect .assign
    return [name, ← rules .elementValue]

/-- An annotation: a name alone, or with one value, or with named values. -/
def annotationUse : Parser Cst :=
  node .annotationUse do
    expect .atSign
    let name ← qualifiedName
    if !(← check .lparen) then return [name]
    skip
    let values ←
      if ← checkName <&&> checkAhead 1 .assign then separated .comma (elementValuePair rules)
      else optionalIf (not <$> check .rparen) (rules .elementValue)
    expect .rparen
    return name :: values

def annotations : Parser (List Cst) := manyAt .atSign (annotationUse rules)

/-- The value of an annotation's element: an annotation, a list of values, or an expression. -/
def elementValue : Parser Cst := do
  if ← check .atSign then annotationUse rules
  else if ← check .lbrace then
    node .arrayInitializer do
      skip
      let values ← separatedUntil .rbrace .comma (rules .elementValue)
      expect .rbrace
      return values
  else rules .conditional

/-- Is the current token a modifier? `default` before a colon is a label, and `synchronized` before a parenthesis
starts a statement. -/
def isModifier : Parser Bool := do
  match (← peek).kind with
  | .kwDefault => not <$> checkAhead 1 .colon
  | .kwSynchronized => not <$> checkAhead 1 .lparen
  | k => return k.isModifier

def modifierTurn : Parser (Turn Unit) := do
  if ← check .atSign <&&> (not <$> checkAhead 1 .kwInterface) then return .more [← annotationUse rules] ()
  if ← isModifier then return .more [← leaf .modifier] ()
  return .last []

/-- Modifiers and annotations in any order. There is always such a node; it may be empty. -/
def modifiers : Parser Cst := do
  let start ← here
  let parts ← repeatTurns (modifierTurn rules)
  if parts.isEmpty then return .node { kind := .modifiers, span := ⟨start, start⟩ } []
  finish .modifiers start parts

/-! ## Types -/

/-- What is left of a token when the angle bracket in front of it closes type arguments. -/
def afterAngle : Token.Kind → Option Token.Kind
  | .shiftRight => some .greater
  | .shiftRightUnsigned => some .shiftRight
  | .greaterEqual => some .assign
  | .shiftRightAssign => some .greaterEqual
  | .shiftRightUnsignedAssign => some .shiftRightAssign
  | _ => none

/-- Takes a closing angle bracket, which may be the first byte of a longer token, and tells whether there was one. -/
def closeAngle : Parser Bool := do
  let k := (← peek).kind
  if k = .greater then
    skip
    return true
  match afterAngle k with
  | some rest =>
    modify (·.splitCurrent rest)
    return true
  | none => return false

def wildcard : Parser Cst :=
  node .wildcard do
    let annotations ← annotations rules
    expect .question
    if ← checkAny [.kwExtends, .kwSuper] then
      let operator ← leaf .operator
      return annotations ++ [operator, ← rules .type]
    return annotations

def typeArgument : Parser Cst := do
  if ← checkAnnotated .question then wildcard rules else rules .type

/-- Type arguments between angle brackets; none at all is the diamond. -/
def typeArguments : Parser Cst :=
  node .typeArguments do
    expect .less
    if ← closeAngle then return []
    let arguments ← separated .comma (typeArgument rules)
    if !(← closeAngle) then let _ ← reportHere (.missing .greater)
    return arguments

/-- One segment of a class type: annotations, a name and its type arguments. -/
def classTypeElement : Parser Cst :=
  node .classTypeElement do
    let annotations ← annotations rules
    let name ← identifier
    return annotations ++ name :: (← optionalAt .less (typeArguments rules))

def segmentTurn : Parser (Turn Unit) := do
  let segment ← classTypeElement rules
  if ← check .dot <&&> (checkNameAhead <||> checkAhead 1 .atSign) then
    skip
    return .more [segment] ()
  return .last [segment]

/-- A class type: segments with dots between them. -/
def classType : Parser Cst := node .classType (repeatTurns (segmentTurn rules))

/-- Does an array dimension without an expression start here, perhaps after annotations? -/
def startsDim : Parser Bool :=
  (check .lbracket <&&> checkAhead 1 .rbracket) <||> (check .atSign <&&> annotationsPrecede .lbracket)

def dim : Parser Cst :=
  node .dim do
    let annotations ← annotations rules
    expect .lbracket
    expect .rbracket
    return annotations

/-- Array dimensions; no node if there are none. -/
def dims : Parser (Option Cst) := do
  let start ← here
  let parts ← manyWhile startsDim (dim rules)
  if parts.isEmpty then return none
  return some (← finish .dims start parts)

/-- Array dimensions where a bracket or an annotation is current. -/
def dimsHere : Parser (List Cst) := do
  if ← checkAny [.lbracket, .atSign] then return (← dims rules).toList else return []

/-- Annotations and the name of a type, without array dimensions; the error node `otherwise` if there is no type. -/
def elementType (otherwise : Parser Cst) (more : Parser (List Cst)) : Parser Cst := do
  let start ← here
  let annotations ← annotations rules
  let k := (← peek).kind
  if k.isPrimitive then
    let name ← leaf .primitiveType
    finish .type start (annotations ++ name :: (← more))
  else if k.isName then
    let name ← classType rules
    finish .type start (annotations ++ name :: (← more))
  else otherwise

/-- A type: annotations, a primitive or class type, and array dimensions. -/
def type : Parser Cst :=
  elementType rules (errorNode .type [.semicolon, .rparen, .comma, .rbrace]) (dimsHere rules)

/-- One type parameter: annotations, a name and its bounds. -/
def typeParameter : Parser Cst :=
  node .typeParameter do
    let annotations ← annotations rules
    let name ← identifier
    let bound ← optionalAt .kwExtends do
      node .typeBound do
        skip
        separated .ampersand (classType rules)
    return annotations ++ name :: bound

def typeParameters : Parser Cst :=
  node .typeParameters do
    expect .less
    let parameters ← separated .comma (typeParameter rules)
    let _ ← closeAngle
    return parameters

def typeList : Parser (List Cst) := separated .comma (classType rules)

end KiteCompiler.Grammar
