import KiteCompiler.Grammar.Repetition

/-!
# Looking ahead

Some choices of the grammar depend on what follows a type or a bracketed run of tokens. The functions here pass over
such runs without making nodes. The caller goes back afterwards; only the error of an annotation without a name
remains.
-/

namespace KiteCompiler.Grammar

/-- A dotted name. A dot that no name follows is left alone. -/
def qualifiedName : Parser Cst :=
  node .qualifiedName do
    let first ← identifier
    let rest ← manyWhile (check .dot <&&> checkNameAhead) do
      skip
      identifier
    return first :: rest

/-! ## Loops without a result -/

/-- Runs a part, at most as many times as the bound, until it says to stop. -/
def whileUpTo (part : Parser Bool) : Nat → Parser Unit
  | 0 => pure ()
  | bound + 1 => do if ← part then whileUpTo part bound

/-- Runs a part until it says to stop. -/
def whileTrue (part : Parser Bool) : Parser Unit := do whileUpTo part ((← get).remaining + 1)

/-! ## Brackets and annotations -/

/-- Passes over a token of a bracketed run, `depth` brackets being open. -/
def balancedTurn (opening closing : Token.Kind) (depth : Int) : Parser (Unit ⊕ Int) := do
  let k := (← peek).kind
  if k = .eof then return .inl ()
  let depth := if k = opening then depth + 1 else if k = closing then depth - 1 else depth
  skip
  if depth = 0 then return .inl ()
  return .inr depth

/-- Passes over a bracketed run that starts here. -/
def skipBalanced (opening closing : Token.Kind) : Parser Unit := search (balancedTurn opening closing) (fun _ => ()) 0

def skipAnnotationUse : Parser Unit := do
  skip
  let _ ← qualifiedName
  if ← check .lparen then skipBalanced .lparen .rparen

def annotationPart : Parser Bool := do
  if ← check .atSign then
    skipAnnotationUse
    return true
  return false

def skipAnnotations : Parser Unit := whileTrue annotationPart

/-- Does a token of this kind follow the annotations that start here? -/
def annotationsPrecede (k : Token.Kind) : Parser Bool :=
  lookAhead do
    skipAnnotations
    check k

/-- Is the current token of this kind, perhaps after annotations? -/
def checkAnnotated (k : Token.Kind) : Parser Bool := check k <||> (check .atSign <&&> annotationsPrecede k)

/-! ## Types -/

/-- The kinds at which passing over type arguments stops. -/
def argumentStops : List Token.Kind := [.semicolon, .lbrace, .rbrace, .lparen, .rparen, .andAnd, .orOr]

/-- How many levels of type arguments a token opens. -/
def nesting : Token.Kind → Int
  | .less => 1
  | .greater => -1
  | .shiftRight => -2
  | .shiftRightUnsigned => -3
  | _ => 0

/-- Passes over a token of type arguments of which `depth` levels are open, and tells whether they are closed. Tokens
that cannot stand in type arguments end the look-ahead. -/
def typeArgumentsTurn (depth : Int) : Parser (Bool ⊕ Int) := do
  if depth ≤ 0 then return .inl true
  let k := (← peek).kind
  if k ∈ Token.Kind.eof :: argumentStops then return .inl false
  skip
  return .inr (depth + nesting k)

/-- Passes over type arguments and tells whether there are some and they are closed. -/
def skipTypeArguments : Parser Bool := do
  if ← check .less then
    skip
    search typeArgumentsTurn (· ≤ 0) 1
  else return false

/-- Passes over a segment of a class type and tells whether it is well formed, unless another one follows. -/
def classTypeTurn : Parser (Bool ⊕ Unit) := do
  skipAnnotations
  if !(← checkName) then return .inl false
  skip
  if ← check .less then
    if !(← skipTypeArguments) then return .inl false
  if ← check .dot then
    skip
    return .inr ()
  else return .inl true

/-- Passes over an empty bracket pair. -/
def bracketsPart : Parser Bool := do
  if ← check .lbracket <&&> checkAhead 1 .rbracket then
    skip
    skip
    return true
  return false

def skipBrackets : Parser Unit := whileTrue bracketsPart

/-- Passes over an empty bracket pair, which may have annotations before it. -/
def dimPart : Parser Bool := do
  let pos := (← get).pos
  skipAnnotations
  if ← check .lbracket <&&> checkAhead 1 .rbracket then
    skip
    skip
    return true
  modify fun s => { s with pos }
  return false

def skipDims : Parser Unit := whileTrue dimPart

/-- Passes over a type and tells whether there is one. -/
def skipType : Parser Bool := do
  skipAnnotations
  if (← peek).kind.isPrimitive then skip
  else if ← checkName then
    if !(← search (fun _ => classTypeTurn) (fun _ => false) ()) then return false
  else return false
  skipDims
  return true

/-! ## Questions -/

/-- Passes over an annotation, but not over the `@` of an annotation type. -/
def packageAnnotationPart : Parser Bool := do
  if ← check .atSign <&&> (not <$> checkAhead 1 .kwInterface) then
    skipAnnotationUse
    return true
  return false

def isAnnotatedPackage : Parser Bool :=
  lookAhead do
    whileTrue packageAnnotationPart
    check .kwPackage

/-- Does a lambda start here? It is a name or a bracketed run with an arrow behind it. -/
def isLambda : Parser Bool := do
  if ← checkName <&&> checkAhead 1 .arrow then return true
  if !(← check .lparen) then return false
  lookAhead do
    skipBalanced .lparen .rparen
    check .arrow

/-- Passes over a further bound of an intersection type. -/
def boundTurn : Parser (Bool ⊕ Unit) := do
  if ← check .ampersand then
    skip
    if !(← skipType) then return .inl false
    return .inr ()
  else return .inl true

/-- Can this kind of token start the operand of a cast? A sign can only do so if the type is primitive: otherwise it
is a binary operator. -/
def startsCastOperand (primitive : Bool) : Token.Kind → Bool
  | .plus | .minus | .plusPlus | .minusMinus => primitive
  | .identifier | .kwOf | .kwThis | .kwSuper | .kwNew | .lparen | .bang | .tilde | .intLiteral | .floatLiteral
  | .charLiteral | .stringLiteral | .kwTrue | .kwFalse | .kwNull | .kwVoid => true
  | k => k.isPrimitive

/-- Is the opening parenthesis the start of a cast? -/
def isCast : Parser Bool :=
  lookAhead do
    skip
    let primitive := (← peek).kind.isPrimitive
    if !(← skipType) then return false
    if !(← search (fun _ => boundTurn) (fun _ => true) ()) then return false
    if !(← check .rparen) then return false
    skip
    return startsCastOperand primitive (← peek).kind

/-- Does a declaration of local variables start here: a modifier, an annotation, or a type and a name? -/
def isLocalVarDecl : Parser Bool := do
  if ← checkAny [.kwFinal, .kwMutable, .atSign] then return true
  lookAhead (skipType <&&> checkName)

/-- Passes over a modifier of a variable. -/
def variableModifierPart : Parser Bool := do
  if ← check .atSign then
    skipAnnotationUse
    return true
  if ← checkAny [.kwFinal, .kwMutable] then
    skip
    return true
  return false

/-- Is this the head of a loop over a collection: modifiers, a type, a name and a colon? -/
def isEnhancedFor : Parser Bool :=
  lookAhead do
    whileTrue variableModifierPart
    if !(← skipType <&&> checkName) then return false
    skip
    check .colon

/-- Passes over a dotted name before a `super` call, and tells whether there is one unless a name comes first. -/
def superCallTurn : Parser (Bool ⊕ Unit) := do
  if !(← check .dot) then return .inl false
  skip
  if ← check .less then let _ ← skipTypeArguments
  if ← check .kwSuper then return .inl (← checkAhead 1 .lparen)
  if !(← checkName) then return .inl false
  skip
  return .inr ()

/-- Does a call of another constructor start here? -/
def isConstructorCall : Parser Bool :=
  lookAhead do
    if ← check .less then let _ ← skipTypeArguments
    if ← checkAny [.kwThis, .kwSuper] then return ← checkAhead 1 .lparen
    if !(← checkName) then return false
    skip
    search (fun _ => superCallTurn) (fun _ => false) ()

/-- Passes over a dotted name in the search for type arguments with `::` behind them. -/
def genericReferenceTurn : Parser (Bool ⊕ Unit) := do
  if !(← checkName) then return .inl false
  skip
  if ← check .less then
    if !(← skipTypeArguments) then return .inl false
    skipBrackets
    if ← check .colonColon then return .inl true
  if !(← check .dot) then return .inl false
  skip
  return .inr ()

/-- Is this a reference to a member of a type with type arguments, such as `List<String>::size`? -/
def isGenericReference : Parser Bool := lookAhead (search (fun _ => genericReferenceTurn) (fun _ => false) ())

/-- Does a dimension with an expression follow, perhaps after annotations? -/
def startsDimExpr : Parser Bool :=
  lookAhead do
    skipAnnotations
    check .lbracket <&&> (not <$> checkAhead 1 .rbracket)

/-- Does a parameter with a type start here, or a bare name? -/
def isTypedParameter : Parser Bool := do
  let k := (← peek).kind
  if [Token.Kind.kwFinal, .kwMutable, .atSign].contains k || k.isPrimitive then return true
  if !k.isName then return false
  let following := ((← get).ahead 1).kind
  return following.isName || [Token.Kind.less, .dot, .lbracket, .ellipsis].contains following

def startsType : Parser Bool := do
  let k := (← peek).kind
  return k.isPrimitive || k.isName || k == .atSign

end KiteCompiler.Grammar
