import KiteCompiler.Grammar.Types

/-!
# Variables, parameters and blocks
-/

namespace KiteCompiler.Grammar

variable (rules : Rules)

/-- What a variable starts with: an expression or the elements of an array. -/
def variableInitializer : Parser Cst := do
  if ← check .lbrace then rules .arrayInitializer else rules .expression

def arrayInitializer : Parser Cst :=
  node .arrayInitializer do
    expect .lbrace
    let elements ← separatedUntil .rbrace .comma (variableInitializer rules)
    expect .rbrace
    return elements

/-- A variable: its name, dimensions and initial value. -/
def variableDeclarator : Parser Cst :=
  node .variableDeclarator do
    let name ← identifier
    let dims ← dimsHere rules
    let value ← optionalAt .assign do
      skip
      variableInitializer rules
    return name :: dims ++ value

def variableDeclarators : Parser (List Cst) := separated .comma (variableDeclarator rules)

/-- Modifiers, a type and variables; what ends the declaration is left to the caller. -/
def localVarDecl : Parser Cst :=
  node .localVarDecl do
    let modifiers ← modifiers rules
    let type ← rules .type
    return modifiers :: type :: (← variableDeclarators rules)

/-- The dots of a parameter that takes any number of arguments, with their annotations. -/
def varargs : Parser Cst :=
  node .varargs do
    let annotations ← annotations rules
    expect .ellipsis
    return annotations

def formalParameter : Parser Cst :=
  node .formalParameter do
    let modifiers ← modifiers rules
    let type ← rules .type
    let varargs ← optionalIf (checkAnnotated .ellipsis) (varargs rules)
    let name ← identifier
    let dims ← if ← check .lbracket then pure (← dims rules).toList else pure []
    return modifiers :: type :: varargs ++ name :: dims

def formalParameters : Parser Cst :=
  node .formalParameters do
    expect .lparen
    let parameters ← if ← check .rparen then pure [] else separated .comma (formalParameter rules)
    expect .rparen
    return parameters

def blockStatement : Parser Cst := do
  if ← isLocalVarDecl then
    let declaration ← localVarDecl rules
    expect .semicolon
    extend declaration
  else rules .statement

def block : Parser Cst :=
  node .block do
    expect .lbrace
    let statements ← guardedUntil [.rbrace] (blockStatement rules)
    expect .rbrace
    return statements

end KiteCompiler.Grammar
