import KiteCompiler.Grammar.Declarations
import KiteCompiler.Token.Lexer

/-!
# Reading a source

The recursion of the grammar is tied here: `rulesUpTo` reads constructs nested up to a given depth. Between two visits
of the same production some token is taken, so a depth that grows with the bytes of the tokens is never reached.
-/

namespace KiteCompiler.Grammar

/-- The reader of a production, given readers for those inside it. -/
def production (rules : Rules) : Rules
  | .expression => expression rules
  | .conditional => conditional rules
  | .unary => unary rules
  | .elementValue => elementValue rules
  | .type => type rules
  | .statement => statement rules
  | .classBody => body .classBody (classMember rules)
  | .interfaceBody => body .interfaceBody (interfaceMember rules)
  | .annotationTypeBody => body .annotationTypeBody (annotationTypeMember rules)
  | .arrayInitializer => arrayInitializer rules

/-- The reader of each production for constructs that are nested at most `depth` deep. -/
def rulesUpTo : Nat → Rules
  | 0, _ => do
    let t ← peek
    let e ← report .tooDeep t.span.first
    return .node { kind := .error, span := t.span, error := some e } []
  | depth + 1, p => production (rulesUpTo depth) p

/-- The number of nested productions that a text can need, per byte of its tokens. -/
def productionsPerByte : Nat := 16

/-- The result of reading a source: its tree, the errors in source order, and the comments. -/
structure Parsed where
  tree : Cst
  errors : List SyntaxError
  comments : List Token

/-- The state before reading: the tokens that are no layout, with the errors of the lexer. -/
def initial (tokens : List Token) : State :=
  let (bad, good) := (tokens.filter (!·.kind.isLayout)).partition (·.kind == .error)
  bad.foldl (fun s t => s.record ⟨.invalidToken t, t.span.first⟩) { tokens := good.toArray }

def parse (start : Rules → Parser Cst) (source : Text) : Parsed :=
  let tokens := Token.lex source
  let s := initial tokens
  let bytes := (s.tokens.toList.map (·.text.length)).foldl Nat.add 0
  let (tree, s) := (start (rulesUpTo (productionsPerByte * (bytes + 1)))).run s
  { tree
    errors := s.errors.reverse.mergeSort fun a b => a.pos.offset ≤ b.pos.offset
    comments := tokens.filter fun t => t.kind == .comment || t.kind == .lineComment }

def parseUnit (source : Text) : Parsed := parse compilationUnit source

def parseExpression (source : Text) : Parsed := parse standaloneExpression source

end KiteCompiler.Grammar
