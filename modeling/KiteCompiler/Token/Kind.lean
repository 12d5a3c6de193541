import KiteCompiler.Text.Basic

/-!
# Kinds of tokens

Layout, literals, words and punctuation of the Kite language. The name of a word or of punctuation is its spelling.
-/

namespace KiteCompiler.Token

/-- The kinds of tokens. Words of the language start with `kw`; `kwOf` is a keyword in class headers only. -/
inductive Kind where
  | eof | error | whitespace | comment | lineComment | identifier | intLiteral | floatLiteral | charLiteral
  | stringLiteral
  | kwTrue | kwFalse | kwNull | kwAbstract | kwAssert | kwBoolean | kwBreak | kwByte | kwCase | kwCatch
  | kwChar | kwClass | kwContinue | kwDefault | kwDo | kwDouble | kwElse | kwExtends | kwFinal | kwFinally
  | kwFloat | kwFor | kwIf | kwImport | kwInstanceof | kwInt | kwInterface | kwLong | kwMutable | kwNative
  | kwNew | kwPackage | kwPrivate | kwProtected | kwPublic | kwReturn | kwShort | kwStatic | kwStrictfp
  | kwSuper | kwSwitch | kwSynchronized | kwThis | kwThrow | kwThrows | kwTransient | kwTry | kwVoid
  | kwVolatile | kwWhile | kwOf
  | lparen | rparen | lbrace | rbrace | lbracket | rbracket | semicolon | comma | dot | ellipsis | atSign
  | colonColon | assign | equal | notEqual | less | lessEqual | greater | greaterEqual | andAnd | orOr | bang
  | ampersand | bar | caret | tilde | shiftLeft | shiftRight | shiftRightUnsigned | plus | minus | star
  | slash | percent | plusPlus | minusMinus | question | colon | arrow | plusAssign | minusAssign | starAssign
  | slashAssign | percentAssign | ampersandAssign | barAssign | caretAssign | shiftLeftAssign
  | shiftRightAssign | shiftRightUnsignedAssign
  deriving DecidableEq, Repr, Inhabited

namespace Kind

def name : Kind → String
  | .eof => "EOF"
  | .error => "Error"
  | .whitespace => "Whitespace"
  | .comment => "Comment"
  | .lineComment => "LineComment"
  | .identifier => "Identifier"
  | .intLiteral => "IntLiteral"
  | .floatLiteral => "FloatLiteral"
  | .charLiteral => "CharLiteral"
  | .stringLiteral => "StringLiteral"
  | .kwTrue => "true"
  | .kwFalse => "false"
  | .kwNull => "null"
  | .kwAbstract => "abstract"
  | .kwAssert => "assert"
  | .kwBoolean => "boolean"
  | .kwBreak => "break"
  | .kwByte => "byte"
  | .kwCase => "case"
  | .kwCatch => "catch"
  | .kwChar => "char"
  | .kwClass => "class"
  | .kwContinue => "continue"
  | .kwDefault => "default"
  | .kwDo => "do"
  | .kwDouble => "double"
  | .kwElse => "else"
  | .kwExtends => "extends"
  | .kwFinal => "final"
  | .kwFinally => "finally"
  | .kwFloat => "float"
  | .kwFor => "for"
  | .kwIf => "if"
  | .kwImport => "import"
  | .kwInstanceof => "instanceof"
  | .kwInt => "int"
  | .kwInterface => "interface"
  | .kwLong => "long"
  | .kwMutable => "mutable"
  | .kwNative => "native"
  | .kwNew => "new"
  | .kwPackage => "package"
  | .kwPrivate => "private"
  | .kwProtected => "protected"
  | .kwPublic => "public"
  | .kwReturn => "return"
  | .kwShort => "short"
  | .kwStatic => "static"
  | .kwStrictfp => "strictfp"
  | .kwSuper => "super"
  | .kwSwitch => "switch"
  | .kwSynchronized => "synchronized"
  | .kwThis => "this"
  | .kwThrow => "throw"
  | .kwThrows => "throws"
  | .kwTransient => "transient"
  | .kwTry => "try"
  | .kwVoid => "void"
  | .kwVolatile => "volatile"
  | .kwWhile => "while"
  | .kwOf => "of"
  | .lparen => "("
  | .rparen => ")"
  | .lbrace => "\x7b"
  | .rbrace => "\x7d"
  | .lbracket => "["
  | .rbracket => "]"
  | .semicolon => ";"
  | .comma => ","
  | .dot => "."
  | .ellipsis => "..."
  | .atSign => "@"
  | .colonColon => "::"
  | .assign => "="
  | .equal => "=="
  | .notEqual => "!="
  | .less => "<"
  | .lessEqual => "<="
  | .greater => ">"
  | .greaterEqual => ">="
  | .andAnd => "&&"
  | .orOr => "||"
  | .bang => "!"
  | .ampersand => "&"
  | .bar => "|"
  | .caret => "^"
  | .tilde => "~"
  | .shiftLeft => "<<"
  | .shiftRight => ">>"
  | .shiftRightUnsigned => ">>>"
  | .plus => "+"
  | .minus => "-"
  | .star => "*"
  | .slash => "/"
  | .percent => "%"
  | .plusPlus => "++"
  | .minusMinus => "--"
  | .question => "?"
  | .colon => ":"
  | .arrow => "->"
  | .plusAssign => "+="
  | .minusAssign => "-="
  | .starAssign => "*="
  | .slashAssign => "/="
  | .percentAssign => "%="
  | .ampersandAssign => "&="
  | .barAssign => "|="
  | .caretAssign => "^="
  | .shiftLeftAssign => "<<="
  | .shiftRightAssign => ">>="
  | .shiftRightUnsignedAssign => ">>>="

def label (k : Kind) : Text := k.name

def words : List Kind := [
  .kwTrue, .kwFalse, .kwNull, .kwAbstract, .kwAssert, .kwBoolean, .kwBreak, .kwByte, .kwCase, .kwCatch,
  .kwChar, .kwClass, .kwContinue, .kwDefault, .kwDo, .kwDouble, .kwElse, .kwExtends, .kwFinal, .kwFinally,
  .kwFloat, .kwFor, .kwIf, .kwImport, .kwInstanceof, .kwInt, .kwInterface, .kwLong, .kwMutable, .kwNative,
  .kwNew, .kwPackage, .kwPrivate, .kwProtected, .kwPublic, .kwReturn, .kwShort, .kwStatic, .kwStrictfp,
  .kwSuper, .kwSwitch, .kwSynchronized, .kwThis, .kwThrow, .kwThrows, .kwTransient, .kwTry, .kwVoid,
  .kwVolatile, .kwWhile, .kwOf]

def wordSpellings : List (Kind × Text) := words.map fun k => (k, k.label)

/-- The kind of an identifier-shaped text: a word of the language or a plain identifier. -/
def ofWord (t : Text) : Kind :=
  match wordSpellings.find? fun entry => entry.2 == t with
  | some entry => entry.1
  | none => .identifier

/-- Operators and punctuation, longer spellings before shorter ones. -/
def punctuation : List Kind := [
  .shiftRightUnsignedAssign,
  .ellipsis, .shiftRightUnsigned, .shiftLeftAssign, .shiftRightAssign,
  .colonColon, .equal, .notEqual, .lessEqual, .greaterEqual, .andAnd, .orOr, .shiftLeft, .shiftRight, .plusPlus,
  .minusMinus, .arrow, .plusAssign, .minusAssign, .starAssign, .slashAssign, .percentAssign, .ampersandAssign,
  .barAssign, .caretAssign,
  .lparen, .rparen, .lbrace, .rbrace, .lbracket, .rbracket, .semicolon, .comma, .dot, .atSign, .assign, .less,
  .greater, .bang, .ampersand, .bar, .caret, .tilde, .plus, .minus, .star, .slash, .percent, .question, .colon]

def all : List Kind := [.eof, .error, .whitespace, .comment, .lineComment, .identifier, .intLiteral, .floatLiteral,
  .charLiteral, .stringLiteral] ++ words ++ punctuation

def ofName? (n : String) : Option Kind := all.find? fun k => k.name == n

/-- Operators and punctuation with their spellings, longer ones first. -/
def punctuationSpellings : List (Kind × Text) := punctuation.map fun k => (k, k.label)

def isModifier : Kind → Bool
  | .kwPublic | .kwProtected | .kwPrivate | .kwAbstract | .kwStatic | .kwFinal | .kwMutable | .kwStrictfp
  | .kwNative | .kwSynchronized | .kwTransient | .kwVolatile | .kwDefault => true
  | _ => false

def isPrimitive : Kind → Bool
  | .kwBoolean | .kwByte | .kwChar | .kwShort | .kwInt | .kwLong | .kwFloat | .kwDouble => true
  | _ => false

/-- Can the token be used as a name? `of` can, outside class headers. -/
def isName (k : Kind) : Bool := k == .identifier || k == .kwOf

/-- Is this layout between tokens: blanks or a comment? -/
def isLayout : Kind → Bool
  | .whitespace | .comment | .lineComment => true
  | _ => false

end Kind

end KiteCompiler.Token
