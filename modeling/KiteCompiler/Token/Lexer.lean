import KiteCompiler.Token.Basic
import KiteCompiler.Text.Utf8
import KiteCompiler.Text.Letter

/-!
# Lexing

`scan` finds the kind and the length of the token in front of a text; `lex` divides a whole source into tokens. No
byte is lost: blanks and comments are tokens, and what starts no token becomes an `error` token.

The byte zero is read like the end of the source inside line comments and quoted literals.
-/

namespace KiteCompiler.Token

open Text (byte)

/-! ## Classes of bytes -/

def isSpace (b : UInt8) : Bool :=
  b == byte ' ' || b == byte '\t' || b == byte '\r' || b == byte '\n' || b == 0x0C

def isDigit (b : UInt8) : Bool := byte '0' ≤ b && b ≤ byte '9'

def isAsciiLetter (b : UInt8) : Bool :=
  (byte 'a' ≤ b && b ≤ byte 'z') || (byte 'A' ≤ b && b ≤ byte 'Z')

def isHexDigit (b : UInt8) : Bool :=
  isDigit b || (byte 'a' ≤ b && b ≤ byte 'f') || (byte 'A' ≤ b && b ≤ byte 'F')

def isBinaryDigit (b : UInt8) : Bool := b == byte '0' || b == byte '1'

/-- The byte at an index, zero past the end. -/
def peek (s : Text) (i : Nat) : UInt8 := s.getD i 0

/-! ## Identifiers -/

def startsName : Text → Bool
  | [] => false
  | s@(b :: _) =>
    if b < 0x80 then isAsciiLetter b || b == byte '_' || b == byte '$'
    else Text.isLetter (Rune.first s).code

/-- Can the character in front of the text go on an identifier? -/
def continuesName : Text → Bool
  | [] => false
  | s@(b :: _) =>
    if b < 0x80 then startsName s || isDigit b
    else Text.isLetter (Rune.first s).code || Text.isDecimalDigit (Rune.first s).code

/-- The number of bytes of the longest run of identifier characters, the first `skip` bytes being part of it. -/
def nameLength : Nat → Text → Nat
  | _, [] => 0
  | skip + 1, _ :: rest => 1 + nameLength skip rest
  | 0, s@(_ :: rest) => if continuesName s then 1 + nameLength ((Rune.first s).width - 1) rest else 0

/-! ## Numbers -/

/-- The number of leading bytes that are underscores or satisfy `p`. -/
def digitRun (p : UInt8 → Bool) (s : Text) : Nat := (s.takeWhile fun b => p b || b == byte '_').length

/-- Does a point after integer digits belong to the number, given the byte after it? `3.` and `3.e2` are numbers;
`3.x` and `3..` are not. -/
def fractionFollows (b : UInt8) : Bool :=
  if isDigit b then true
  else if b == byte 'e' || b == byte 'E' || b == byte 'f' || b == byte 'F' || b == byte 'd' || b == byte 'D' then true
  else if b == byte '.' || b == byte '_' || b == byte '$' || b ≥ 0x80 then false
  else !isAsciiLetter b

/-- A suffix that makes a number a floating point number. -/
def isFloatSuffix (b : UInt8) : Bool := b == byte 'f' || b == byte 'F' || b == byte 'd' || b == byte 'D'

def isLongSuffix (b : UInt8) : Bool := b == byte 'l' || b == byte 'L'

/-- The length of an exponent in front of the text whose mark is `lower` or `upper`, zero if there is none. -/
def exponentLength (lower upper : Char) (s : Text) : Nat :=
  if peek s 0 == byte lower || peek s 0 == byte upper then
    let sign := if peek s 1 == byte '+' || peek s 1 == byte '-' then 1 else 0
    1 + sign + digitRun isDigit (s.drop (1 + sign))
  else 0

/-- A decimal number: its kind and length. -/
def scanDecimal (s : Text) : Kind × Nat :=
  let whole := digitRun isDigit s
  let fraction :=
    if peek s whole == byte '.' && fractionFollows (peek s (whole + 1)) then
      1 + digitRun isDigit (s.drop (whole + 1))
    else 0
  let power := exponentLength 'e' 'E' (s.drop (whole + fraction))
  let length := whole + fraction + power
  let isFloat := fraction > 0 || power > 0
  if isFloatSuffix (peek s length) then (.floatLiteral, length + 1)
  else if isFloat then (.floatLiteral, length)
  else if isLongSuffix (peek s length) then (.intLiteral, length + 1)
  else (.intLiteral, length)

/-- A hexadecimal number, which may have a fraction and a binary exponent. -/
def scanHex (s : Text) : Kind × Nat :=
  let whole := 2 + digitRun isHexDigit (s.drop 2)
  let fraction := if peek s whole == byte '.' then 1 + digitRun isHexDigit (s.drop (whole + 1)) else 0
  let power := exponentLength 'p' 'P' (s.drop (whole + fraction))
  let length := whole + fraction + power
  if fraction > 0 || power > 0 then
    (.floatLiteral, if isFloatSuffix (peek s length) then length + 1 else length)
  else (.intLiteral, if isLongSuffix (peek s length) then length + 1 else length)

def scanBinary (s : Text) : Kind × Nat :=
  let length := 2 + digitRun isBinaryDigit (s.drop 2)
  (.intLiteral, if isLongSuffix (peek s length) then length + 1 else length)

def scanNumber (s : Text) : Kind × Nat :=
  if peek s 0 == byte '0' && (peek s 1 == byte 'x' || peek s 1 == byte 'X') then scanHex s
  else if peek s 0 == byte '0' && (peek s 1 == byte 'b' || peek s 1 == byte 'B') then scanBinary s
  else scanDecimal s

/-! ## Comments, literals, punctuation -/

/-- The number of bytes up to and including the end of a block comment, if it ends. -/
def blockCommentEnd? : Text → Option Nat
  | [] => none
  | a :: rest =>
    if a == byte '*' && peek rest 0 == byte '/' then some 2
    else (blockCommentEnd? rest).map (· + 1)

/-- The bytes of a quoted literal after its opening quote, and whether it is closed. A backslash takes the next byte
with it, whatever that is. -/
def quotedTail (quote : UInt8) : Text → Nat × Bool
  | [] => (0, false)
  | b :: rest =>
    if b == quote then (1, true)
    else if b == 0 || b == byte '\n' then (0, false)
    else if b == byte '\\' then
      match rest with
      | [] => (1, false)
      | _ :: rest => let (n, closed) := quotedTail quote rest; (n + 2, closed)
    else let (n, closed) := quotedTail quote rest; (n + 1, closed)

/-- A quoted literal, which is an error unless it is closed. -/
def scanQuoted (quote : UInt8) (kind : Kind) (s : Text) : Kind × Nat :=
  let (n, closed) := quotedTail quote (s.drop 1)
  (if closed then kind else .error, n + 1)

/-- Punctuation by its longest spelling; any other character is an error of its own length. -/
def scanPunctuation (s : Text) : Kind × Nat :=
  match Kind.punctuationSpellings.find? fun entry => entry.2.isPrefixOf s with
  | some (kind, spelling) => (kind, spelling.length)
  | none => (.error, (Rune.first s).width)

/-! ## The token in front of a text -/

/-- The kind and length of the token in front of a text that is not empty. -/
def scan (s : Text) : Kind × Nat :=
  let b := peek s 0
  if b == byte '/' && peek s 1 == byte '/' then
    (.lineComment, 2 + ((s.drop 2).takeWhile fun c => c != 0 && c != byte '\n').length)
  else if b == byte '/' && peek s 1 == byte '*' then
    match blockCommentEnd? (s.drop 2) with
    | some n => (.comment, n + 2)
    | none => (.error, s.length)
  else if isSpace b then (.whitespace, (s.takeWhile isSpace).length)
  else if startsName s then
    let n := nameLength 0 s
    (Kind.ofWord (s.take n), n)
  else if isDigit b || (b == byte '.' && isDigit (peek s 1)) then scanNumber s
  else if b == byte '\'' then scanQuoted b .charLiteral s
  else if b == byte '"' then scanQuoted b .stringLiteral s
  else scanPunctuation s

/-! ## Whole sources -/

/-- The tokens of a text that stands at `p`, the last one being the end of file; `fuel` bounds their number. -/
def lexFrom : Nat → Position → Text → List Token
  | 0, p, _ => [⟨.eof, [], ⟨p, p⟩⟩]
  | _, p, [] => [⟨.eof, [], ⟨p, p⟩⟩]
  | fuel + 1, p, s@(_ :: _) =>
    let (kind, length) := scan s
    let lexeme := s.take length
    let next := p.after lexeme
    ⟨kind, lexeme, ⟨p, next⟩⟩ :: lexFrom fuel next (s.drop length)

/-- The tokens of a source, the last one being the end of file. -/
def lex (source : Text) : List Token := lexFrom source.length .start source

end KiteCompiler.Token
