import KiteCompiler.Token.Kind

/-!
# Tokens

A token is a piece of the source with its kind and its place. Lines count from one, columns and offsets count bytes
from zero.
-/

namespace KiteCompiler

structure Position where
  offset : Nat := 0
  line : Nat := 0
  column : Nat := 0
  deriving DecidableEq, Repr, Inhabited

namespace Position

/-- The place before the first byte. -/
def start : Position := ⟨0, 1, 0⟩

/-- The place after one more byte. -/
def next (p : Position) (b : UInt8) : Position :=
  if b = Text.byte '\n' then ⟨p.offset + 1, p.line + 1, 0⟩ else ⟨p.offset + 1, p.line, p.column + 1⟩

def after (p : Position) (t : Text) : Position := t.foldl next p

/-- `line:column`, after the file name if there is one. -/
def text (file : Text) (p : Position) : Text :=
  let here := Text.ofNat p.line ++ ":" ++ Text.ofNat p.column
  if file.isEmpty then here else file ++ ":" ++ here

end Position

structure Span where
  first : Position
  last : Position
  deriving DecidableEq, Repr, Inhabited

/-- A token: its kind, its bytes and where they stand. -/
structure Token where
  kind : Token.Kind
  text : Text
  span : Span
  deriving DecidableEq, Repr, Inhabited

namespace Token

/-- At most twenty bytes of a text between single quotes. -/
def clip (t : Text) : Text :=
  if t.length > 20 then "'" ++ t.take 20 ++ "...'" else "'" ++ t ++ "'"

def describe (t : Token) : Text :=
  match t.kind with
  | .eof => "end of file"
  | .identifier | .intLiteral | .floatLiteral | .charLiteral | .stringLiteral => clip t.text
  | k => "'" ++ k.label ++ "'"

end Token

end KiteCompiler
