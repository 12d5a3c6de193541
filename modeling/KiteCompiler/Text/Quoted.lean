import KiteCompiler.Text.Utf8
import KiteCompiler.Text.Printable

/-!
# Quoted text

A text between double quotes in which everything that does not print is escaped, so that two different texts have
two different quoted forms.
-/

namespace KiteCompiler.Text

def letterEscape? : Nat → Option Char
  | 0x07 => some 'a'
  | 0x08 => some 'b'
  | 0x0C => some 'f'
  | 0x0A => some 'n'
  | 0x0D => some 'r'
  | 0x09 => some 't'
  | 0x0B => some 'v'
  | _ => none

/-- How one rune, read from `bytes`, is written between quotes. -/
def quoteRune (r : Rune) (bytes : Text) : Text :=
  if r = Rune.invalid then "\\x" ++ (bytes.flatMap fun b => hex 2 b.toNat)
  else if r.code = 0x22 || r.code = 0x5C then byte '\\' :: bytes
  else if isPrintable r.code then bytes
  else
    match letterEscape? r.code with
    | some c => [byte '\\', byte c]
    | none =>
      if r.code < 0x20 || r.code = 0x7F then "\\x" ++ hex 2 r.code
      else if r.code < 0x10000 then "\\u" ++ hex 4 r.code
      else "\\U" ++ hex 8 r.code

/-- The text between double quotes, with escapes for what does not print. -/
def quoted (t : Text) : Text :=
  byte '"' :: (Rune.list t).flatMap (fun (r, bytes) => quoteRune r bytes) ++ [byte '"']

end KiteCompiler.Text
