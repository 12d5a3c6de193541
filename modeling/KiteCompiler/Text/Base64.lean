import KiteCompiler.Text.Basic

/-!
# Base64

Bytes written in groups of four characters of an alphabet of 64. The last group is filled up with equals signs. Line
breaks between characters are passed over.
-/

namespace KiteCompiler.Text.Base64

/-- The place of a character in the alphabet. -/
def value? (b : UInt8) : Option Nat :=
  if byte 'A' ≤ b && b ≤ byte 'Z' then some (b - byte 'A').toNat
  else if byte 'a' ≤ b && b ≤ byte 'z' then some ((b - byte 'a').toNat + 26)
  else if byte '0' ≤ b && b ≤ byte '9' then some ((b - byte '0').toNat + 52)
  else if b = byte '+' then some 62
  else if b = byte '/' then some 63
  else none

/-- The first `count` of the three bytes that four values stand for. -/
def bytes (count a b c d : Nat) : Text :=
  let n := ((a * 64 + b) * 64 + c) * 64 + d
  [(n / 65536).toUInt8, (n / 256).toUInt8, n.toUInt8].take count

/-- The bytes that groups of four characters stand for. -/
def groups? : Text → Option Text
  | [] => some []
  | a :: b :: c :: d :: rest => do
    let pad := byte '='
    if c = pad && d = pad && rest.isEmpty then return bytes 1 (← value? a) (← value? b) 0 0
    if d = pad && rest.isEmpty then return bytes 2 (← value? a) (← value? b) (← value? c) 0
    return bytes 3 (← value? a) (← value? b) (← value? c) (← value? d) ++ (← groups? rest)
  | _ => none

def decode? (t : Text) : Option Text := groups? (t.filter fun b => b ≠ byte '\n' && b ≠ byte '\r')

end KiteCompiler.Text.Base64
