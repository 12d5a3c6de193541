import KiteCompiler.Text.Basic

/-!
# Reading UTF-8

`Rune` is one decoding step: the code point at the front of a byte string and the number of bytes it takes. A byte
that starts no valid encoding (a stray continuation, an overlong form, a surrogate, a value above U+10FFFF, a cut
sequence) is read as U+FFFD of width one, so decoding always moves on.
-/

namespace KiteCompiler

/-- A decoded code point and the number of bytes it was read from. -/
structure Rune where
  code : Nat
  width : Nat
  deriving DecidableEq, Repr

namespace Rune

/-- What an undecodable byte is read as. -/
def invalid : Rune := ⟨0xFFFD, 1⟩

def isContinuation (b : UInt8) : Bool := 0x80 ≤ b && b ≤ 0xBF

/-- The six payload bits of a continuation byte. -/
def payload (b : UInt8) : Nat := b.toNat % 64

/-- The code point in front of the text. Nothing is read from the empty text. -/
def first : Text → Rune
  | [] => ⟨0xFFFD, 0⟩
  | a :: rest =>
    if a < 0x80 then ⟨a.toNat, 1⟩
    else if 0xC2 ≤ a && a ≤ 0xDF then
      match rest with
      | b :: _ => if isContinuation b then ⟨a.toNat % 32 * 64 + payload b, 2⟩ else invalid
      | _ => invalid
    else if 0xE0 ≤ a && a ≤ 0xEF then
      match rest with
      | b :: c :: _ =>
        let low : UInt8 := if a = 0xE0 then 0xA0 else 0x80
        let high : UInt8 := if a = 0xED then 0x9F else 0xBF
        if low ≤ b && b ≤ high && isContinuation c then
          ⟨(a.toNat % 16 * 64 + payload b) * 64 + payload c, 3⟩
        else invalid
      | _ => invalid
    else if 0xF0 ≤ a && a ≤ 0xF4 then
      match rest with
      | b :: c :: d :: _ =>
        let low : UInt8 := if a = 0xF0 then 0x90 else 0x80
        let high : UInt8 := if a = 0xF4 then 0x8F else 0xBF
        if low ≤ b && b ≤ high && isContinuation c && isContinuation d then
          ⟨((a.toNat % 8 * 64 + payload b) * 64 + payload c) * 64 + payload d, 4⟩
        else invalid
      | _ => invalid
    else invalid

/-- The runes of a text after its first `skip` bytes, each with the bytes it was read from. -/
def listFrom : Nat → Text → List (Rune × Text)
  | _, [] => []
  | skip + 1, _ :: rest => listFrom skip rest
  | 0, t@(_ :: rest) => let r := first t; (r, t.take r.width) :: listFrom (r.width - 1) rest

/-- The runes of a text in order, each with the bytes it was read from. -/
def list (t : Text) : List (Rune × Text) := listFrom 0 t

def encode (code : Nat) : Text := String.singleton (Char.ofNat code)

end Rune

end KiteCompiler
