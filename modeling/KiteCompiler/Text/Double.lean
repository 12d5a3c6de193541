import KiteCompiler.Text.Numeral

/-!
# Numbers of double precision

Decimal numbers are rounded to a significand of 53 bits and a power of two between `2 ^ -1074` and `2 ^ 971`. Of two
neighbours that are equally near the one with an even significand is taken.
-/

namespace KiteCompiler

/-- A finite number: a significand times a power of two. -/
structure Double where
  negative : Bool
  significand : Nat
  exponent : Int
  deriving DecidableEq, Repr

namespace Double

def zero (negative : Bool) : Double := ⟨negative, 0, 0⟩

/-- The quotient rounded to the nearest number, and to an even one if two are equally near. -/
def roundDiv (n d : Nat) : Nat :=
  let q := n / d
  let twice := 2 * (n % d)
  if d < twice || (twice = d && q % 2 = 1) then q + 1 else q

/-- The number nearest to a positive fraction; there is none for a fraction that is too large. -/
def ofRatio? (negative : Bool) (n d : Nat) : Option Double :=
  let guess : Int := (n.log2 : Int) - d.log2 - 52
  let isSmall : Bool := n * Nat.pow 2 (-guess).toNat < Nat.pow 2 52 * d * Nat.pow 2 guess.toNat
  let exponent := max (if isSmall then guess - 1 else guess) (-1074)
  let significand := roundDiv (n * Nat.pow 2 (-exponent).toNat) (d * Nat.pow 2 exponent.toNat)
  if 971 < exponent || (exponent = 971 && Nat.pow 2 53 ≤ significand) then none
  else some ⟨negative, significand, exponent⟩

/-- The number nearest to a mantissa times a power of ten; there is none for what is too large. -/
def ofDecimal? (negative : Bool) (mantissa : Nat) (exponent : Int) : Option Double :=
  let magnitude : Int := (Nat.toDigits 10 mantissa).length + exponent
  if mantissa = 0 || magnitude < -330 then some (zero negative)
  else if 310 < magnitude then none
  else ofRatio? negative (mantissa * Nat.pow 10 exponent.toNat) (Nat.pow 10 (-exponent).toNat)

/-- The number nearest to an integer of 64 bits. -/
def ofInt (n : Int) : Double := (ofDecimal? (n < 0) n.natAbs 0).getD (zero (n < 0))

/-- The part of a number before its point. -/
def truncate (x : Double) : Int :=
  let n : Nat := x.significand * Nat.pow 2 x.exponent.toNat / Nat.pow 2 (-x.exponent).toNat
  if x.negative then -n else n

end Double

end KiteCompiler
