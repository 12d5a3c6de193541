import KiteCompiler.Text.Basic

/-!
# Numerals

Natural numbers as they are written: decimal, or with `0x`, `0b`, `0o` or `0` in front in another base.
-/

namespace KiteCompiler.Numeral

/-- A number in digits of the given base; there has to be one. -/
def digits? (base : Nat) (cs : List Char) : Option Nat :=
  if cs.isEmpty then none
  else
    cs.foldlM (fun n c =>
      let d := if c.isDigit then c.toNat - '0'.toNat
        else if 'a' ≤ c && c ≤ 'z' then c.toNat - 'a'.toNat + 10
        else if 'A' ≤ c && c ≤ 'Z' then c.toNat - 'A'.toNat + 10
        else base
      if d < base then some (base * n + d) else none) 0

def signed : List Char → Bool × List Char
  | '-' :: cs => (true, cs)
  | '+' :: cs => (false, cs)
  | cs => (false, cs)

/-- A natural number; its base can be given by letters, and is eight after a zero. -/
def natural? : List Char → Option Nat
  | '0' :: x :: cs =>
    if x = 'x' || x = 'X' then digits? 16 cs
    else if x = 'b' || x = 'B' then digits? 2 cs
    else if x = 'o' || x = 'O' then digits? 8 cs
    else digits? 8 (x :: cs)
  | cs => digits? 10 cs

/-- Do underscores stand only between digits, where the letters of a base count as a digit? -/
def isGrouped (cs : List Char) : Bool :=
  let (isHex, body) := match (signed cs).2 with
    | '0' :: x :: rest =>
      if ['x', 'X', 'b', 'B', 'o', 'O'].contains x then (x = 'x' || x = 'X', '0' :: rest) else (false, '0' :: x :: rest)
    | body => (false, body)
  let isDigit (c : Char) : Bool := c.isDigit || (isHex && ((digits? 16 [c]).isSome))
  (body.zip ((none :: body.map some).zip (body.tail.map some ++ [none]))).all fun (c, before, after) =>
    c ≠ '_' || (before.any isDigit && after.any isDigit)

/-- The base that a number is written in, and its digits. -/
def based : List Char → Nat × List Char
  | '0' :: x :: cs =>
    if cs.isEmpty then (8, [x])
    else if x = 'x' || x = 'X' then (16, cs)
    else if x = 'b' || x = 'B' then (2, cs)
    else if x = 'o' || x = 'O' then (8, cs)
    else (8, x :: cs)
  | cs => (10, cs)

inductive Fault where
  | noInteger
  | tooLarge
  deriving DecidableEq, Repr

/-- An integer of 64 bits, with groups of digits. It is too large as soon as the digits before the first other character
are. -/
def integer (cs : List Char) : Except Fault Int :=
  let (negative, body) := signed cs
  let (base, body) := based body
  let body := body.filter (· ≠ '_')
  let digits := body.takeWhile fun c => (digits? base [c]).isSome
  let n := (digits? base digits).getD 0
  if Nat.pow 2 64 ≤ n then .error .tooLarge
  else if digits.isEmpty || digits ≠ body || !isGrouped cs then .error .noInteger
  else if negative then (if n ≤ Nat.pow 2 63 then .ok (-n) else .error .tooLarge)
  else if n < Nat.pow 2 63 then .ok n
  else .error .tooLarge

end KiteCompiler.Numeral
