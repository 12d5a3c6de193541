import KiteCompiler.Text.Base64
import KiteCompiler.Text.Double
import KiteCompiler.Yaml.Timestamp

/-!
# Values of YAML scalars

What a scalar stands for. A plain scalar without a tag can be nothing, a truth value, a number or a point in time; in
every other case it is a text. A tag of one of these kinds has to fit the scalar; a tag of another kind leaves it a
text.
-/

namespace KiteCompiler.Yaml

open Numeral

/-- Numbers with a point or an exponent. -/
inductive Real where
  | nan
  | infinity (negative : Bool)
  | finite (value : Double)
  deriving DecidableEq, Repr

inductive Value where
  | null
  | bool (value : Bool)
  | int (value : Int)
  | real (value : Real)
  | time
  | text (value : Text)
  deriving DecidableEq, Repr

/-! ## Numbers -/

/-- An integer that fits into 64 bits, with a sign or without. -/
def whole? (cs : List Char) : Option Int := do
  let (negative, body) := signed cs
  let n ← natural? body
  if negative then
    if n ≤ Nat.pow 2 63 then some (-n) else none
  else if cs = body then (if n < Nat.pow 2 64 then some n else none)
  else if n < Nat.pow 2 63 then some n
  else none

/-- A binary or octal number with a sign behind the letter of its base. -/
def signedBehindBase? (cs : List Char) : Option Int := do
  let (base, body) ← match cs with
    | '0' :: 'b' :: body => some (2, body)
    | '0' :: 'o' :: body => some (8, body)
    | _ => none
  let (negative, digits) := signed body
  let n : Int ← digits? base digits
  let n := if negative then -n else n
  if -Int.pow 2 63 ≤ n && n < Int.pow 2 63 then some n else none

/-- A decimal number: digits with at most one point, and an exponent. There is none if it is too large. -/
def decimal? (cs : List Char) : Option Real := do
  let (negative, body) := signed cs
  let whole := body.takeWhile (·.isDigit)
  let rest := body.dropWhile (·.isDigit)
  let (fraction, rest) := match rest with
    | '.' :: rest => (rest.takeWhile Char.isDigit, rest.dropWhile Char.isDigit)
    | rest => ([], rest)
  guard (!whole.isEmpty || !fraction.isEmpty)
  let exponent : Int ← match rest with
    | [] => some 0
    | e :: rest => do
      guard (e = 'e' || e = 'E')
      let (negative, body) := signed rest
      let n ← digits? 10 body
      pure (if negative then -(n : Int) else n)
  let mantissa ← digits? 10 (whole ++ fraction)
  return .finite (← Double.ofDecimal? negative mantissa (exponent - fraction.length))

/-- The part of a real number before its point in 64 bits; large numbers have none. What does not fit becomes the least
number. -/
def Real.truncate? : Real → Option Int
  | nan => none
  | infinity negative => if negative then some (-Int.pow 2 63) else none
  | finite x =>
    let n := x.truncate
    if Int.pow 2 63 < n then none else some (if -Int.pow 2 63 ≤ n && n < Int.pow 2 63 then n else -Int.pow 2 63)

/-! ## Plain scalars -/

def word? : String → Option Value
  | "" | "~" | "null" | "Null" | "NULL" => some .null
  | "true" | "True" | "TRUE" => some (.bool true)
  | "false" | "False" | "FALSE" => some (.bool false)
  | ".nan" | ".NaN" | ".NAN" => some (.real .nan)
  | ".inf" | ".Inf" | ".INF" | "+.inf" | "+.Inf" | "+.INF" => some (.real (.infinity false))
  | "-.inf" | "-.Inf" | "-.INF" => some (.real (.infinity true))
  | _ => none

def startsNumber (cs : List Char) : Bool := cs.head?.any fun c => c.isDigit || c = '+' || c = '-'

/-- Do underscores stand only between two digits? -/
def areDigitsGrouped (cs : List Char) : Bool :=
  (cs.zip ((none :: cs.map some).zip (cs.tail.map some ++ [none]))).all fun (c, before, after) =>
    c ≠ '_' || (before.any Char.isDigit && after.any Char.isDigit)

/-- The number or time that a plain scalar stands for. In front of a point no underscores are passed over but those
between digits. -/
def number? (mayBeTime : Bool) (cs : List Char) : Option Value :=
  if startsNumber cs then
    if mayBeTime && Timestamp.isTimestamp cs then some .time
    else
      let cs := cs.filter (· ≠ '_')
      ((whole? cs).map .int).or (((decimal? cs).map .real).or ((signedBehindBase? cs).map .int))
  else if cs.head? = some '.' && areDigitsGrouped cs then (decimal? (cs.filter (· ≠ '_'))).map .real
  else none

def plainValue (mayBeTime : Bool) (t : Text) : Value :=
  match Text.toString? t with
  | none => .text t
  | some s => (word? s).getD ((number? mayBeTime s.toList).getD (.text t))

/-! ## Tags -/

def Value.tag : Value → Text
  | null => "!!null"
  | bool _ => "!!bool"
  | int _ => "!!int"
  | real _ => "!!float"
  | time => "!!timestamp"
  | text _ => "!!str"

def strictTags : List Text := ["!!null", "!!bool", "!!int", "!!float", "!!timestamp"]

inductive TagFault where
  /-- The scalar stands for a value with another tag. -/
  | wrongTag (found : Text)
  | noBase64
  deriving DecidableEq, Repr

/-- The value of a scalar with a tag. A whole number is also a real one. -/
def taggedValue (tag t : Text) : Except TagFault Value :=
  if tag = Text.ofString "!!binary" then
    match Text.Base64.decode? t with
    | some bytes => .ok (.text bytes)
    | none => .error .noBase64
  else if !strictTags.contains tag then .ok (.text t)
  else
    let v := plainValue (tag = Text.ofString "!!timestamp") t
    if v.tag = tag then .ok v
    else
      match v with
      | .int n =>
        if tag = Text.ofString "!!float" && n < Int.pow 2 63 then .ok (.real (.finite (.ofInt n)))
        else .error (.wrongTag v.tag)
      | _ => .error (.wrongTag v.tag)

end KiteCompiler.Yaml
