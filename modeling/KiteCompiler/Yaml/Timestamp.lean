import KiteCompiler.Text.Numeral

/-!
# Points in time

A day, or a day and a time on it. Days have four digits for the year and one or two for the month and the day, as in
`2001-12-14`. A time behind a `T` has a zone; a time behind blanks has none.
-/

namespace KiteCompiler.Yaml.Timestamp

/-- Passes one character out of several. -/
def mark? (marks : List Char) : List Char → Option (List Char)
  | c :: cs => if marks.contains c then some cs else none
  | [] => none

def number? : List Char → Option (Nat × List Char)
  | a :: b :: cs => do
    if b.isDigit then return (← Numeral.digits? 10 [a, b], cs)
    return (← Numeral.digits? 10 [a], b :: cs)
  | cs => do return (← Numeral.digits? 10 cs, [])

def pair? (cs : List Char) : Option (Nat × List Char) := do
  guard ((cs.take 2).length = 2 && (cs.take 2).all Char.isDigit)
  return (← Numeral.digits? 10 (cs.take 2), cs.drop 2)

def daysIn (year month : Nat) : Nat :=
  let isLeap : Bool := year % 4 = 0 && (year % 100 ≠ 0 || year % 400 = 0)
  if month = 2 then (if isLeap then 29 else 28)
  else if [4, 6, 9, 11].contains month then 30
  else 31

def day? (cs : List Char) : Option (List Char) := do
  guard ((cs.takeWhile Char.isDigit).length = 4)
  let year ← Numeral.digits? 10 (cs.take 4)
  let (month, cs) ← number? (← mark? ['-'] (cs.drop 4))
  let (day, cs) ← number? (← mark? ['-'] cs)
  guard (1 ≤ month && month ≤ 12 && 1 ≤ day && day ≤ daysIn year month)
  return cs

def fraction (cs : List Char) : List Char :=
  match cs with
  | c :: d :: rest => if (c = '.' || c = ',') && d.isDigit then rest.dropWhile Char.isDigit else cs
  | _ => cs

def time? (cs : List Char) : Option (List Char) := do
  let (hour, cs) ← number? cs
  let (minute, cs) ← number? (← mark? [':'] cs)
  let (second, cs) ← number? (← mark? [':'] cs)
  guard (hour < 24 && minute < 60 && second < 60)
  return fraction cs

/-- Passes a zone: a `Z`, or the distance from it. -/
def zone? (cs : List Char) : Option (List Char) :=
  match mark? ['Z'] cs with
  | some cs => some cs
  | none => do
    let (hours, cs) ← pair? (← mark? ['+', '-'] cs)
    let (minutes, cs) ← pair? (← mark? [':'] cs)
    guard (hours ≤ 24 && minutes ≤ 60)
    return cs

/-- Passes what may follow a day. -/
def rest? (cs : List Char) : Option (List Char) :=
  match cs with
  | [] => some []
  | ' ' :: cs => time? (cs.dropWhile (· = ' '))
  | cs => do zone? (← time? (← mark? ['T', 't'] cs))

def isTimestamp (cs : List Char) : Bool := (day? cs).bind rest? = some []

end KiteCompiler.Yaml.Timestamp
