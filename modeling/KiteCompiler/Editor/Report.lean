import KiteCompiler.Diagnostic.Basic
import KiteCompiler.Text.Utf8

/-!
# Reports to an editor

Diagnostics as an editor wants them. Editors count lines from zero and columns in units of UTF-16, of which a character
has one or two; all numbers are 32 bit words.
-/

namespace KiteCompiler

namespace Editor

structure Position where
  line : UInt32
  character : UInt32
  deriving DecidableEq, Repr

structure Range where
  start : Position
  stop : Position
  deriving DecidableEq, Repr

structure Report where
  range : Range
  isWarning : Bool
  message : Text
  deriving DecidableEq, Repr

def word (n : Int) : UInt32 := UInt32.ofNat (n % Int.pow 2 32).toNat

def units (r : Rune) : Nat := if r.code < 0x10000 then 1 else 2

/-- The units and bytes of characters up to the first that starts at byte `column` or behind it. -/
def passed (column : Nat) : List (Rune × Text) → Nat × Nat
  | [] => (0, 0)
  | (r, _) :: rest =>
    if column = 0 then (0, 0)
    else
      let (n, bytes) := passed (column - r.width) rest
      (n + units r, bytes + r.width)

/-- The column in units for a column in bytes. A byte inside of a character counts from the end of the character back,
and one behind the end of the line as a unit of its own. -/
def unitColumn (line : Text) (column : Nat) : Int :=
  let (n, bytes) := passed column (Rune.list line)
  n + column - bytes

/-- The units of the character at a column; behind the end of the line it is one. -/
def unitWidth (line : Text) (column : Nat) : Nat :=
  match line.drop column with
  | [] => 1
  | rest => units (Rune.first rest)

/-- The start of a place, and the units of the character there. -/
def locate (lines : List Text) (p : Place) : Position × Nat :=
  if p.isValid then
    match if p.line < 1 then none else lines[p.line.toNat - 1]? with
    | some line =>
      let column := unitColumn line p.column.toNat
      let column := if line.length ≤ p.column.toNat then max column 0 else column
      (⟨word (p.line - 1), word column⟩, unitWidth line p.column.toNat)
    | none => (⟨word (p.line - 1), word p.column⟩, 1)
  else (⟨0, 0⟩, 1)

def report (content : Text) (d : Diagnostic) : Report :=
  let (start, width) := locate (Text.split 10 content) d.place
  ⟨⟨start, { start with character := start.character + UInt32.ofNat width }⟩, d.severity = .warning, d.message⟩

def reports (content : Text) (ds : List Diagnostic) : List Report := ds.map (report content)

end Editor

end KiteCompiler
