import KiteCompiler.Ast.Basic
import KiteCompiler.Cst.SyntaxError

/-!
# Diagnostics

What the compiler has to say about a source: messages with a place and a severity.
-/

namespace KiteCompiler

/-- How bad it is. Numbers beyond the two known severities keep their number. -/
inductive Severity where
  | error | warning
  | other (number : Int)
  deriving DecidableEq, Repr, Inhabited

namespace Severity

def text : Severity → Text
  | error => "error"
  | warning => "warning"
  | other number => "Severity(" ++ Text.ofInt number ++ ")"

end Severity

structure Diagnostic where
  severity : Severity
  message : Text
  place : Place
  deriving DecidableEq, Repr, Inhabited

namespace Diagnostic

/-- The place as people count: lines and columns from one. -/
def placeText (p : Place) : Text :=
  if p.isValid then Text.ofInt p.line ++ ":" ++ Text.ofInt (p.column + 1) else "-"

/-- Place, severity and message in one line, after the file name if there is one. -/
def text (file : Text) (d : Diagnostic) : Text :=
  let line := placeText d.place ++ ": " ++ d.severity.text ++ ": " ++ d.message
  if file.isEmpty then line else file ++ ":" ++ line

def count (ds : List Diagnostic) (s : Severity) : Nat := ds.countP (·.severity == s)

def hasErrors (ds : List Diagnostic) : Bool := count ds .error > 0

def promote (ds : List Diagnostic) : List Diagnostic := ds.map fun d => { d with severity := .error }

def ofSyntaxError (e : SyntaxError) : Diagnostic := ⟨.error, e.message, ⟨e.pos.line, e.pos.column⟩⟩

def counted (n : Nat) (what : Text) : Text := if n = 1 then "1 " ++ what else Text.ofNat n ++ " " ++ what ++ "s"

/-- How many errors and warnings there are; `failed` if there is neither. -/
def summary (ds : List Diagnostic) : Text :=
  let part (s : Severity) : List Text := if count ds s > 0 then [counted (count ds s) s.text] else []
  let parts := part .error ++ part .warning
  if parts.isEmpty then "failed" else Text.join " and " parts

/-- The failure of a whole file: a summary and a line for each diagnostic. -/
def failure (file : Text) (ds : List Diagnostic) : Text :=
  Text.join "\n" ((file ++ ": " ++ summary ds) :: ds.map (·.text file))

end Diagnostic

end KiteCompiler
