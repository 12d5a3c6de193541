import KiteCompiler.Diagnostic.Basic
import KiteCompiler.Text.Width

/-!
# Diagnostics for a terminal

Each diagnostic is shown with the line it is about and a caret under the place. Tabs are shown as spaces up to the next
multiple of four columns, so that the caret stands under the right character.
-/

namespace KiteCompiler

/-- How parts of the output are coloured. -/
structure Palette where
  error : Text → Text
  warning : Text → Text
  accent : Text → Text

namespace Palette

def plain : Palette := ⟨id, id, id⟩

/-- A text between two escape sequences. -/
def escaped (on off : Text) (t : Text) : Text := 0x1B :: on ++ t ++ 0x1B :: off

/-- Bold red, bold yellow and blue. -/
def colored : Palette := ⟨escaped "[31;1m" "[0;22m", escaped "[33;1m" "[0;22m", escaped "[34m" "[0m"⟩

def ofSeverity (p : Palette) : Severity → Text → Text
  | .warning => p.warning
  | _ => p.error

end Palette

namespace Excerpt

/-- The columns between two tab stops. -/
def tabStop : Nat := 4

/-- The pieces between tabs, with each tab replaced by spaces up to the next tab stop; `width` measures a piece, and
`column` is where the first piece starts. -/
def expandPieces (width : Text → Nat) (column : Nat) : List Text → Text
  | [] => []
  | [piece] => piece
  | piece :: rest =>
    let column := column + width piece
    let tab := tabStop - column % tabStop
    piece ++ Text.spaces tab ++ expandPieces width (column + tab) rest

/-- The line with tabs replaced by spaces up to the next tab stop. -/
def expandTabs (width : Text → Nat) (line : Text) : Text :=
  expandPieces width 0 (Text.split (Text.byte '\t') line)

/-- The width of the line up to a column. -/
def columnWidth (width : Text → Nat) (line : Text) (column : Int) : Nat :=
  width (expandTabs width (line.take column.toNat))

def unifyLineEnds : Text → Text
  | [] => []
  | 0x0D :: 0x0A :: rest => 0x0A :: unifyLineEnds rest
  | b :: rest => b :: unifyLineEnds rest

/-- The lines of a source; an empty source has none. -/
def lines (source : Text) : List Text :=
  if source.isEmpty then [] else Text.split (Text.byte '\n') (unifyLineEnds source)

/-- The line a diagnostic is about with a caret under its place. Nothing is shown behind the last line or without a
place; there is no line zero. -/
def body (palette : Palette) (lines : List Text) (d : Diagnostic) : Option Text :=
  if !d.place.isValid || d.place.line > lines.length then some []
  else
    match d.place.line.toNat with
    | 0 => none
    | index + 1 =>
      let line := lines.getD index []
      let number := Text.ofInt d.place.line
      let caret := Text.spaces (columnWidth Text.displayWidth line d.place.column) ++ palette.ofSeverity d.severity "^"
      some (palette.accent (" " ++ number ++ " |") ++ " " ++ expandTabs Text.displayWidth line ++ "\n"
        ++ palette.accent (" " ++ Text.spaces number.length ++ " |") ++ " " ++ caret ++ "\n")

def one (palette : Palette) (file : Text) (lines : List Text) (d : Diagnostic) : Option Text := do
  let place := Diagnostic.placeText d.place
  let start := if file.isEmpty then place else file ++ ":" ++ place
  let severity := palette.ofSeverity d.severity (d.severity.text ++ ":")
  let body ← body palette lines d
  return start ++ ": " ++ severity ++ " " ++ d.message ++ "\n" ++ body

/-- All diagnostics of a source; none if one is about line zero. -/
def render (palette : Palette) (file source : Text) (ds : List Diagnostic) : Option Text := do
  let lines := lines source
  let parts ← ds.mapM (one palette file lines)
  return parts.flatten

/-- One line that counts errors and warnings; nothing if there are no diagnostics. -/
def summary (palette : Palette) (ds : List Diagnostic) : Text :=
  if ds.isEmpty then []
  else
    let color := if Diagnostic.hasErrors ds then palette.error else palette.warning
    color ("encountered " ++ Diagnostic.summary ds) ++ "\n"

end Excerpt

end KiteCompiler
