import KiteCompiler.Text.Utf8

/-!
# Tables

Rows of cells in aligned columns. Every cell but the last of its row is filled up with blanks, so that two of them stand
behind the widest cell of its column.
-/

namespace KiteCompiler.Text

def cellWidth (t : Text) : Nat := (Rune.list t).length

def fillCell (width : Nat) (t : Text) : Text := t ++ spaces (width - cellWidth t)

def columnWidth (rows : List (List Text)) (column : Nat) : Nat :=
  (rows.map fun row => if column + 1 < row.length then (row[column]?.map fun t => cellWidth t + 2).getD 0 else 0).foldl
    max 0

def tableRow (rows : List (List Text)) (row : List Text) : Text :=
  (row.zipIdx.flatMap fun (t, i) => if i + 1 < row.length then fillCell (columnWidth rows i) t else t) ++ "\n"

def table (rows : List (List Text)) : Text := rows.flatMap (tableRow rows)

end KiteCompiler.Text
