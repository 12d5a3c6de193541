import KiteCompiler.Ast.Node

/-!
# The text of types

Types are compared by their text without annotations.
-/

namespace KiteCompiler.Ast

/-- Texts with `first` before the first one and `between` before all others. -/
def introduced (first between : Text) : List Text → Text
  | [] => []
  | t :: ts => first ++ t ++ ts.flatMap (between ++ ·)

/-- The texts of the types in a piece of syntax: one for a type, one for each element of a list. -/
def typeTexts : {c : Category} → Ast c → List Text
  | _, primitive _ _ n => [n]
  | _, void _ => ["void"]
  | _, classRef t => typeTexts t
  | _, segment _ scope _ n arguments diamond =>
    let scope : Text := (typeTexts scope).flatMap fun t => t ++ Text.ofString "."
    let arguments : Text :=
      if diamond then "<>" else if arguments.isEmpty then [] else "<" ++ Text.join ", " (typeTexts arguments) ++ ">"
    [scope ++ n ++ arguments]
  | _, array _ component _ => [(typeTexts component).flatten ++ "[]"]
  | _, wildcard _ _ upper lower =>
    ["?" ++ introduced " extends " [] (typeTexts upper) ++ introduced " super " [] (typeTexts lower)]
  | _, exception _ t => typeTexts t
  | _, typeParameter _ _ n bounds => [n ++ introduced " extends " " & " (typeTexts bounds)]
  | _, cons t ts => typeTexts t ++ typeTexts ts
  | _, present t => typeTexts t
  | _, _ => []

def typeText {c : Category} (t : Ast c) : Text := (typeTexts t).flatten

end KiteCompiler.Ast
