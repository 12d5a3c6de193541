import KiteCompiler.Ast.Node
import KiteCompiler.Text.Json

/-!
# Dumps of the AST

An outline with one node per line, and an indented JSON document.
-/

namespace KiteCompiler.Node

/-- The properties in one field: `Name=value` with commas between them, or a dash. -/
def propertyText (n : Node) : Text :=
  if n.properties.isEmpty then "-"
  else Text.join "," (n.properties.map fun (key, value) => Text.ofString key ++ "=" ++ value)

/-- One node per line, indented by depth; tabs separate kind, place and properties. -/
def outline (t : Tree Node) : Text :=
  let line (depth : Nat) (n : Node) : Text :=
    Text.spaces (2 * depth) ++ n.kind.name ++ "\t" ++ n.place.text ++ "\t" ++ n.propertyText ++ "\n"
  (t.rows 0).flatMap fun (depth, n) => line depth n

private def placeJson (p : Place) : List (String × Json) :=
  if p.isValid then [("pos", .object [("line", .number p.line), ("column", .number p.column)])] else []

private def propertiesJson (n : Node) : List (String × Json) :=
  if n.properties.isEmpty then []
  else [("attrs", .object (n.properties.map fun (key, value) => (key, .string value)))]

private def treeJson : Tree Node → Json :=
  Tree.fold fun n children =>
    .object ([("kind", .string n.kind.name)] ++ placeJson n.place ++ propertiesJson n
      ++ if children.isEmpty then [] else [("children", .array children)])

def json (t : Tree Node) : Text := (treeJson t).render ++ "\n"

end KiteCompiler.Node
