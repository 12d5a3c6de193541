import KiteCompiler.Cst.Basic
import KiteCompiler.Text.Json
import KiteCompiler.Text.Quoted

/-!
# Dumps of syntax trees

Four views of a syntax tree for people and tools: an outline with one node per line, an indented JSON document, a plain
dump, and a list of spans.
-/

namespace KiteCompiler.Cst

def indentation (depth : Nat) : Text := Text.spaces (2 * depth)

/-! ## Outline -/

/-- What the outline tells about a node besides its kind and place. -/
def Label.detail (l : Label) : Text :=
  match l.error, l.token with
  | some e, _ => "error: " ++ e.message
  | none, some t => t.text
  | none, none => "-"

/-- One node per line, indented by depth; tabs separate kind, place and detail. -/
def outline (t : Cst) : Text :=
  (t.rows 0).flatMap fun (depth, l) =>
    indentation depth ++ l.kind.name ++ "\t" ++ l.span.first.text [] ++ "\t" ++ l.detail ++ "\n"

def commentKind (k : Token.Kind) : String := if k = .lineComment then "LineComment" else "BlockComment"

/-- The outline of a tree and of the comments that were kept aside. -/
def outlineWithComments (t : Cst) (comments : List Token) : Text :=
  let line (c : Token) : Text :=
    commentKind c.kind ++ "\t" ++ c.span.first.text [] ++ "\t" ++ Text.quoted c.text ++ "\n"
  t.outline ++ comments.flatMap line

/-! ## JSON -/

private def positionJson (p : Position) : Json := .object [("line", .number p.line), ("column", .number p.column)]

private def spanJson (s : Span) : Json := .object [("start", positionJson s.first), ("end", positionJson s.last)]

/-- A text field that is left out when empty. -/
private def optionalText (name : String) (value : Text) : List (String × Json) :=
  if value.isEmpty then [] else [(name, .string value)]

/-- An array field that is left out when empty. -/
private def optionalArray (name : String) (items : List Json) : List (String × Json) :=
  if items.isEmpty then [] else [(name, .array items)]

private def errorJson (e : SyntaxError) : Json :=
  .object ([("message", .string e.message)]
    ++ optionalArray "expected" (e.cause.expected.map fun k => .string k.name)
    ++ optionalText "got" ((e.cause.found.map (·.text)).getD []))

private def tokenJson (t : Token) : Json := .object [("kind", .string t.kind.name), ("text", .string t.text)]

private def commentJson (c : Token) : Json :=
  .object [("kind", .string (commentKind c.kind)), ("text", .string c.text), ("span", spanJson c.span)]

private def nodeJson : Cst → Json :=
  Tree.fold fun l children =>
    .object ([("kind", .string l.kind.name), ("span", spanJson l.span)]
      ++ (l.token.toList.map fun t => ("token", tokenJson t))
      ++ (l.error.toList.map fun e => ("error", errorJson e))
      ++ optionalArray "children" children)

/-- The tree and the comments that were kept aside as a JSON document that names the source file. -/
def json (file : Text) (t : Cst) (comments : List Token) : Text :=
  let document := Json.object (optionalText "file" file ++ [("root", nodeJson t)]
    ++ optionalArray "comments" (comments.map commentJson))
  document.render ++ "\n"

/-! ## Plain dump and spans -/

/-- One node per line with its token and its error. -/
def dump (t : Cst) : Text :=
  (t.rows 0).flatMap fun (depth, l) =>
    indentation depth ++ l.kind.name
      ++ (match l.token with
        | some t => " " ++ t.text
        | none => [])
      ++ (match l.error with
        | some e => " ERROR: " ++ e.message
        | none => [])
      ++ "\n"

/-- One node per line with its first and last position. -/
def spans (file : Text) (t : Cst) : Text :=
  t.preorder.flatMap fun l =>
    l.kind.name ++ " " ++ l.span.first.text file ++ " " ++ l.span.last.text file ++ "\n"

end KiteCompiler.Cst
