import KiteCompiler.Text.Utf8

/-!
# Indented JSON

A JSON document as text: two spaces per level, one space after a colon. Characters that are unsafe inside HTML and
the two line separators are written as escapes; an undecodable byte becomes U+FFFD.
-/

namespace KiteCompiler

/-- JSON values as far as the syntax tree dumps need them. Object fields keep their order. -/
inductive Json where
  | string (value : Text)
  | number (value : Int)
  | array (items : List Json)
  | object (fields : List (String × Json))

namespace Json

/-- How one rune, read from `bytes`, is written inside a JSON string. -/
def escapeRune (r : Rune) (bytes : Text) : Text :=
  if r = Rune.invalid then Rune.encode 0xFFFD
  else
    match r.code with
    | 0x22 => "\\\""
    | 0x5C => "\\\\"
    | 0x08 => "\\b"
    | 0x0C => "\\f"
    | 0x0A => "\\n"
    | 0x0D => "\\r"
    | 0x09 => "\\t"
    | code =>
      if code < 0x20 || code = 0x3C || code = 0x3E || code = 0x26 || code = 0x2028 || code = 0x2029 then
        "\\u" ++ Text.hex 4 code
      else bytes

def quote (t : Text) : Text := "\"" ++ (Rune.list t).flatMap (fun (r, bytes) => escapeRune r bytes) ++ "\""

def lineBreak (level : Nat) : Text := Text.byte '\n' :: Text.spaces (2 * level)

mutual

/-- The value as text, with its continuation lines indented for `level`. -/
def renderAt (level : Nat) : Json → Text
  | .string value => quote value
  | .number value => Text.ofInt value
  | .array items =>
    if items.isEmpty then "[]"
    else "[" ++ renderItems (level + 1) items ++ lineBreak level ++ "]"
  | .object fields =>
    if fields.isEmpty then "\x7b\x7d"
    else "\x7b" ++ renderFields (level + 1) fields ++ lineBreak level ++ "\x7d"

/-- Array items, each on a line of its own. -/
def renderItems (level : Nat) : List Json → Text
  | [] => []
  | [item] => lineBreak level ++ renderAt level item
  | item :: rest => lineBreak level ++ renderAt level item ++ "," ++ renderItems level rest

/-- Object fields, each on a line of its own. -/
def renderFields (level : Nat) : List (String × Json) → Text
  | [] => []
  | [(name, value)] => lineBreak level ++ quote name ++ ": " ++ renderAt level value
  | (name, value) :: rest =>
    lineBreak level ++ quote name ++ ": " ++ renderAt level value ++ "," ++ renderFields level rest

end

def render (j : Json) : Text := renderAt 0 j

end Json

end KiteCompiler
