import KiteCompiler.CommandLine.Command

/-!
# Help

What is printed about the program and its commands: what a command does, how it is called, the commands below it and its
flags, each list in the order of names.
-/

namespace KiteCompiler.CommandLine

def Flag.Kind.placeholder : Flag.Kind → Text
  | .switch => ""
  | .count => " count"
  | .number => " int"
  | .text => " string"
  | .list => " strings"
  | .duration => " duration"

/-- How a flag is given. Names stand below each other, whether they have a letter or not. -/
def Flag.form (f : Flag) : Text :=
  let letter : Text := match f.letter with
    | some l => "  -" ++ [l] ++ ", "
    | none => Text.spaces 6
  letter ++ "--" ++ f.name ++ f.kind.placeholder

def Flag.remark (f : Flag) : Text :=
  match f.preset with
  | some v => f.about ++ " (default " ++ v ++ ")"
  | none => f.about

/-- Flags, one on a line, in the order of their names. What they do stands three blanks behind the longest. -/
def flagLines (flags : List Flag) : List Text :=
  let width := (flags.map (·.form.length)).foldl max 0
  (flags.mergeSort fun f g => Text.precedes f.name g.name).map fun f =>
    f.form ++ Text.spaces (width + 3 - f.form.length) ++ f.remark

/-- Commands, one on a line, in the order of their names. -/
def commandLines (commands : List Command) : List Text :=
  (commands.mergeSort fun c d => Text.precedes c.name d.name).map fun c =>
    "  " ++ c.name ++ Text.spaces (11 - c.name.length) ++ " " ++ c.summary

/-- How a command is called. Only the script for `bash` does not say that there are flags. -/
def callLine (c : Command) : Text :=
  let flags : Text := if c = .script .bash then "" else " [flags]"
  "  " ++ Command.path (some c) ++ c.synopsis ++ flags

def headed (heading : Text) (lines : List Text) : Text :=
  if lines.isEmpty then [] else "\n\n" ++ heading ++ ":\n" ++ Text.join "\n" lines

/-- How a command, or the program, is used; `flags` are those that belong to it alone. -/
def usageWith (c : Option Command) (flags : List Flag) : Text :=
  let inner := Command.below c
  let calls : List Text := if Command.isRunnable c then (c.map callLine).toList else []
  let innerCalls : List Text := if inner.isEmpty then [] else ["  " ++ Command.path c ++ " [command]"]
  let hint : Text :=
    if inner.isEmpty then []
    else "\n\nUse \"" ++ Command.path c ++ " [command] --help\" for more information about a command."
  "Usage:\n" ++ Text.join "\n" (calls ++ innerCalls) ++
    headed "Available Commands" (commandLines inner) ++
    headed "Flags" (flagLines flags) ++
    headed "Global Flags" (if c.isSome then flagLines commonFlags else []) ++ hint ++ "\n"

def helpText (c : Option Command) : Text :=
  (c.map (·.description)).getD about ++ "\n\n" ++ usageWith c (Command.localFlags c)

/-- Can a text stand between back quotes as it is? -/
def isRaw (t : Text) : Bool :=
  (Rune.list t).all fun (r, _) =>
    r ≠ Rune.invalid && r.code ≠ 0xFEFF && r.code ≠ 0x7F && r.code ≠ 0x60 && (0x20 ≤ r.code || r.code = 0x09)

/-- What is printed about words that name no command. -/
def unknownTopic (words : List Text) : Text :=
  let shown (t : Text) : Text := if isRaw t then "`" ++ t ++ "`" else t.quoted
  "Unknown help topic [" ++ Text.join " " (words.map shown) ++ "]\n" ++ usageWith none commonFlags

end KiteCompiler.CommandLine
