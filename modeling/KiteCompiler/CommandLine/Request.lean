import KiteCompiler.CommandLine.Command

/-!
# Requests

What a command line asks for. The first argument that belongs to no flag names the command, and the next may name one
below it; the other arguments are read with the flags of that command.
-/

namespace KiteCompiler.CommandLine

/-! ## Commands among arguments -/

/-- Does an argument stand for a flag that takes the next argument as its value? Flags that are not known do. -/
def takesNext (flags : List Flag) (argument : Text) : Bool :=
  let isImplied (f : Option Flag) : Bool := f.any fun f => f.kind.implied?.isSome
  if argument.contains (Text.byte '=') then false
  else
    match argument with
    | d :: e :: rest =>
      d = Text.byte '-' &&
        (if e = Text.byte '-' then !isImplied (flags.find? (·.name = rest))
        else rest.isEmpty && !isImplied (flags.find? (·.letter = some e)))
    | _ => false

/-- Is the argument neither empty nor a flag? -/
def isPlain (argument : Text) : Bool := !argument.isEmpty && argument.head? ≠ some (Text.byte '-')

/-- The arguments that belong to no flag. A value in the last argument ends the search. -/
def plainArguments (flags : List Flag) : List Text → List Text
  | [] => []
  | a :: rest =>
    if a = Text.ofString "--" then []
    else if takesNext flags a then
      match rest with
      | _ :: next => if next.isEmpty then [] else plainArguments flags next
      | [] => []
    else if isPlain a then a :: plainArguments flags rest
    else plainArguments flags rest

/-- The arguments without the first one that is `x` and belongs to no flag. -/
def withoutFirst (flags : List Flag) (x : Text) : List Text → List Text
  | [] => []
  | a :: rest =>
    if a = Text.ofString "--" then a :: rest
    else if takesNext flags a then
      match rest with
      | v :: next => a :: v :: withoutFirst flags x next
      | [] => [a]
    else if a = x then rest
    else a :: withoutFirst flags x rest

/-- The command that arguments name below another, and the arguments without its names. -/
def findBelow (c : Option Command) : (turns : Nat) → List Text → Option Command × List Text
  | 0, arguments => (c, arguments)
  | turns + 1, arguments =>
    match (plainArguments commonFlags arguments).head? with
    | none => (c, arguments)
    | some name =>
      match Command.ofName? c name with
      | none => (c, arguments)
      | some inner => findBelow (some inner) turns (withoutFirst commonFlags name arguments)

/-! ## Similar names -/

/-- The next row of a table of distances: `above` is the row before, `corner` and `left` the numbers before it. -/
def distanceRow (b : UInt8) : (corner left : Nat) → (word : Text) → (above : List Nat) → List Nat
  | corner, left, a :: word, n :: above =>
    let here := min (min (n + 1) (left + 1)) (if a = b then corner else corner + 1)
    here :: distanceRow b n here word above
  | _, _, _, _ => []

/-- How many bytes have to be put in, left out or replaced to make one text from another. -/
def distance (s t : Text) : Nat :=
  let first := List.range (s.length + 1)
  let last := t.zipIdx.foldl (fun row (b, i) =>
    (i + 1) :: distanceRow b i (i + 1) s row.tail) first
  last.getLastD 0

def isSimilar (typed name : Text) : Bool :=
  distance (Text.toLower typed) (Text.toLower name) ≤ 2 || (Text.toLower typed).isPrefixOf (Text.toLower name)

def similarCommands (typed : Text) : List Command :=
  (Command.below none).filter fun c => c ≠ .help && isSimilar typed c.name

/-! ## Requests -/

inductive UsageError where
  | unknownCommand (name : Text)
  | noArguments (command : Command) (argument : Text)
  | flag (error : Flag.Error)
  | exactly (expected received : Nat)
  | atLeast (expected received : Nat)
  deriving DecidableEq, Repr

def UsageError.message : UsageError → Text
  | unknownCommand name =>
    let similar := similarCommands name
    let hint : Text :=
      if similar.isEmpty then []
      else "\n\nDid you mean this?\n" ++ (similar.flatMap fun c => (Text.ofString "\t" ++ c.name ++ "\n" : Text))
    "unknown command " ++ name.quoted ++ " for " ++ (Command.path none).quoted ++ hint
  | noArguments command argument =>
    "unknown command " ++ argument.quoted ++ " for " ++ (Command.path (some command)).quoted
  | flag e => e.message
  | exactly expected received =>
    "accepts " ++ Text.ofNat expected ++ " arg(s), received " ++ Text.ofNat received
  | atLeast expected received =>
    "requires at least " ++ Text.ofNat expected ++ " arg(s), only received " ++ Text.ofNat received

structure Overrides where
  config : Text
  output : Option Text
  jobs : Option Int
  warningsAsErrors : Option Bool
  searchPath : Option (List Text)
  deriving DecidableEq, Repr

structure TreeOptions where
  format : Text
  comments : Bool
  isAst : Bool
  isExpression : Bool
  deriving DecidableEq, Repr

inductive Request where
  | version
  | help (command : Option Command)
  | unknownTopic (words : List Text)
  | script (shell : Shell)
  | compile (overrides : Overrides) (paths : List Text)
  | watch (overrides : Overrides) (interval : Int) (paths : List Text)
  | check (overrides : Overrides) (paths : List Text)
  | parse (options : TreeOptions) (file : Text)
  | emit (warningsAsErrors : Bool) (file : Text)
  | resolve (config : Text) (searchPath : List Text) (isPackage describes : Bool) (names : List Text)
  | serve
  deriving DecidableEq, Repr

def Overrides.ofSettings (s : Settings) : Overrides :=
  ⟨(s.text? "config").getD [], s.text? "output", s.number? "jobs", s.switch? "werror", s.list? "search-path"⟩

def oneOf (arguments : List Text) : Except UsageError Text :=
  match arguments with
  | [a] => .ok a
  | _ => .error (.exactly 1 arguments.length)

/-- The time between two looks at the files, if none is given. -/
def defaultInterval : Int := 1000000000

/-- The command that arguments name. An argument that names none is an error only if it stands first. -/
def Command.find (arguments : List Text) : Except UsageError (Option Command × List Text) :=
  match findBelow none arguments.length arguments with
  | (none, rest) =>
    match (plainArguments commonFlags rest).head? with
    | some name => .error (.unknownCommand name)
    | none => .ok (none, rest)
  | found => .ok found

def Request.ofTopic (words : List Text) : Request :=
  match Command.find words with
  | .ok (c, _) => .help c
  | .error _ => .unknownTopic words

def Command.request (c : Command) (s : Settings) (arguments : List Text) : Except UsageError Request :=
  let overrides := Overrides.ofSettings s
  match c with
  | compile =>
    if s.isOn "watch" then .ok (.watch overrides ((s.number? "interval").getD defaultInterval) arguments)
    else .ok (.compile overrides arguments)
  | check => .ok (.check overrides arguments)
  | parse => do
    let file ← oneOf arguments
    return .parse ⟨(s.text? "format").getD "tree", s.isOn "comments", s.isOn "ast", s.isOn "expression"⟩ file
  | emit => do return .emit (s.isOn "werror") (← oneOf arguments)
  | resolve =>
    if arguments.isEmpty then .error (.atLeast 1 0)
    else
      .ok (.resolve overrides.config (overrides.searchPath.getD []) (s.isOn "package") (s.isOn "describe") arguments)
  | lsp => .ok .serve
  | help => .ok (.ofTopic arguments)
  | completion => .ok (.help (some completion))
  | script shell =>
    match arguments with
    | [] => .ok (.script shell)
    | a :: _ => .error (.noArguments c a)

def Request.ofArguments (arguments : List Text) : Except UsageError Request := do
  let (c, rest) ← Command.find arguments
  let (s, others) ← (Flag.readAll (Command.allFlags c) rest).mapError .flag
  if s.isOn "help" then return .help c
  match c with
  | none => return if s.isOn "version" then .version else .help none
  | some c => c.request s others

end KiteCompiler.CommandLine
