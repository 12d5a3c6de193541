import KiteCompiler.Text.Numeral
import KiteCompiler.Text.Quoted

/-!
# Flags

Flags on a command line and their values. A flag has a name behind two dashes and may have a letter behind one; letters
can be written together. A value follows a `=`, a letter or in the next argument. Switches and counts need none.
-/

namespace KiteCompiler.CommandLine

inductive Flag.Kind where
  | switch | count | number | text | list | duration
  deriving DecidableEq, Repr

/-- A flag: its name and letter, what it takes, what it does, and the wording of its value if it is not given. -/
structure Flag where
  name : Text
  letter : Option UInt8
  kind : Flag.Kind
  about : Text
  preset : Option Text
  deriving DecidableEq, Repr

def Flag.lettered (name : Text) (letter : Char) (kind : Flag.Kind) (about : Text) : Flag :=
  ⟨name, some (Text.byte letter), kind, about, none⟩

def Flag.named (name : Text) (kind : Flag.Kind) (about : Text) : Flag := ⟨name, none, kind, about, none⟩

/-- The value of a flag. Durations are in nanoseconds. -/
inductive Flag.Value where
  | switch (on : Bool)
  | number (n : Int)
  | text (t : Text)
  | list (ts : List Text)
  deriving DecidableEq, Repr

inductive Flag.Cause where
  | noNumber (text : Text)
  | numberTooLarge (text : Text)
  | noSwitch (text : Text)
  | noDuration (text : Text)
  | noUnit (text : Text)
  | unknownUnit (unit text : Text)
  | noLine
  | bareQuote (line column : Nat)
  /-- In a field that starts in a line. -/
  | misplacedQuote (start line column : Nat)
  deriving DecidableEq, Repr

def Flag.Cause.message : Cause → Text
  | noNumber t => "strconv.ParseInt: parsing " ++ t.quoted ++ ": invalid syntax"
  | numberTooLarge t => "strconv.ParseInt: parsing " ++ t.quoted ++ ": value out of range"
  | noSwitch t => "strconv.ParseBool: parsing " ++ t.quoted ++ ": invalid syntax"
  | noDuration t => "time: invalid duration " ++ quotedBytes t
  | noUnit t => "time: missing unit in duration " ++ quotedBytes t
  | unknownUnit u t => "time: unknown unit " ++ quotedBytes u ++ " in duration " ++ quotedBytes t
  | noLine => "EOF"
  | bareQuote line column => place line line column ++ "bare \" in non-quoted field"
  | misplacedQuote start line column => place start line column ++ "extraneous or missing \" in quoted-field"
where
  /-- A text between quotes, in which bytes that are no characters of ASCII that print are written as numbers. -/
  quotedBytes (t : Text) : Text :=
    Text.byte '"' :: t.flatMap (fun b =>
      if b < 0x20 || 0x80 ≤ b then Text.ofString "\\x" ++ Text.hex 2 b.toNat
      else if b = Text.byte '"' || b = Text.byte '\\' then [Text.byte '\\', b]
      else [b]) ++ [Text.byte '"']
  /-- Where a list is broken. -/
  place (start line column : Nat) : Text :=
    let record : Text := if start = line then [] else "record on line " ++ Text.ofNat start ++ "; "
    record ++ "parse error on line " ++ Text.ofNat line ++ ", column " ++ Text.ofNat column ++ ": "

inductive Flag.Error where
  | badSyntax (argument : Text)
  | unknown (name : Text)
  | unknownLetter (letter : UInt8) (letters : Text)
  | noValue (name : Text)
  | noLetterValue (letter : UInt8) (letters : Text)
  | invalidValue (flag : Flag) (value : Text) (cause : Flag.Cause)
  deriving DecidableEq, Repr

namespace Flag

/-- The character that stands for a letter in messages; of a byte that is no letter it is the lead of its encoding. -/
def shown (b : UInt8) : UInt8 := if b < 0x80 then b else if b < 0xC0 then 0xC2 else 0xC3

def quotedLetter (b : UInt8) : Text :=
  if b = 0x27 then "'\\''"
  else if b = 0x22 then "'\"'"
  else
    let inner := (Text.quoted (Text.ofString (String.singleton (Char.ofNat (shown b).toNat)))).tail.dropLast
    "'" ++ inner ++ "'"

def title (f : Flag) : Text :=
  match f.letter with
  | some l => "-" ++ [l] ++ ", --" ++ f.name
  | none => "--" ++ f.name

def Error.message : Error → Text
  | badSyntax a => "bad flag syntax: " ++ a
  | unknown name => "unknown flag: --" ++ name
  | unknownLetter l letters => "unknown shorthand flag: " ++ quotedLetter l ++ " in -" ++ letters
  | noValue name => "flag needs an argument: --" ++ name
  | noLetterValue l letters => "flag needs an argument: " ++ quotedLetter l ++ " in -" ++ letters
  | invalidValue f v cause =>
    "invalid argument " ++ v.quoted ++ " for " ++ f.title.quoted ++ " flag: " ++ cause.message

/-! ## Values -/

def readNumber (t : Text) : Except Cause Int :=
  (Numeral.integer (t.map fun b => Char.ofNat b.toNat)).mapError fun
    | .noInteger => .noNumber t
    | .tooLarge => .numberTooLarge t

def readSwitch (t : Text) : Except Cause Bool :=
  if (["1", "t", "T", "TRUE", "true", "True"].map Text.ofString).contains t then .ok true
  else if (["0", "f", "F", "FALSE", "false", "False"].map Text.ofString).contains t then .ok false
  else .error (.noSwitch t)

def unit? (u : Text) : Option Nat :=
  ([("ns", 1), ("us", 1000), ("µs", 1000), ("μs", 1000), ("ms", 1000000), ("s", 1000000000), ("m", 60000000000),
    ("h", 3600000000000)] : List (Text × Nat)).lookup u

def isDigit (b : UInt8) : Bool := Text.byte '0' ≤ b && b ≤ Text.byte '9'

/-- The number that decimal digits stand for. -/
def ofDigits (t : Text) : Nat := t.foldl (fun n b => 10 * n + (b - Text.byte '0').toNat) 0

/-- A sum of numbers with units, such as `1h30m`, that is at most `2 ^ 63`; `whole` is the text that it is a part of. -/
def readSum (whole : Text) : (turns sum : Nat) → Text → Except Cause Nat
  | _, sum, [] => .ok sum
  | 0, _, _ => .error (.noDuration whole)
  | turns + 1, sum, t => do
    let point := Text.byte '.'
    let digits := t.takeWhile isDigit
    if Nat.pow 2 63 < ofDigits digits then .error (.noDuration whole)
    let rest := t.dropWhile isDigit
    let fraction := if rest.head? = some point then rest.tail.takeWhile isDigit else []
    let rest := if rest.head? = some point then rest.tail.dropWhile isDigit else rest
    if digits.isEmpty && fraction.isEmpty then .error (.noDuration whole)
    let isUnit (b : UInt8) : Bool := !isDigit b && b ≠ point
    let unit := rest.takeWhile isUnit
    if unit.isEmpty then .error (.noUnit whole)
    match unit? unit with
    | none => .error (.unknownUnit unit whole)
    | some n =>
      let sum := sum + ofDigits digits * n + ofDigits fraction * n / Nat.pow 10 fraction.length
      if Nat.pow 2 63 < sum then .error (.noDuration whole)
      readSum whole turns sum (rest.dropWhile isUnit)

def readDuration (t : Text) : Except Cause Int := do
  let negative := t.head? = some (Text.byte '-')
  let body := if negative || t.head? = some (Text.byte '+') then t.tail else t
  if body = [Text.byte '0'] then return 0
  if body.isEmpty then .error (.noDuration t)
  let n ← readSum t body.length 0 body
  if negative then return -n
  if n = Nat.pow 2 63 then .error (.noDuration t)
  return n

/-- The text with line feeds only: a carriage return before one, or at the end, is dropped. -/
def withLineFeeds : Text → Text
  | [] => []
  | a :: rest =>
    if a = Text.byte '\r' && (rest.isEmpty || rest.head? = some (Text.byte '\n')) then withLineFeeds rest
    else a :: withLineFeeds rest

/-- The rest of a quoted field in a record that starts in a line: its text, and what follows the comma behind it with
its line and column. -/
def quotedField (start : Nat) :
    (line column : Nat) → (field : Text) → Text → Except Cause (Text × Option (Nat × Nat × Text))
  | line, column, _, [] => .error (.misplacedQuote start line column)
  | line, column, field, b :: rest =>
    if b = Text.byte '\n' then
      if rest.isEmpty then .error (.misplacedQuote start line (column + 1))
      else quotedField start (line + 1) 1 (b :: field) rest
    else if b ≠ Text.byte '"' then quotedField start line (column + 1) (b :: field) rest
    else
      match rest with
      | [] => .ok (field.reverse, none)
      | c :: next =>
        if c = Text.byte '"' then quotedField start line (column + 2) (c :: field) next
        else if c = Text.byte ',' then .ok (field.reverse, some (line, column + 2, next))
        else if c = Text.byte '\n' then .ok (field.reverse, none)
        else .error (.misplacedQuote start line column)

/-- The fields between commas up to the end of the line; a field can be quoted, and a quote in it is then written
twice. -/
def fields (start : Nat) : (turns line column : Nat) → Text → Except Cause (List Text)
  | 0, _, _, _ => .ok []
  | turns + 1, line, column, t =>
    if t.head? = some (Text.byte '"') then do
      match ← quotedField start line (column + 1) [] t.tail with
      | (field, none) => return [field]
      | (field, some (line, column, rest)) => return field :: (← fields start turns line column rest)
    else
      let field := t.takeWhile fun b => b ≠ Text.byte ',' && b ≠ Text.byte '\n'
      match field.findIdx? (· = Text.byte '"') with
      | some i => .error (.bareQuote line (column + i))
      | none =>
        match t.drop field.length with
        | [] => .ok [field]
        | b :: rest =>
          if b = Text.byte ',' then do return field :: (← fields start turns line (column + field.length + 1) rest)
          else .ok [field]

/-- A list between commas in the first line that is not empty; the empty text is the empty list. -/
def readList (t : Text) : Except Cause (List Text) :=
  if t.isEmpty then .ok []
  else
    let t := withLineFeeds t
    let empty := t.takeWhile (· = Text.byte '\n')
    let line := empty.length + 1
    match t.drop empty.length with
    | [] => .error .noLine
    | t => fields line (t.length + 1) line 1 t

def Kind.read (k : Kind) (t : Text) : Except Cause Value :=
  match k with
  | switch => .switch <$> readSwitch t
  | count => .number <$> readNumber t
  | number => .number <$> readNumber t
  | text => .ok (.text t)
  | list => .list <$> readList t
  | duration => .number <$> readDuration t

def Kind.implied? : Kind → Option Value
  | switch => some (.switch true)
  | count => some (.number 1)
  | _ => none

def read (f : Flag) (t : Text) : Except Error Value := (f.kind.read t).mapError (.invalidValue f t)

end Flag

/-! ## Arguments -/

/-- Flags with their values, in the order in which they were given. -/
abbrev Settings := List (Text × Flag.Value)

namespace Settings

def switch? (s : Settings) (name : Text) : Option Bool :=
  s.foldl (fun last (n, v) => match v with
    | .switch on => if n = name then some on else last
    | _ => last) none

def isOn (s : Settings) (name : Text) : Bool := (s.switch? name).getD false

def number? (s : Settings) (name : Text) : Option Int :=
  s.foldl (fun last (n, v) => match v with
    | .number i => if n = name then some i else last
    | _ => last) none

def text? (s : Settings) (name : Text) : Option Text :=
  s.foldl (fun last (n, v) => match v with
    | .text t => if n = name then some t else last
    | _ => last) none

/-- All lists that were given under a name, one after the other. -/
def list? (s : Settings) (name : Text) : Option (List Text) :=
  s.foldl (fun last (n, v) => match v with
    | .list ts => if n = name then some (last.getD [] ++ ts) else last
    | _ => last) none

end Settings

/-- What an argument with flags gives: settings, and perhaps a flag that waits for the next argument and the error if
there is none. -/
structure Flag.Reading where
  settings : Settings
  waiting : Option (Flag × Flag.Error)

namespace Flag

def readLong (flags : List Flag) (argument body : Text) : Except Error Reading :=
  if body.head? = some (Text.byte '-') || body.head? = some (Text.byte '=') then .error (.badSyntax argument)
  else
    let (name, value) := Text.cut (Text.byte '=') body
    match flags.find? (·.name = name) with
    | none => .error (.unknown name)
    | some f =>
      match value, f.kind.implied? with
      | some v, _ => do return ⟨[(f.name, ← f.read v)], none⟩
      | none, some v => .ok ⟨[(f.name, v)], none⟩
      | none, none => .ok ⟨[], some (f, .noValue name)⟩

/-- Reads letters behind one dash. What starts with `test.` is passed over. -/
def readLetters (flags : List Flag) : Text → Except Error Reading
  | [] => .ok ⟨[], none⟩
  | l :: rest =>
    if (Text.ofString "test.").isPrefixOf (l :: rest) then .ok ⟨[], none⟩
    else match flags.find? (·.letter = some l) with
    | none => .error (.unknownLetter l (l :: rest))
    | some f =>
      if rest.head? = some (Text.byte '=') && 1 < rest.length then do
        return ⟨[(f.name, ← f.read rest.tail)], none⟩
      else
        match f.kind.implied? with
        | some v => do
          let r ← readLetters flags rest
          return ⟨(f.name, v) :: r.settings, r.waiting⟩
        | none =>
          if rest.isEmpty then .ok ⟨[], some (f, .noLetterValue l (l :: rest))⟩
          else do return ⟨[(f.name, ← f.read rest)], none⟩

/-- Reads one argument; one that is not a flag gives nothing. -/
def readArgument? (flags : List Flag) (argument : Text) : Option (Except Error Reading) :=
  match argument with
  | d :: e :: rest =>
    if d ≠ Text.byte '-' then none
    else if e = Text.byte '-' then some (readLong flags argument rest)
    else some (readLetters flags (e :: rest))
  | _ => none

/-- The settings and the other arguments. Behind `--` there are no flags. -/
def readAll (flags : List Flag) : List Text → Except Error (Settings × List Text)
  | [] => .ok ([], [])
  | a :: rest =>
    if a = Text.ofString "--" then .ok ([], rest)
    else
      match readArgument? flags a with
      | none => do
        let (settings, others) ← readAll flags rest
        return (settings, a :: others)
      | some (.error e) => .error e
      | some (.ok ⟨own, none⟩) => do
        let (settings, others) ← readAll flags rest
        return (own ++ settings, others)
      | some (.ok ⟨own, some (f, missing)⟩) =>
        match rest with
        | [] => .error missing
        | v :: rest => do
          let value ← f.read v
          let (settings, others) ← readAll flags rest
          return (own ++ (f.name, value) :: settings, others)

end Flag

end KiteCompiler.CommandLine
