import KiteCompiler.Yaml.Cursor

/-!
# YAML scalars

Reading of the texts of a YAML document: plain ones, ones in quotes, and blocks of indented lines. Text that is spread
over several lines is folded: a single line break becomes a space, and of several the first is dropped. Every function
here takes at most `turns` characters.
-/

namespace KiteCompiler.Yaml

/-- Blanks and line breaks between two parts of a text. -/
structure Gap where
  blanks : List Char
  first : List Char
  more : List Char
  broken : Bool

namespace Gap

def none : Gap := ⟨[], [], [], false⟩

def folded (g : Gap) : List Char :=
  if g.broken then
    if g.first.head? = some '\n' then (if g.more.isEmpty then [' '] else g.more) else g.first ++ g.more
  else g.blanks

/-- Reads blanks and line breaks. Tabs left of column `indent` are refused. -/
def read (indent : Nat) : (turns : Nat) → Gap → Cursor → Except Slip (Gap × Cursor)
  | 0, g, c => .ok (g, c)
  | turns + 1, g, c =>
    match c.here? with
    | some ch =>
      if isBlank ch then
        if g.broken && c.column < indent && ch = '\t' then c.slip .tabInIndentation
        else read indent turns (if g.broken then g else { g with blanks := g.blanks ++ [ch] }) c.next
      else if isBreak ch then
        let (b, c) := c.nextLine
        read indent turns (if g.broken then { g with more := g.more ++ b } else { g with first := b, broken := true }) c
      else .ok (g, c)
    | .none => .ok (g, c)

end Gap

/-! ## Plain scalars -/

def endsPlain (inFlow : Bool) (c : Cursor) : Bool :=
  match c.here? with
  | none => true
  | some ch =>
    isBlank ch || isBreak ch || (ch = ':' && c.next.isBlankOrEnd)
      || (inFlow && (ch = ',' || ch = '[' || ch = ']' || ch = '{' || ch = '}' || (ch = '?' && c.next.isBlankOrEnd)))

/-- Reads the next characters without blanks. -/
def plainPart (inFlow : Bool) : (turns : Nat) → Cursor → List Char × Cursor
  | 0, c => ([], c)
  | turns + 1, c =>
    match c.here? with
    | some ch =>
      if endsPlain inFlow c then ([], c)
      else
        let (cs, c) := plainPart inFlow turns c.next
        (ch :: cs, c)
    | none => ([], c)

/-- Reads a plain scalar whose lines are indented by `indent` at least; also says whether the last thing read was a line
break. -/
def plain (inFlow : Bool) (indent : Nat) :
    (turns : Nat) → (gap : Gap) → Cursor → Except Slip (List Char × Bool × Cursor)
  | 0, _, c => .ok ([], false, c)
  | turns + 1, gap, c =>
    if c.atDocumentMark || c.at? (· = '#') then .ok ([], gap.broken, c)
    else
      let (part, c) := plainPart inFlow (c.room + 1) c
      let text := if part.isEmpty then [] else gap.folded ++ part
      let broken := if part.isEmpty then gap.broken else false
      if c.at? (fun ch => isBlank ch || isBreak ch) then do
        let before := if part.isEmpty then gap else Gap.none
        let (gap, c) ← Gap.read indent (c.room + 1) before c
        if !inFlow && c.column < indent then return (text, gap.broken, c)
        let (more, broken, c) ← plain inFlow indent turns gap c
        return (text ++ more, broken, c)
      else .ok (text, broken, c)

/-! ## Quoted scalars -/

def hexValue? (cs : List Char) : Option Nat :=
  cs.foldlM (fun n c =>
    if c.isDigit then some (16 * n + (c.toNat - '0'.toNat))
    else if 'a' ≤ c && c ≤ 'f' then some (16 * n + (c.toNat - 'a'.toNat + 10))
    else if 'A' ≤ c && c ≤ 'F' then some (16 * n + (c.toNat - 'A'.toNat + 10))
    else none) 0

/-- A character by its number; there is none for a surrogate. -/
def charOf? (n : Nat) : Option Char := if n < 0xD800 || (0xDFFF < n && n < 0x110000) then some (Char.ofNat n) else none

/-- What the letter after a backslash stands for. -/
def escape? : Char → Option Char
  | '0' => some '\x00'
  | 'a' => some '\x07'
  | 'b' => some '\x08'
  | 't' | '\t' => some '\t'
  | 'n' => some '\n'
  | 'v' => some '\x0b'
  | 'f' => some '\x0c'
  | 'r' => some '\r'
  | 'e' => some '\x1b'
  | ' ' => some ' '
  | '"' => some '"'
  | '\'' => some '\''
  | '\\' => some '\\'
  | 'N' => some (Char.ofNat 0x85)
  | '_' => some (Char.ofNat 0xA0)
  | 'L' => some (Char.ofNat 0x2028)
  | 'P' => some (Char.ofNat 0x2029)
  | _ => none

/-- How many digits the letter after a backslash takes. -/
def escapeDigits? : Char → Option Nat
  | 'x' => some 2
  | 'u' => some 4
  | 'U' => some 8
  | _ => none

/-- Reads an escape behind its backslash. -/
def escaped (c : Cursor) : Except Slip (Char × Cursor) :=
  match c.here? with
  | none => c.slip .unknownEscape
  | some letter =>
    match escapeDigits? letter with
    | some n =>
      let digits := c.next.rest.take n
      match if digits.length = n then hexValue? digits else none with
      | none => c.slip .noHexadecimal
      | some code =>
        match charOf? code with
        | some ch => .ok (ch, c.next.skip n)
        | none => c.slip .noCharacter
    | none =>
      match escape? letter with
      | some ch => .ok (ch, c.next)
      | none => c.slip .unknownEscape

/-- Reads the next characters without blanks inside of quotes; also says whether they end with an escaped line break. -/
def quotedPart (single : Bool) : (turns : Nat) → Cursor → Except Slip (List Char × Bool × Cursor)
  | 0, c => .ok ([], false, c)
  | turns + 1, c =>
    match c.rest with
    | [] => .ok ([], false, c)
    | ch :: rest =>
      if isBlank ch || isBreak ch then .ok ([], false, c)
      else if single then
        if ch = '\'' then
          if rest.head? = some '\'' then do
            let (cs, broken, c) ← quotedPart single turns (c.skip 2)
            return ('\'' :: cs, broken, c)
          else .ok ([], false, c)
        else do
          let (cs, broken, c) ← quotedPart single turns c.next
          return (ch :: cs, broken, c)
      else if ch = '"' then .ok ([], false, c)
      else if ch = '\\' then
        if c.next.at? isBreak then .ok ([], true, c.next.nextLine.2)
        else do
          let (e, c) ← escaped c.next
          let (cs, broken, c) ← quotedPart single turns c
          return (e :: cs, broken, c)
      else do
        let (cs, broken, c) ← quotedPart single turns c.next
        return (ch :: cs, broken, c)

/-- Reads a scalar behind its opening quote, up to and with the closing one. -/
def quoted (single : Bool) : (turns : Nat) → Cursor → Except Slip (List Char × Cursor)
  | 0, c => c.slip .endOfText
  | turns + 1, c => do
    if c.atDocumentMark then c.slip .documentMark
    if c.rest.isEmpty then c.slip .endOfText
    let (part, broken, c) ← quotedPart single (c.room + 1) c
    if c.at? (· = if single then '\'' else '"') then return (part, c.next)
    let (gap, c) ← Gap.read 0 (c.room + 1) { Gap.none with broken } c
    let (more, c) ← quoted single turns c
    return (part ++ gap.folded ++ more, c)

/-! ## Block scalars -/

/-- What becomes of the line breaks at the end of a block. -/
inductive Chomping where
  | strip | clip | keep
  deriving DecidableEq, Repr

/-- Reads what happens at the end of a block, if it is given. -/
def chomping? (c : Cursor) : Option Chomping × Cursor :=
  if c.at? (· = '+') then (some .keep, c.next)
  else if c.at? (· = '-') then (some .strip, c.next)
  else (none, c)

/-- Reads the indentation of a block, if it is given. -/
def level? (c : Cursor) : Except Slip (Option Nat × Cursor) :=
  match c.here? with
  | some ch =>
    if ch = '0' then c.slip .zeroIndentation
    else if ch.isDigit then .ok (some (ch.toNat - '0'.toNat), c.next)
    else .ok (none, c)
  | none => .ok (none, c)

/-- Reads the marks behind the first one of a block: what happens at its end, and its indentation if it is given. -/
def blockHeader (c : Cursor) : Except Slip (Chomping × Option Nat × Cursor) := do
  match chomping? c with
  | (some chomping, c) =>
    let (level, c) ← level? c
    return (chomping, level, c)
  | (none, _) =>
    let (level, c) ← level? c
    if level.isNone then return (.clip, level, c)
    let (chomping, c) := chomping? c
    return (chomping.getD .clip, level, c)

/-- Reads the end of a line with nothing but blanks and a comment on it. -/
def restOfLine (c : Cursor) : Except Slip Cursor :=
  let c := c.dropWhile isBlank
  let c := if c.at? (· = '#') then c.toLineEnd else c
  if c.isBreakOrEnd then .ok c.nextLine.2 else c.slip .noLineEnd

/-- Reads empty lines of a block and the margin of the line after them; `indent` is not known before the first line with
text. -/
def blockBreaks (indent : Option Nat) :
    (turns : Nat) → (widest : Nat) → Cursor → Except Slip (List Char × Nat × Cursor)
  | 0, widest, c => .ok ([], widest, c)
  | turns + 1, widest, c =>
    let isMargin (column : Nat) : Bool := indent.all (column < ·)
    let margin := c.rest.takeWhile (· = ' ')
    let c := c.skip (match indent with
      | some n => min margin.length (n - c.column)
      | none => margin.length)
    let widest := max widest c.column
    if isMargin c.column && c.at? (· = '\t') then c.slip .tabForIndentation
    else if c.at? isBreak then do
      let (b, c) := c.nextLine
      let (breaks, widest, c) ← blockBreaks indent turns widest c
      return (b ++ breaks, widest, c)
    else .ok ([], widest, c)

/-- Reads the lines of a block; `first` is the break before the line and `breaks` the empty lines after that. -/
def blockLines (literal : Bool) (chomping : Chomping) (indent : Nat) :
    (turns : Nat) → (first breaks : List Char) → (blank : Bool) → Cursor → Except Slip (List Char × Cursor)
  | 0, _, _, _, c => .ok ([], c)
  | turns + 1, first, breaks, blank, c =>
    if c.column = indent && !c.rest.isEmpty then do
      let startsBlank := c.at? isBlank
      let joint :=
        if !literal && first.head? = some '\n' && !blank && !startsBlank then (if breaks.isEmpty then [' '] else [])
        else first
      let (line, c) := c.takeWhile (!isBreak ·)
      let (next, c) := c.nextLine
      let (more, _, c) ← blockBreaks (some indent) (c.room + 1) 0 c
      let (text, c) ← blockLines literal chomping indent turns next more startsBlank c
      return (joint ++ breaks ++ line ++ text, c)
    else
      .ok ((match chomping with
        | .strip => []
        | .clip => first
        | .keep => first ++ breaks), c)

/-- Reads a block behind its first mark; it is indented by more than `indent`. -/
def block (literal : Bool) (indent : Int) (c : Cursor) : Except Slip (List Char × Cursor) := do
  let (chomping, level, c) ← blockHeader c
  let c ← restOfLine c
  let given := level.map fun n => (max indent 0).toNat + n
  let (breaks, widest, c) ← blockBreaks given (c.room + 1) 0 c
  let width := given.getD (max (max widest (indent + 1).toNat) 1)
  blockLines literal chomping width (c.room + 2) [] breaks false c

end KiteCompiler.Yaml
