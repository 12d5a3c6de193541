import KiteCompiler.Text.Numeral
import KiteCompiler.Yaml.Scalar

/-!
# YAML tokens

A YAML text as tokens. Indentation becomes tokens of its own, for where a block starts and ends. A mapping is seen only
at the colon behind its first key: the tokens for the mapping and the key are then put before the key.
-/

namespace KiteCompiler.Yaml

inductive Token where
  | streamEnd
  | documentStart | documentEnd
  | version (major minor : Nat)
  | tagHandle (handle start : Text)
  | blockSequenceStart | blockMappingStart | blockEnd
  | flowSequenceStart | flowSequenceEnd | flowMappingStart | flowMappingEnd
  | blockEntry | flowEntry | key | value
  | reference (name : Text)
  | anchor (name : Text)
  | tag (handle suffix : Text)
  | scalar (text : Text) (isPlain : Bool)
  deriving DecidableEq, Repr

/-- A token that may turn out to be a key: where it is, its number, and whether it must be one. -/
structure PossibleKey where
  required : Bool
  number : Nat
  line : Nat
  column : Nat
  index : Nat

/-- The state of scanning. Tokens that are not taken yet are kept with the lines that they start in; `taken` others are
before them. Possible keys are kept for each level of brackets with the innermost first. -/
structure Scanner where
  cursor : Cursor
  fault : Option Characters.Fault
  taken : Nat
  queue : List (Token × Nat)
  indent : Int
  outer : List Int
  keyAllowed : Bool
  keys : List (Option PossibleKey)

namespace Scanner

def start (t : Text) : Scanner :=
  let cs := Characters.ofText t
  ⟨.start cs.list, cs.fault, 0, [], -1, [], true, [none]⟩

/-- Are we inside of brackets? -/
def inFlow (s : Scanner) : Bool := !s.keys.tail.isEmpty

def number (s : Scanner) : Nat := s.taken + s.queue.length

def addAt (s : Scanner) (line : Nat) (t : Token) : Scanner := { s with queue := s.queue ++ [(t, line)] }

def add (s : Scanner) (t : Token) : Scanner := s.addAt s.cursor.line t

/-- Adds a token before the one with the given number. -/
def insert (s : Scanner) (number line : Nat) (t : Token) : Scanner :=
  let earlier := number - s.taken
  { s with queue := s.queue.take earlier ++ (t, line) :: s.queue.drop earlier }

def fail {α : Type} (s : Scanner) (fault : ScanFault) : Except Problem α :=
  .error (.scanning fault s.cursor.line s.cursor.line)

/-- What was read of something that starts here. -/
def within {α : Type} (s : Scanner) (r : Except Slip α) : Except Problem α :=
  r.mapError fun e => .scanning e.fault s.cursor.line e.line

/-! ## Keys and indentation -/

/-- Fails because of a key without a colon. -/
def noColon {α : Type} (s : Scanner) (k : PossibleKey) : Except Problem α :=
  .error (.scanning .noColon k.line s.cursor.line)

def dropKey (s : Scanner) : Except Problem Scanner :=
  match s.keys with
  | some k :: keys => if k.required then s.noColon k else .ok { s with keys := none :: keys }
  | _ => .ok s

def noteKey (s : Scanner) : Except Problem Scanner :=
  if s.keyAllowed then do
    let c := s.cursor
    let key : PossibleKey := ⟨!s.inFlow && s.indent = c.column, s.number, c.line, c.column, c.index⟩
    let s ← s.dropKey
    return { s with keys := some key :: s.keys.tail }
  else .ok s

/-- Can a possible key still be one? It cannot if it is on another line or too far away. -/
def isLive (s : Scanner) (k : PossibleKey) : Except Problem Bool :=
  if k.line < s.cursor.line || k.index + 1024 < s.cursor.index then (if k.required then s.noColon k else .ok false)
  else .ok true

def key? (s : Scanner) : Except Problem (Option PossibleKey) :=
  match s.keys with
  | some k :: _ => do return if ← s.isLive k then some k else none
  | _ => .ok none

/-- Starts a block at a column that is further in; its token goes before the one with the given number. -/
def openBlock (s : Scanner) (column number line : Nat) (t : Token) : Scanner :=
  if !s.inFlow && s.indent < column then
    { s.insert number line t with indent := column, outer := s.indent :: s.outer }
  else s

def openBlockHere (s : Scanner) (t : Token) : Scanner :=
  s.openBlock s.cursor.column s.number s.cursor.line t

/-- Ends blocks that are further in than a column. -/
def closeTo (column : Int) : Int → List Int → Nat → Int × List Int × Nat
  | indent, [], closed => (indent, [], closed)
  | indent, i :: outer, closed =>
    if column < indent then closeTo column i outer (closed + 1) else (indent, i :: outer, closed)

/-- Ends blocks that are further in than a column, as of a line; brackets know no indentation. -/
def closeBlocks (s : Scanner) (column : Int) (line : Nat) : Scanner :=
  if s.inFlow then s
  else
    let (indent, outer, closed) := closeTo column s.indent s.outer 0
    { s with indent, outer, queue := s.queue ++ List.replicate closed (.blockEnd, line) }

/-! ## Between tokens -/

/-- Passes a comment and the comments in the next lines that have no other text. -/
def passComments : (turns : Nat) → Cursor → Cursor
  | 0, c => c
  | turns + 1, c =>
    let c := c.toLineEnd
    let ahead := c.passGaps c.room
    if ahead.at? (· = '#') then passComments turns ahead else c

/-- Passes blanks, comments and line breaks. Where a key may start, a tab is no blank. -/
def toToken : (turns : Nat) → Scanner → Scanner
  | 0, s => s
  | turns + 1, s =>
    let c := if s.cursor.index = 0 && s.cursor.at? (·.toNat = 0xFEFF) then s.cursor.next else s.cursor
    let c := c.dropWhile fun ch => ch = ' ' || ((s.inFlow || !s.keyAllowed) && ch = '\t')
    let c := if c.at? (· = '#') then passComments c.room c else c
    if c.at? isBreak then
      toToken turns { s with cursor := c.nextLine.2, keyAllowed := s.keyAllowed || !s.inFlow }
    else { s with cursor := c }

def passLineComment (s : Scanner) : Scanner :=
  let c := s.cursor.dropWhile isBlank
  if c.at? (· = '#') then { s with cursor := c.toLineEnd } else s

/-! ## Tokens -/

def textOf (cs : List Char) : Text := String.ofList cs

def mark (s : Scanner) (n : Nat) (t : Token) : Scanner := { s.add t with cursor := s.cursor.skip n }

/-- The end of the text. A last line that is not ended ends here. -/
def atEnd (s : Scanner) : Except Problem Scanner := do
  let c := s.cursor
  let s := if c.column = 0 then s else { s with cursor := { c with line := c.line + 1, column := 0 } }
  let s ← (s.closeBlocks (-1) s.cursor.line).dropKey
  return { s.add .streamEnd with keyAllowed := false }

def documentMark (s : Scanner) (t : Token) : Except Problem Scanner := do
  let s ← (s.closeBlocks (-1) s.cursor.line).dropKey
  return { s.mark 3 t with keyAllowed := false }

def openFlow (s : Scanner) (t : Token) : Except Problem Scanner := do
  let s ← s.noteKey
  return { s.mark 1 t with keyAllowed := true, keys := none :: s.keys }

def closeFlow (s : Scanner) (t : Token) : Except Problem Scanner := do
  let s ← s.dropKey
  return { s.mark 1 t with keyAllowed := false, keys := if s.inFlow then s.keys.tail else s.keys }

def flowEntry (s : Scanner) : Except Problem Scanner := do
  let s ← s.dropKey
  return { s.mark 1 .flowEntry with keyAllowed := true }

/-- A dash before an item. -/
def blockEntry (s : Scanner) : Except Problem Scanner := do
  if !s.inFlow && !s.keyAllowed then s.fail .entryNotAllowed
  let s ← (s.openBlockHere .blockSequenceStart).dropKey
  return { s.mark 1 .blockEntry with keyAllowed := true }

/-- A question mark before a key. -/
def complexKey (s : Scanner) : Except Problem Scanner := do
  if !s.inFlow && !s.keyAllowed then s.fail .keyNotAllowed
  let s ← (s.openBlockHere .blockMappingStart).dropKey
  return { s.mark 1 .key with keyAllowed := !s.inFlow }

def keyValue (s : Scanner) : Except Problem Scanner := do
  match ← s.key? with
  | some k =>
    let s := (s.insert k.number k.line .key).openBlock k.column k.number k.line .blockMappingStart
    return { s.mark 1 .value with keyAllowed := false, keys := none :: s.keys.tail }
  | none =>
    if !s.inFlow && !s.keyAllowed then s.fail .valueNotAllowed
    let s := s.openBlockHere .blockMappingStart
    return { s.mark 1 .value with keyAllowed := !s.inFlow, keys := none :: s.keys.tail }

/-- The name of an anchor or alias behind its mark. -/
def named (s : Scanner) (t : Text → Token) : Except Problem Scanner := do
  let s ← s.noteKey
  let (name, c) := s.cursor.next.takeWhile isWord
  let isEnd := c.isBlankOrEnd || c.at? (['?', ':', ',', ']', '}', '%', '@', Char.ofNat 0x60].contains ·)
  if name.isEmpty || !isEnd then s.fail .noName
  return { s.add (t (textOf name)) with cursor := c, keyAllowed := false }

/-! ## Tags -/

def isTagChar (c : Char) : Bool := isWord c || ";/?:@&=+$,.!~*'()[]".toList.contains c

/-- Reads an escaped byte: a percent sign and two hexadecimal digits. -/
def octet (c : Cursor) : Except Slip (UInt8 × Cursor) :=
  match c.rest with
  | '%' :: a :: b :: _ =>
    match hexValue? [a, b] with
    | some n => .ok (n.toUInt8, c.skip 3)
    | none => c.slip .noOctet
  | _ => c.slip .noOctet

/-- Reads escaped bytes that continue a character. -/
def octetsBehind : (count : Nat) → Cursor → Except Slip (Text × Cursor)
  | 0, c => .ok ([], c)
  | count + 1, c => do
    let (b, next) ← octet c
    if !Characters.isTrailing b then c.slip .trailingOctet
    let (bs, c) ← octetsBehind count next
    return (b :: bs, c)

def escapedCharacter (c : Cursor) : Except Slip (Text × Cursor) := do
  let (b, next) ← octet c
  let width := Characters.octets b
  if width = 0 then c.slip .leadingOctet
  let (bs, c) ← octetsBehind (width - 1) next
  return (b :: bs, c)

def tagText : (turns : Nat) → Cursor → Except Slip (Text × Cursor)
  | 0, c => .ok ([], c)
  | turns + 1, c => do
    match c.here? with
    | some ch =>
      if ch = '%' then
        let (t, c) ← escapedCharacter c
        let (more, c) ← tagText turns c
        return (t ++ more, c)
      else if isTagChar ch then
        let (more, c) ← tagText turns c.next
        return (Text.byte ch :: more, c)
      else return ([], c)
    | none => return ([], c)

def tagTextOrFail (c : Cursor) : Except Slip (Text × Cursor) := do
  let (t, next) ← tagText c.room c
  if t.isEmpty then next.slip .noUri
  return (t, next)

/-- Reads a tag: one in angle brackets, one with a handle before it, or one without. -/
def tagFrom (c : Cursor) : Except Slip (Token × Cursor) := do
  if "!<".toList.isPrefixOf c.rest then
    let (uri, c) ← tagTextOrFail (c.skip 2)
    if !c.at? (· = '>') then c.slip .noClosingBracket
    return (.tag [] uri, c.next)
  let (word, behind) := c.next.takeWhile isWord
  if behind.at? (· = '!') then
    let (suffix, c) ← tagTextOrFail behind.next
    return (.tag (textOf ('!' :: word ++ ['!'])) suffix, c)
  let (suffix, c) ← tagText c.room c.next
  return (if suffix.isEmpty then .tag [] "!" else .tag "!" suffix, c)

def tagged (s : Scanner) : Except Problem Scanner := do
  let s ← s.noteKey
  let (t, c) ← s.within (tagFrom s.cursor)
  if !c.isBlankOrEnd then s.fail .noBlankOrBreak
  return { s.add t with cursor := c, keyAllowed := false }

/-! ## Directives -/

/-- Reads a number of a version, which has one digit or two. -/
def versionNumber (c : Cursor) : Except Slip (Nat × Cursor) :=
  let (digits, next) := c.takeWhile Char.isDigit
  if 2 < digits.length then c.slip .longVersion
  else
    match Numeral.digits? 10 digits with
    | some n => .ok (n, next)
    | none => c.slip .noVersion

def versionFrom (c : Cursor) : Except Slip (Token × Cursor) := do
  let (major, c) ← versionNumber (c.dropWhile isBlank)
  if !c.at? (· = '.') then c.slip .noVersionPoint
  let (minor, c) ← versionNumber c.next
  return (.version major minor, c)

/-- Reads what a handle of tags stands for. -/
def handleFrom (c : Cursor) : Except Slip (Token × Cursor) := do
  let c := c.dropWhile isBlank
  if !c.at? (· = '!') then c.slip .noExclamation
  let (word, c) := c.next.takeWhile isWord
  let isClosed := c.at? (· = '!')
  if !isClosed && !word.isEmpty then c.slip .noExclamation
  let c := if isClosed then c.next else c
  if !c.at? isBlank then c.slip .noBlank
  let (start, c) ← tagTextOrFail (c.dropWhile isBlank)
  if !c.isBlankOrEnd then c.slip .noBlankOrBreak
  return (.tagHandle (textOf ('!' :: word ++ (if isClosed then ['!'] else []))) start, c)

/-- Reads a directive behind its percent sign. -/
def directiveFrom (c : Cursor) : Except Slip (Token × Cursor) := do
  let (name, c) := c.takeWhile isWord
  if name.isEmpty then c.slip .noDirectiveName
  if !c.isBlankOrEnd then c.slip .directiveName
  let (t, c) ←
    if name = "YAML".toList then versionFrom c
    else if name = "TAG".toList then handleFrom c
    else c.slip .unknownDirective
  return (t, ← restOfLine c)

/-- A line that starts with a percent sign. -/
def directive (s : Scanner) : Except Problem Scanner := do
  let s ← (s.closeBlocks (-1) s.cursor.line).dropKey
  let (t, c) ← s.within (directiveFrom s.cursor.next)
  return { s.add t with cursor := c, keyAllowed := false }

/-! ## Scalars -/

def blockScalar (s : Scanner) (literal : Bool) : Except Problem Scanner := do
  let s ← s.dropKey
  let (text, c) ← s.within (block literal s.indent s.cursor.next)
  return { s.add (.scalar (textOf text) false) with cursor := c, keyAllowed := true }

def quotedScalar (s : Scanner) (single : Bool) : Except Problem Scanner := do
  let s ← s.noteKey
  let (text, c) ← s.within (quoted single (s.cursor.room + 1) s.cursor.next)
  return { s.add (.scalar (textOf text) false) with cursor := c, keyAllowed := false }

/-- A plain text. A comment can follow it in the same line. -/
def plainScalar (s : Scanner) : Except Problem Scanner := do
  let s ← s.noteKey
  let (text, broken, c) ←
    s.within (plain s.inFlow (s.indent + 1).toNat (s.cursor.room + 1) Gap.none s.cursor)
  let s := { s.add (.scalar (textOf text) true) with cursor := c, keyAllowed := broken }
  return if broken then s else s.passLineComment

/-- Characters that cannot start a plain text. -/
def isIndicator (c : Char) : Bool := "-?:,[]\x7b\x7d#&*!|>'\"%@\x60".toList.contains c

/-! ## All tokens -/

/-- Reads a token that starts with a character. A comment can follow it in the same line, except for a dash. -/
def token (s : Scanner) (ch : Char) : Except Problem Scanner :=
  let c := s.cursor
  let wordEnds := c.next.isBlankOrEnd
  if c.column = 0 && ch = '%' then s.directive
  else if c.atMark ['-', '-', '-'] then s.documentMark .documentStart
  else if c.atMark ['.', '.', '.'] then s.documentMark .documentEnd
  else if ch = '[' then passLineComment <$> s.openFlow .flowSequenceStart
  else if ch = '{' then passLineComment <$> s.openFlow .flowMappingStart
  else if ch = ']' then passLineComment <$> s.closeFlow .flowSequenceEnd
  else if ch = '}' then passLineComment <$> s.closeFlow .flowMappingEnd
  else if ch = ',' then passLineComment <$> s.flowEntry
  else if ch = '-' && wordEnds then s.blockEntry
  else if ch = '?' && (s.inFlow || wordEnds) then passLineComment <$> s.complexKey
  else if ch = ':' && (s.inFlow || wordEnds) then passLineComment <$> s.keyValue
  else if ch = '*' then passLineComment <$> s.named .reference
  else if ch = '&' then passLineComment <$> s.named .anchor
  else if ch = '!' then passLineComment <$> s.tagged
  else if ch = '|' && !s.inFlow then s.blockScalar true
  else if ch = '>' && !s.inFlow then s.blockScalar false
  else if ch = '\'' then passLineComment <$> s.quotedScalar true
  else if ch = '"' then passLineComment <$> s.quotedScalar false
  else if (!isBlank ch && !isBreak ch && !isIndicator ch) || (ch = '-' && !c.next.at? isBlank)
      || (!s.inFlow && (ch = '?' || ch = ':') && !wordEnds) then s.plainScalar
  else s.fail .noToken

/-- Reads the next token, and the tokens that its indentation stands for. Four characters are looked at in any case. -/
def next (s : Scanner) : Except Problem Scanner :=
  let line := s.cursor.line
  let s := s.toToken (s.cursor.room + 1)
  let s := s.closeBlocks s.cursor.column line
  let read := match s.cursor.here? with
    | none => s.atEnd
    | some ch => s.token ch
  let isShort (s : Scanner) : Bool := (s.cursor.rest.drop 3).isEmpty
  match s.fault, read with
  | some f, .ok after => if isShort s || isShort after then .error (.reading f) else .ok after
  | some f, .error (.scanning .endOfText _ _) => .error (.reading f)
  | _, read => read

/-- The possible key that is the token with a number. Those further out have smaller numbers. -/
def keyWith? (number : Nat) : List (Option PossibleKey) → Option PossibleKey
  | [] => none
  | none :: keys => keyWith? number keys
  | some k :: keys => if k.number = number then some k else if k.number < number then none else keyWith? number keys

/-- Is the first token one that may still turn out to be a key? -/
def isUndecided (s : Scanner) : Except Problem Bool :=
  match keyWith? s.taken s.keys with
  | some k => s.isLive k
  | none => .ok false

/-- Reads on until there are three tokens and the first one is decided; there are fewer than `turns` tokens left. -/
def fill : (turns : Nat) → Scanner → Except Problem Scanner
  | 0, s => .ok s
  | turns + 1, s => do
    if 3 ≤ s.queue.length && !(← s.isUndecided) then return s
    fill turns (← s.next)

def peek (s : Scanner) : Except Problem ((Token × Nat) × Scanner) := do
  let s ← s.fill (s.cursor.room + 8)
  return (s.queue.headD (.streamEnd, s.cursor.line), s)

def skip (s : Scanner) : Scanner := { s with queue := s.queue.tail, taken := s.taken + 1 }

end Scanner

end KiteCompiler.Yaml
