import KiteCompiler.Yaml.Problem

/-!
# Places in a YAML text

The text that is still to be read and where it starts. Lines end with a line feed, a carriage return, both, or one of
three other separators.
-/

namespace KiteCompiler.Yaml

/-- The line separator and the paragraph separator. -/
def isSeparator (c : Char) : Bool := c.toNat = 0x2028 || c.toNat = 0x2029

def isBreak (c : Char) : Bool := c = '\n' || c = '\r' || c.toNat = 0x85 || isSeparator c

def isBlank (c : Char) : Bool := c = ' ' || c = '\t'

/-- Can the character stand in the name of an anchor? -/
def isWord (c : Char) : Bool := c.isAlphanum || c = '_' || c = '-'

/-- A place in a text: what follows it, where it is, and how many characters the text has. -/
structure Cursor where
  rest : List Char
  line : Nat
  column : Nat
  index : Nat
  size : Nat

namespace Cursor

def start (cs : List Char) : Cursor := ⟨cs, 0, 0, 0, cs.length⟩

/-- How many characters follow. -/
def room (c : Cursor) : Nat := c.size - c.index

def here? (c : Cursor) : Option Char := c.rest.head?

/-- Is there a character here for which `p` holds? -/
def at? (c : Cursor) (p : Char → Bool) : Bool := c.rest.head?.any p

def atEndOr (c : Cursor) (p : Char → Bool) : Bool := c.rest.head?.all p

def isBlankOrEnd (c : Cursor) : Bool := c.atEndOr fun ch => isBlank ch || isBreak ch

def isBreakOrEnd (c : Cursor) : Bool := c.atEndOr isBreak

/-- Passes a character that does not end the line. -/
def next (c : Cursor) : Cursor := { c with rest := c.rest.tail, column := c.column + 1, index := c.index + 1 }

def skip : Nat → Cursor → Cursor
  | 0, c => c
  | n + 1, c => skip n c.next

/-- Passes the end of a line; most kinds of it are read as line feeds. -/
def nextLine (c : Cursor) : List Char × Cursor :=
  match c.rest with
  | '\r' :: '\n' :: rest => (['\n'], ⟨rest, c.line + 1, 0, c.index + 2, c.size⟩)
  | ch :: rest => (if isSeparator ch then [ch] else ['\n'], ⟨rest, c.line + 1, 0, c.index + 1, c.size⟩)
  | [] => ([], c)

/-- Passes the characters for which `p` holds; none of them ends the line. -/
def takeWhile (p : Char → Bool) (c : Cursor) : List Char × Cursor :=
  let taken := c.rest.takeWhile p
  (taken, c.skip taken.length)

def dropWhile (p : Char → Bool) (c : Cursor) : Cursor := (c.takeWhile p).2

/-- Passes blanks and line breaks. -/
def passGaps : (turns : Nat) → Cursor → Cursor
  | 0, c => c
  | turns + 1, c =>
    if c.at? isBlank then passGaps turns c.next
    else if c.at? isBreak then passGaps turns c.nextLine.2
    else c

def toLineEnd (c : Cursor) : Cursor := c.dropWhile (!isBreak ·)

/-- Is this a line that consists of the mark, or that goes on with a blank behind it? -/
def atMark (mark : List Char) (c : Cursor) : Bool :=
  c.column = 0 && mark.isPrefixOf c.rest && (c.skip mark.length).isBlankOrEnd

def atDocumentMark (c : Cursor) : Bool := c.atMark ['-', '-', '-'] || c.atMark ['.', '.', '.']

end Cursor

/-- A fault and the line in which it was met. -/
structure Slip where
  fault : ScanFault
  line : Nat

def Cursor.slip {α : Type} (c : Cursor) (fault : ScanFault) : Except Slip α := .error ⟨fault, c.line⟩

end KiteCompiler.Yaml
