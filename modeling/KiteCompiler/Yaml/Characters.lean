import KiteCompiler.Text.Basic

/-!
# Characters of a YAML text

A text is read in UTF-8, or in UTF-16 if it starts with a byte order mark that says so. It is read in blocks of 512
bytes: the characters of a block are there only if all of them can be read.
-/

namespace KiteCompiler.Yaml

inductive Characters.Fault where
  | control
  | leadingOctet
  | incompleteOctets
  | trailingOctet
  | overlong
  | noCharacter
  | incompleteUnit
  | loneLowSurrogate
  | incompletePair
  | loneHighSurrogate
  deriving DecidableEq, Repr

def Characters.Fault.message : Fault → Text
  | control => "control characters are not allowed"
  | leadingOctet => "invalid leading UTF-8 octet"
  | incompleteOctets => "incomplete UTF-8 octet sequence"
  | trailingOctet => "invalid trailing UTF-8 octet"
  | overlong => "invalid length of a UTF-8 sequence"
  | noCharacter => "invalid Unicode character"
  | incompleteUnit => "incomplete UTF-16 character"
  | loneLowSurrogate => "unexpected low surrogate area"
  | incompletePair => "incomplete UTF-16 surrogate pair"
  | loneHighSurrogate => "expected low surrogate area"

/-- The characters of a text up to the first block with a fault. -/
structure Characters where
  list : List Char
  fault : Option Characters.Fault

namespace Characters

/-- Can the character stand in a text at all? -/
def isAllowed (n : Nat) : Bool :=
  n = 0x09 || n = 0x0A || n = 0x0D || (0x20 ≤ n && n ≤ 0x7E) || n = 0x85 || (0xA0 ≤ n && n ≤ 0xFFFD) || 0x10000 ≤ n

/-- What is in front of bytes: a code point and the number of its bytes, the start of one, or neither. -/
inductive Step where
  | code (n width : Nat)
  | incomplete (fault : Fault)
  | bad (fault : Fault)

/-- The number of bytes of a character by the first of them. -/
def octets (b : UInt8) : Nat :=
  if b < 0x80 then 1 else if b < 0xC0 then 0 else if b < 0xE0 then 2 else if b < 0xF0 then 3
  else if b < 0xF8 then 4 else 0

/-- Is the byte one that cannot start a character? -/
def isTrailing (b : UInt8) : Bool := 0x80 ≤ b && b < 0xC0

def utf8 (t : Text) : Step :=
  match t with
  | [] => .incomplete .incompleteOctets
  | b :: rest =>
    let width := octets b
    if width = 0 then .bad .leadingOctet
    else if (t.drop (width - 1)).isEmpty then .incomplete .incompleteOctets
    else
      let others := rest.take (width - 1)
      let lead : Nat := if width = 1 then b.toNat else b.toNat % Nat.pow 2 (7 - width)
      let n := others.foldl (fun n b => n * 64 + b.toNat % 64) lead
      if !others.all isTrailing then .bad .trailingOctet
      else if (width = 2 && n < 0x80) || (width = 3 && n < 0x800) || (width = 4 && n < 0x10000) then .bad .overlong
      else if (0xD800 ≤ n && n ≤ 0xDFFF) || 0x10FFFF < n then .bad .noCharacter
      else .code n width

/-- Reads UTF-16 with the more significant byte first or last. -/
def utf16 (bigEndian : Bool) (t : Text) : Step :=
  let unit (a b : UInt8) : Nat := if bigEndian then a.toNat * 256 + b.toNat else b.toNat * 256 + a.toNat
  match t with
  | a :: b :: rest =>
    let high := unit a b
    if 0xDC00 ≤ high && high ≤ 0xDFFF then .bad .loneLowSurrogate
    else if 0xD800 ≤ high && high ≤ 0xDBFF then
      match rest with
      | c :: d :: _ =>
        let low := unit c d
        if 0xDC00 ≤ low && low ≤ 0xDFFF then .code (0x10000 + (high - 0xD800) * 1024 + (low - 0xDC00)) 4
        else .bad .loneHighSurrogate
      | _ => .incomplete .incompletePair
    else .code high 2
  | _ => .incomplete .incompleteUnit

/-- The characters in a block, and how many of its bytes are not read because the last character is not complete. -/
def inBlock (step : Text → Step) : (turns : Nat) → Text → Except Fault (List Char × Nat)
  | 0, t => .ok ([], t.length)
  | _, [] => .ok ([], 0)
  | turns + 1, t =>
    match step t with
    | .code n width => do
      if !isAllowed n then .error .control
      let (cs, left) ← inBlock step turns (t.drop width)
      return (Char.ofNat n :: cs, left)
    | .incomplete _ => .ok ([], t.length)
    | .bad f => .error f

/-- The characters of a text in blocks; the first one has `size` bytes. -/
def blocks (step : Text → Step) : (turns size : Nat) → Text → Characters
  | 0, _, _ => ⟨[], none⟩
  | _, _, [] => ⟨[], none⟩
  | turns + 1, size, t =>
    let block := t.take size
    match inBlock step block.length block with
    | .error f => ⟨[], some f⟩
    | .ok (cs, left) =>
      if left = block.length then
        match step block with
        | .incomplete f => ⟨[], some f⟩
        | _ => ⟨[], none⟩
      else
        let more := blocks step turns 512 (t.drop (block.length - left))
        ⟨cs ++ more.list, more.fault⟩

def ofText (t : Text) : Characters :=
  match t with
  | 0xFF :: 0xFE :: rest => blocks (utf16 false) rest.length 510 rest
  | 0xFE :: 0xFF :: rest => blocks (utf16 true) rest.length 510 rest
  | 0xEF :: 0xBB :: 0xBF :: rest => blocks utf8 rest.length 509 rest
  | t => blocks utf8 t.length 512 t

end Characters

end KiteCompiler.Yaml
