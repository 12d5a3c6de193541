import KiteCompiler.Text.Basic

/-!
# Class files

The beginning of a compiled Java class: versions, constant pool, access flags and the names of the class, its superclass
and its interfaces (`ClassFile.read`). Names have dots where the file has slashes.

Indices of the constant pool are 16 bit words, and a constant of eight bytes takes two of them.
-/

namespace KiteCompiler

namespace ClassFile

/-- How the bytes of a value are missing: all of them, or only some. -/
inductive Shortage where
  | nothingLeft | cutShort
  deriving DecidableEq, Repr

inductive Part where
  | magic | pool | info
  deriving DecidableEq, Repr

inductive Failure where
  | short (part : Part) (shortage : Shortage)
  | badMagic (found : Nat)
  | unknownTag (index : UInt16) (tag : UInt8)
  | unnamed
  deriving DecidableEq, Repr

def Shortage.text : Shortage → Text
  | nothingLeft => "EOF"
  | cutShort => "unexpected EOF"

def Part.text : Part → Text
  | magic => "magic"
  | pool => "constant pool"
  | info => "class info"

def Failure.message : Failure → Text
  | short part shortage => "reading " ++ part.text ++ ": " ++ shortage.text
  | badMagic found => "invalid magic number: 0x" ++ String.ofList ((Nat.toDigits 16 found).map Char.toUpper)
  | unknownTag index tag =>
    "constant pool entry " ++ Text.ofNat index.toNat ++ ": unknown tag " ++ Text.ofNat tag.toNat
  | unnamed => "class name is not a class constant"

/-! ## Values -/

abbrev Reader := StateT Text (Except Shortage)

def bytes (n : Nat) : Reader Text := fun input =>
  if (input.take n).length = n then .ok (input.take n, input.drop n)
  else .error (if input.isEmpty then .nothingLeft else .cutShort)

/-- Passes over `n` bytes; if they are too few, then there is nothing left. -/
def skip (n : Nat) : Reader Unit := fun input =>
  if (input.take n).length = n then .ok ((), input.drop n) else .error .nothingLeft

/-- A number written with the most significant byte first. -/
def bigEndian (bs : Text) : Nat := bs.foldl (fun n b => 256 * n + b.toNat) 0

def word : Reader UInt16 := do return (bigEndian (← bytes 2)).toUInt16

def words : Nat → Reader (List UInt16)
  | 0 => return []
  | n + 1 => do return (← word) :: (← words n)

/-! ## The constant pool -/

/-- A constant; of those that no name needs, only the tag is kept. -/
inductive Constant where
  | utf8 (text : Text)
  | classRef (name : UInt16)
  | other (tag : UInt8)
  deriving DecidableEq, Repr

/-- How many bytes follow the tag of a constant that no name needs. -/
def payload? (tag : UInt8) : Option Nat :=
  match tag.toNat with
  | 3 | 4 => some 4
  | 5 | 6 => some 8
  | 8 => some 2
  | 9 | 10 | 11 | 12 => some 4
  | 15 => some 3
  | 16 => some 2
  | 17 | 18 => some 4
  | 19 | 20 => some 2
  | _ => none

def constant? (tag : UInt8) : Option (Reader Constant) :=
  if tag = 1 then some do return .utf8 (← bytes (← word).toNat)
  else if tag = 7 then some do return .classRef (← word)
  else (payload? tag).map fun n => do skip n; return .other tag

/-- How many indices a constant takes. -/
def Constant.width : Constant → UInt16
  | other tag => if tag = 5 || tag = 6 then 2 else 1
  | _ => 1

/-- The constants from index `i` on, with their indices, and the bytes behind them. There are at most `turns` of them;
each one takes a byte at least. -/
def poolFrom (count : UInt16) : (turns : Nat) → (i : UInt16) → Text →
    Except Failure (List (UInt16 × Constant) × Text)
  | 0, _, input => .ok ([], input)
  | turns + 1, i, input =>
    if i < count then
      let tag := input.head?.getD 0
      match constant? tag with
      | none => .error (.unknownTag i tag)
      | some read =>
        match read input.tail with
        | .error shortage => .error (.short .pool shortage)
        | .ok (c, rest) =>
          match poolFrom count turns (i + c.width) rest with
          | .error failure => .error failure
          | .ok (cs, rest) => .ok ((i, c) :: cs, rest)
    else .ok ([], input)

/-- The constant pool. Its count is one more than its last index. -/
def pool (count : UInt16) (input : Text) : Except Failure (List (UInt16 × Constant) × Text) :=
  poolFrom count (input.length + 1) 1 input

/-- The text at an index; without one it is empty. If an index was given twice, the later constant counts. -/
def utf8At (pool : List (UInt16 × Constant)) (i : UInt16) : Text :=
  (pool.reverse.findSome? fun | (j, .utf8 t) => if j = i then some t else none | _ => none).getD []

/-- The index of the name of the class at an index; without one it is zero. -/
def nameIndexAt (pool : List (UInt16 × Constant)) (i : UInt16) : UInt16 :=
  (pool.reverse.findSome? fun | (j, .classRef n) => if j = i then some n else none | _ => none).getD 0

/-- The name of the class at an index; index zero stands for no class. -/
def classNameAt (pool : List (UInt16 × Constant)) (i : UInt16) : Text :=
  if i = 0 then []
  else Text.replace (Text.byte '/') (Text.byte '.') (utf8At pool (nameIndexAt pool i))

/-! ## The header -/

structure Header where
  minor : UInt16
  major : UInt16
  access : UInt16
  name : Text
  super : Text
  interfaces : List Text
  deriving DecidableEq, Repr

namespace Header

/-- Can the class be used from every package? -/
def isPublic (h : Header) : Bool := h.access &&& 0x0001 ≠ 0

def isFinal (h : Header) : Bool := h.access &&& 0x0010 ≠ 0

def isInterface (h : Header) : Bool := h.access &&& 0x0200 ≠ 0

/-- Has the class no instances of its own? -/
def isAbstract (h : Header) : Bool := h.access &&& 0x0400 ≠ 0

def isAnnotationType (h : Header) : Bool := h.access &&& 0x2000 ≠ 0

def isEnum (h : Header) : Bool := h.access &&& 0x4000 ≠ 0

def keyword (h : Header) : Text :=
  if h.isAnnotationType then "@interface"
  else if h.isInterface then "interface"
  else if h.isEnum then "enum"
  else "class"

end Header

def magicNumber : Nat := 0xCAFEBABE

def reading {α : Type} (part : Part) (r : Reader α) (input : Text) : Except Failure (α × Text) :=
  match r input with
  | .ok result => .ok result
  | .error shortage => .error (.short part shortage)

/-- Access flags and the indices of the class, its superclass and its interfaces. -/
def classInfo : Reader (UInt16 × UInt16 × UInt16 × List UInt16) := do
  let access ← word
  let this ← word
  let super ← word
  let count ← word
  return (access, this, super, ← words count.toNat)

/-- Reads the header of a class file; what follows it is not looked at. -/
def read (input : Text) : Except Failure Header := do
  let (magic, input) ← reading .magic (bytes 4) input
  if bigEndian magic ≠ magicNumber then throw (.badMagic (bigEndian magic))
  let ((minor, major, count), input) ← reading .pool (do return (← word, ← word, ← word)) input
  let (pool, input) ← pool count input
  let ((access, this, super, interfaces), _) ← reading .info classInfo input
  let name := classNameAt pool this
  if name.isEmpty then throw .unnamed
  return ⟨minor, major, access, name, classNameAt pool super, interfaces.map (classNameAt pool)⟩

end ClassFile

end KiteCompiler
