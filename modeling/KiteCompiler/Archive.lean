import KiteCompiler.Inflate
import KiteCompiler.Path

/-!
# Archives

Files that hold files. A table at the end of an archive says for each of its entries where it is found; `decode` reads
that table and `contents` one entry. `encode` makes an archive whose entries are stored as they are.
-/

namespace KiteCompiler

/-- An entry of the table: its name, how its data is packed, and where the record before the data starts. -/
structure Archive.Entry where
  name : Text
  method : Nat
  header : Nat
  size : Nat
  deriving DecidableEq, Repr

structure Archive where
  bytes : Array UInt8
  entries : List Archive.Entry

/-- Why an archive or an entry cannot be read. -/
inductive Archive.Fault where
  | malformed
  | cutShort
  | unknownMethod
  deriving DecidableEq, Repr

def Archive.Fault.message : Fault → Text
  | malformed => "zip: not a valid zip file"
  | cutShort => "unexpected EOF"
  | unknownMethod => "zip: unsupported compression algorithm"

namespace Archive

/-! ## Reading -/

/-- The number in `n` bytes from index `i` on, the lowest byte first. What is not there counts as zero. -/
def number (a : Array UInt8) (i : Nat) : Nat → Nat
  | 0 => 0
  | n + 1 => (a.getD i 0).toNat + 256 * number a (i + 1) n

def endMark : Nat := 0x06054B50

def entryMark : Nat := 0x02014B50

def dataMark : Nat := 0x04034B50

/-- Where the last record of the archive starts; behind it there is only a comment. -/
def endRecord? (a : Array UInt8) : Option Nat := do
  let back ← (List.range (min (a.size + 1 - 22) (65 * 1024 + 1 - 22))).find? fun back =>
    number a (a.size - 22 - back) 4 = endMark
  let i := a.size - 22 - back
  if number a (i + 20) 2 ≤ back then some i else none

/-- One entry of the table, and where the next one starts. Offsets in the table count from `base` on. -/
def entry (a : Array UInt8) (base : Int) (i : Nat) : Except Fault (Entry × Nat) := do
  if a.size < i + 46 then throw .cutShort
  if number a i 4 ≠ entryMark then throw .malformed
  let nameEnd := i + 46 + number a (i + 28) 2
  let next := nameEnd + number a (i + 30) 2 + number a (i + 32) 2
  if a.size < next then throw .cutShort
  let header := base + number a (i + 42) 4
  return (⟨(a.extract (i + 46) nameEnd).toList, number a (i + 10) 2, header.toNat, number a (i + 20) 4⟩, next)

/-- The entries of the table from index `i` on, and what is wrong with what follows them. -/
def table (a : Array UInt8) (base : Int) : (turns : Nat) → (i : Nat) → List Entry × Fault
  | 0, _ => ([], .cutShort)
  | turns + 1, i =>
    match entry a base i with
    | .error f => ([], f)
    | .ok (e, next) =>
      let (es, f) := table a base turns next
      (e :: es, f)

/-- The archive in a file. Other data may stand before it. -/
def decode (data : Text) : Except Fault Archive := do
  let a := data.toArray
  let some i := endRecord? a | throw .malformed
  let count := number a (i + 10) 2
  let size := number a (i + 12) 4
  let offset := number a (i + 16) 4
  if i < size then throw .malformed
  let base : Int := i - size - offset
  let base := if 0 < base && (entry a 0 offset).isOk then 0 else base
  let (entries, fault) := table a base a.size (base + offset).toNat
  if entries.length % 65536 ≠ count then throw fault
  return ⟨a, entries⟩

def contents (a : Archive) (e : Entry) : Except Fault Text := do
  if number a.bytes e.header 4 ≠ dataMark then throw .malformed
  let start := e.header + 30 + number a.bytes (e.header + 26) 2 + number a.bytes (e.header + 28) 2
  let data := a.bytes.extract start (start + e.size)
  match e.method with
  | 0 => return data.toList
  | 8 =>
    match inflate? data with
    | some data => return data.toList
    | none => throw .malformed
  | _ => throw .unknownMethod

def Entry.isFolder (e : Entry) : Bool := e.name.getLast? = some Path.separator

/-- The path of an entry from the root of the archive, without steps that lead out of it. -/
def Entry.path (e : Entry) : Text :=
  let elements := Path.elements (Path.clean (Text.replace (Text.byte '\\') Path.separator e.name))
  Text.join "/" (elements.dropWhile (· = Text.ofString ".."))

/-! ## Writing -/

/-- A number in `n` bytes, the lowest first. -/
def littleEndian : (n : Nat) → Nat → Text
  | 0, _ => []
  | n + 1, k => (k % 256).toUInt8 :: littleEndian n (k / 256)

def checksumByte (sum : UInt32) (b : UInt8) : UInt32 :=
  (List.range 8).foldl (fun c _ => if c &&& 1 = 1 then (c >>> 1) ^^^ 0xEDB88320 else c >>> 1) (sum ^^^ b.toUInt32)

def checksum (data : Text) : Nat := (data.foldl checksumByte 0xFFFFFFFF ^^^ 0xFFFFFFFF).toNat

/-- What both records of an entry say of it. -/
def description (name data : Text) : Text :=
  littleEndian 2 20 ++ littleEndian 2 0x0800 ++ littleEndian 2 0 ++ littleEndian 4 0 ++ littleEndian 4 (checksum data)
    ++ littleEndian 4 data.length ++ littleEndian 4 data.length ++ littleEndian 2 name.length ++ littleEndian 2 0

def dataRecord (name data : Text) : Text := littleEndian 4 dataMark ++ description name data ++ name ++ data

/-- The record of an entry whose data starts at `offset`. -/
def tableRecord (offset : Nat) (name data : Text) : Text :=
  littleEndian 4 entryMark ++ littleEndian 2 20 ++ description name data ++ littleEndian 2 0 ++ littleEndian 2 0
    ++ littleEndian 2 0 ++ littleEndian 4 0 ++ littleEndian 4 offset ++ name

/-- Data and table of entries, the first of which starts at `offset`. -/
def records : (offset : Nat) → List (Text × Text) → Text × Text
  | _, [] => ([], [])
  | offset, (name, data) :: rest =>
    let record := dataRecord name data
    let (datas, table) := records (offset + record.length) rest
    (record ++ datas, tableRecord offset name data ++ table)

def encode (entries : List (Text × Text)) : Text :=
  let (datas, table) := records 0 entries
  datas ++ table ++ littleEndian 4 endMark ++ littleEndian 2 0 ++ littleEndian 2 0 ++ littleEndian 2 entries.length
    ++ littleEndian 2 entries.length ++ littleEndian 4 table.length ++ littleEndian 4 datas.length ++ littleEndian 2 0

end Archive

end KiteCompiler
