import KiteCompiler.Text.Basic

/-!
# Inflation

Expansion of packed data: blocks of bytes that are stored, or coded with prefix codes as literal bytes and as references
to what came before. Codes are given by the lengths of their words, `Code.ofLengths`; shorter words come first, and of
the same length those of smaller symbols.
-/

namespace KiteCompiler

namespace Inflate

/-- The bits of the packed data, the lowest of each byte first. -/
structure Input where
  bytes : Array UInt8
  next : Nat

/-- Reads bits; nothing is read from data that is cut short or not well formed. -/
abbrev Reader := StateT Input Option

def bit : Reader Nat := fun i =>
  (i.bytes[i.next / 8]?).map fun b => (b.toNat >>> (i.next % 8) % 2, { i with next := i.next + 1 })

/-- A number of `n` bits, the lowest first. -/
def bits : Nat → Reader Nat
  | 0 => return 0
  | n + 1 => do
    let low ← bit
    return low + 2 * (← bits n)

/-- Goes on to the start of the next byte. -/
def align : Reader Unit := modify fun i => { i with next := (i.next + 7) / 8 * 8 }

/-- The symbols of a prefix code, for each length of code words from one on. -/
abbrev Code := List (List Nat)

/-- The code whose word for the symbol at each index has the given length; zero stands for no word. -/
def Code.ofLengths (lengths : List Nat) : Code :=
  (List.range 15).map fun l => (lengths.zipIdx.filter (·.1 = l + 1)).map (·.2)

/-- Reads a symbol: `word` is what was read so far less the first word of this length. -/
def symbolFrom : Code → (word : Nat) → Reader Nat
  | [], _ => failure
  | symbols :: longer, word => do
    let word := 2 * word + (← bit)
    match symbols[word]? with
    | some s => return s
    | none => symbolFrom longer (word - symbols.length)

def symbol (c : Code) : Reader Nat := symbolFrom c 0

/-- Bases and extra bits of the lengths of references. -/
def lengthCodes : List (Nat × Nat) :=
  [3, 4, 5, 6, 7, 8, 9, 10, 11, 13, 15, 17, 19, 23, 27, 31, 35, 43, 51, 59, 67, 83, 99, 115, 131, 163, 195, 227,
    258].zip [0, 0, 0, 0, 0, 0, 0, 0, 1, 1, 1, 1, 2, 2, 2, 2, 3, 3, 3, 3, 4, 4, 4, 4, 5, 5, 5, 5, 0]

/-- Bases and extra bits of the distances of references. -/
def distanceCodes : List (Nat × Nat) :=
  [1, 2, 3, 4, 5, 7, 9, 13, 17, 25, 33, 49, 65, 97, 129, 193, 257, 385, 513, 769, 1025, 1537, 2049, 3073, 4097, 6145,
    8193, 12289, 16385, 24577].zip
    [0, 0, 0, 0, 1, 1, 2, 2, 3, 3, 4, 4, 5, 5, 6, 6, 7, 7, 8, 8, 9, 9, 10, 10, 11, 11, 12, 12, 13, 13]

/-- A base with its extra bits added. -/
def extended (codes : List (Nat × Nat)) (i : Nat) : Reader Nat := do
  match codes[i]? with
  | some (base, extra) => return base + (← bits extra)
  | none => failure

/-- The output with `n` bytes more, each the one `distance` before it. -/
def copy (distance : Nat) : (n : Nat) → Array UInt8 → Option (Array UInt8)
  | 0, out => some out
  | n + 1, out => if distance ≤ out.size then copy distance n (out.push (out.getD (out.size - distance) 0)) else none

/-- The coded part of a block, up to the symbol for its end; it has fewer symbols than `turns`. -/
def coded (literals distances : Code) : (turns : Nat) → Array UInt8 → Reader (Array UInt8)
  | 0, _ => failure
  | turns + 1, out => do
    let s ← symbol literals
    if s < 256 then coded literals distances turns (out.push s.toUInt8)
    else if s = 256 then return out
    else
      let length ← extended lengthCodes (s - 257)
      let distance ← extended distanceCodes (← symbol distances)
      coded literals distances turns (← copy distance length out)

def stored (out : Array UInt8) : Reader (Array UInt8) := do
  align
  let length ← bits 16
  let check ← bits 16
  if length + check ≠ 0xFFFF then failure
  let i ← get
  let start := i.next / 8
  if i.bytes.size < start + length then failure
  set { i with next := i.next + 8 * length }
  return out ++ i.bytes.extract start (start + length)

/-- The codes of a block that has none of its own. -/
def fixedLiterals : Code :=
  .ofLengths (List.replicate 144 8 ++ List.replicate 112 9 ++ List.replicate 24 7 ++ List.replicate 8 8)

/-- The distances of a block that has no codes of its own. -/
def fixedDistances : Code := .ofLengths (List.replicate 30 5)

/-- The order in which the lengths of code lengths are given. -/
def lengthOrder : List Nat := [16, 17, 18, 0, 8, 7, 9, 6, 10, 5, 11, 4, 12, 3, 13, 2, 14, 1, 15]

/-- Reads code lengths until there are `count`, newest first; a symbol stands for one length or for several. -/
def codeLengths (c : Code) (count : Nat) : (turns : Nat) → List Nat → Reader (List Nat)
  | 0, _ => failure
  | turns + 1, ls => do
    if count ≤ ls.length then return ls
    match ← symbol c with
    | 16 =>
      match ls with
      | [] => failure
      | l :: _ => codeLengths c count turns (List.replicate (3 + (← bits 2)) l ++ ls)
    | 17 => codeLengths c count turns (List.replicate (3 + (← bits 3)) 0 ++ ls)
    | 18 => codeLengths c count turns (List.replicate (11 + (← bits 7)) 0 ++ ls)
    | l => codeLengths c count turns (l :: ls)

def dynamicCodes : Reader (Code × Code) := do
  let literals := 257 + (← bits 5)
  let distances := 1 + (← bits 5)
  let given ← (List.replicate (4 + (← bits 4)) ()).mapM fun _ => bits 3
  let lengths := (List.range 19).map fun s => ((lengthOrder.zip given).lookup s).getD 0
  let all := (← codeLengths (.ofLengths lengths) (literals + distances) (literals + distances + 1) []).reverse
  return (.ofLengths (all.take literals), .ofLengths ((all.drop literals).take distances))

/-- Blocks up to the one that is marked as the last; there are fewer than `turns`. -/
def blocks : (turns : Nat) → Array UInt8 → Reader (Array UInt8)
  | 0, _ => failure
  | turns + 1, out => do
    let last ← bit
    let size := 8 * (← get).bytes.size
    let out ← match ← bits 2 with
      | 0 => stored out
      | 1 => coded fixedLiterals fixedDistances (size + 1) out
      | 2 =>
        let (literals, distances) ← dynamicCodes
        coded literals distances (size + 1) out
      | _ => failure
    if last = 1 then return out else blocks turns out

end Inflate

def inflate? (packed : Array UInt8) : Option (Array UInt8) :=
  (Inflate.blocks (8 * packed.size + 1) #[] ⟨packed, 0⟩).map (·.1)

end KiteCompiler
