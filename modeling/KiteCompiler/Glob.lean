import KiteCompiler.Disk
import KiteCompiler.Text.Utf8

/-!
# File patterns

Patterns for paths: `*` for any part of a name, `?` for a character, `[a-z]` and `[!a-z]` for one of a class, `**` for
any number of folders, and `{a,b}` for alternatives. A backslash takes the meaning from the next character.

A pattern is cut at its last slash: what stands before it finds folders, what stands behind it is compared with the
names in them. Braces behind the last slash are replaced by each of their alternatives first.
-/

namespace KiteCompiler

namespace Glob

/-! ## Well-formed patterns -/

/-- What follows a class that has been opened, if it is closed; `\` takes the next byte along. -/
def afterClass : Text → Option Text
  | [] => none
  | b :: rest =>
    if b = Text.byte '\\' then
      match rest with
      | _ :: rest => afterClass rest
      | [] => none
    else if b = Text.byte ']' then some rest
    else afterClass rest

/-- Is the byte one that turns a class around? -/
def isNegation (b : UInt8) : Bool := b = Text.byte '^' || b = Text.byte '!'

/-- What follows a class behind its opening bracket; it may not be empty. -/
def classEnd (t : Text) : Option Text :=
  let body := if t.head?.any isNegation then t.tail else t
  match body with
  | [] => none
  | b :: _ => if b = Text.byte ']' then none else afterClass body

/-- Are classes closed, braces matched and escapes complete? `depth` braces are open; the text has at most `turns`
bytes. -/
def isValidFrom : (turns depth : Nat) → Text → Bool
  | _, depth, [] => depth = 0
  | 0, _, _ => false
  | turns + 1, depth, b :: rest =>
    if b = Text.byte '\\' then
      match rest with
      | _ :: rest => isValidFrom turns depth rest
      | [] => false
    else if b = Text.byte '[' then
      match classEnd rest with
      | some rest => isValidFrom turns depth rest
      | none => false
    else if b = Text.byte '\x7b' then isValidFrom turns (depth + 1) rest
    else if b = Text.byte '\x7d' then 0 < depth && isValidFrom turns (depth - 1) rest
    else isValidFrom turns depth rest

def isValid (pattern : Text) : Bool := isValidFrom pattern.length 0 pattern

/-! ## Places in a pattern -/

/-- Where a byte that `wanted` accepts stands for the first time; `\` takes the next byte along. -/
def indexOf? (wanted : UInt8 → Bool) : Text → Option Nat
  | [] => none
  | b :: rest =>
    if wanted b then some 0
    else if b = Text.byte '\\' then
      match rest with
      | _ :: rest => (indexOf? wanted rest).map (· + 2)
      | [] => none
    else (indexOf? wanted rest).map (· + 1)

/-- Where the first character with a meaning stands. -/
def indexOfMeta? : Text → Option Nat :=
  indexOf? fun b => b = Text.byte '*' || b = Text.byte '?' || b = Text.byte '[' || b = Text.byte '\x7b'

/-- Is the byte one that an escape takes the meaning from? -/
def isSpecial (b : UInt8) : Bool := ("*?[]\x7b\x7d".toList.map Text.byte).contains b

/-- The pattern without the escapes of special characters; other backslashes stand for themselves. -/
def unescape : Text → Text
  | [] => []
  | b :: rest =>
    if b = Text.byte '\\' then
      match rest with
      | c :: rest => if isSpecial c then c :: unescape rest else b :: unescape (c :: rest)
      | [] => [b]
    else b :: unescape rest

/-- The pattern that stands for a path and nothing else. -/
def escape (path : Text) : Text := path.flatMap fun b => if isSpecial b then [Text.byte '\\', b] else [b]

/-- Where a byte that `wanted` accepts stands for the last time, not directly behind a backslash. -/
def lastIndexOf? (wanted : UInt8 → Bool) (t : Text) : Option Nat :=
  ((t.zip (0 :: t)).zipIdx.filter fun ((b, before), _) => wanted b && before ≠ Text.byte '\\').getLast?.map (·.2)

def lastSlashOrBrace? : Text → Option Nat :=
  lastIndexOf? fun b => b = Path.separator || b = Text.byte '\x7d'

/-- Where the brace stands that the one behind the text closes; `depth` further ones are closed behind it. -/
def openingBrace? (t : Text) : Option Nat :=
  go 0 ((t.zip (0 :: t)).zipIdx.reverse)
where
  go (depth : Nat) : List ((UInt8 × UInt8) × Nat) → Option Nat
    | [] => none
    | ((b, before), i) :: rest =>
      if before = Text.byte '\\' then go depth rest
      else if b = Text.byte '\x7b' then if depth = 0 then some i else go (depth - 1) rest
      else if b = Text.byte '\x7d' then go (depth + 1) rest
      else go depth rest

/-- Where the brace stands that closes one before the text; `\` takes the next byte along. -/
def closingBrace? (t : Text) : Option Nat :=
  go 0 t
where
  go (depth : Nat) : Text → Option Nat
    | [] => none
    | b :: rest =>
      if b = Text.byte '\\' then
        match rest with
        | _ :: rest => (go depth rest).map (· + 2)
        | [] => none
      else if b = Text.byte '\x7b' then (go (depth + 1) rest).map (· + 1)
      else if b = Text.byte '\x7d' then if depth = 0 then some 0 else (go (depth - 1) rest).map (· + 1)
      else (go depth rest).map (· + 1)

/-- The alternatives that commas outside of inner braces divide. -/
def choices (t : Text) : List Text :=
  go 0 [] t
where
  go (depth : Int) (part : Text) : Text → List Text
    | [] => [part.reverse]
    | b :: rest =>
      if b = Text.byte '\\' then
        match rest with
        | c :: rest => go depth (c :: b :: part) rest
        | [] => [(b :: part).reverse]
      else if b = Text.byte ',' && depth = 0 then part.reverse :: go depth [] rest
      else
        let depth :=
          if b = Text.byte '\x7b' then depth + 1 else if b = Text.byte '\x7d' then depth - 1 else depth
        go depth (b :: part) rest

/-! ## Names -/

/-- The first character of a text, and what follows it. -/
def rune (t : Text) : Nat × Text :=
  let r := Rune.first t
  (r.code, t.drop (max r.width 1))

/-- The first character, or the one behind an escape. -/
def literal (t : Text) : Nat × Text :=
  match t with
  | b :: rest => if b = Text.byte '\\' then rune rest else rune t
  | [] => rune t

/-- The ranges of a class, and what follows it if it is closed; `last` is a character that a range can start with. -/
def ranges : (turns : Nat) → (last : Option Nat) → Text → List (Nat × Nat) × Option Text
  | 0, _, _ => ([], none)
  | _ + 1, _, [] => ([], none)
  | turns + 1, last, b :: rest =>
    if b = Text.byte ']' then ([], some rest)
    else if last.isSome && b = Text.byte '-' && !rest.isEmpty && rest.head? ≠ some (Text.byte ']') then
      let (high, rest) := literal rest
      let (rs, rest) := ranges turns none rest
      ((last.getD 0, high) :: rs, rest)
    else
      let (c, rest) := literal (b :: rest)
      let (rs, rest) := ranges turns (some c) rest
      ((c, c) :: rs, rest)

/-- What follows a class behind its opening bracket, if the class stands for the character. There is no answer if the
class is not closed, unless it is turned around and the character is found before its end. -/
def inClass? (code : Nat) (t : Text) : Option (Option Text) :=
  let negated := t.head?.any isNegation
  let body := if negated then t.tail else t
  let isIn (r : Nat × Nat) : Bool := r.1 ≤ code && code ≤ r.2
  if body.head? = some (Text.byte ']') then none
  else
    match ranges (body.length + 1) none body with
    | (rs, some rest) => some (if rs.any isIn != negated then some rest else none)
    | (rs, none) => if negated && rs.dropLast.any isIn then some none else none

/-- The first answer that is not no: yes, or that there is none. -/
def firstAnswer {α : Type} (answer : α → Option Bool) : List α → Option Bool
  | [] => some false
  | a :: as => do if ← answer a then return true else firstAnswer answer as

/-- Does the pattern stand for the characters? There is no answer if a part is reached that is not well formed. Pattern
and characters together are shorter than `turns`. -/
def matches? : (turns : Nat) → (pattern : Text) → (name : List Nat) → Option Bool
  | 0, _, _ => some false
  | _ + 1, [], name => some name.isEmpty
  | turns + 1, b :: rest, name =>
    if b = Text.byte '*' && (!name.isEmpty || rest = [] || rest = [b]) then
      firstAnswer (matches? turns (if rest.head? = some b then rest.tail else rest)) (tails name)
    else if b = Text.byte '\x7b' then
      match closingBrace? rest with
      | none => none
      | some i => firstAnswer (fun c => matches? turns (c ++ rest.drop (i + 1)) name) (choices (rest.take i))
    else
      match name with
      | [] => if isValid (b :: rest) then some false else none
      | c :: cs =>
        if b = Text.byte '?' then matches? turns rest cs
        else if b = Text.byte '[' then do
          match ← inClass? c rest with
          | some rest => matches? turns rest cs
          | none => return false
        else if b = Text.byte '\\' && rest.isEmpty then none
        else
          let (code, rest) := literal (b :: rest)
          if code = c then matches? turns rest cs else some false
where
  /-- A list and all its ends, the longest first. -/
  tails : List Nat → List (List Nat)
    | [] => [[]]
    | c :: cs => (c :: cs) :: tails cs

def matchesName? (pattern name : Text) : Option Bool :=
  matches? (pattern.length + name.length + 1) pattern ((Rune.list name).map (·.1.code))

/-! ## Files -/

/-- The item below a folder that a path of plain names leads to. -/
def item? (folder : Disk.Item) (path : Text) : Option Disk.Item :=
  let plain (n : Text) : Bool := n ≠ [] && n ≠ Text.ofString "." && n ≠ Text.ofString ".."
  if path = Text.ofString "." then some folder
  else if !(Text.toString? path).isSome then none
  else
    let names := Text.split Path.separator path
    if names.all plain then names.foldlM (fun i n => i.child? n) folder else none

def below (folder name : Text) : Text := Path.join [folder, name]

/-- The paths of all items below an item that are folders, or that are files; the item itself is at `path`. -/
def everything (path : Text) (folders : Bool) (i : Disk.Item) : List Text :=
  let visit (label : Text × Disk.Entry) (inner : List (Text → List Text)) (path : Text) : List Text :=
    let path := if label.1 = [] then path else below path label.1
    (if label.2.isFolder = folders then [path] else []) ++ (inner.map (· path)).flatten
  Tree.fold visit (.node ([], i.label.2) i.children) path

inductive Fault where
  /-- Classes, braces or escapes are not complete. -/
  | malformed
  /-- A class is not closed before the next slash. -/
  | openClass
  deriving DecidableEq, Repr

/-- The paths of items in the folder at a path that a pattern for names finds: folders, or files. -/
def inFolder (root : Disk.Item) (path pattern : Text) (folders : Bool) : Except Fault (List Text) :=
  match item? root path with
  | none => .ok []
  | some i =>
    if !i.isFolder then .ok []
    else if pattern = [] then .ok (if folders then [path] else [])
    else if pattern = Text.ofString "**" then .ok (everything path folders i)
    else
      i.children.foldlM (fun found (c : Disk.Item) =>
        match matchesName? pattern c.name with
        | none => .error .openClass
        | some yes => .ok (if yes && c.isFolder = folders then found ++ [below path c.name] else found)) []

/-- The paths below a folder that a pattern finds: files, or what can be a folder on the way to them. An empty
alternative at the end of braces finds nothing. Every turn takes a slash or a pair of braces from the pattern, which has
fewer than `turns` of both. -/
def findWithin (root : Disk.Item) : (turns : Nat) → (pattern : Text) → (folders : Bool) →
    Except Fault (List Text)
  | 0, _, _ => .ok []
  | turns + 1, pattern, folders =>
    match indexOfMeta? pattern with
    | none =>
      let path := unescape pattern
      let plain := if 1 < path.length && path.getLast? = some Path.separator then path.dropLast else path
      match item? root plain with
      | some i => .ok (if folders || !i.isFolder then [path] else [])
      | none => .ok []
    | some start =>
      match lastSlashOrBrace? pattern with
      | none => inFolder root "." pattern folders
      | some cut =>
        let isSlash : Bool := (pattern.drop cut).head? = some Path.separator
        match if isSlash then none else openingBrace? (pattern.take cut) with
        | some opening => do
          let common := lastSlashOrBrace? (pattern.take opening)
          let (starts, head) ←
            match common.filter fun i => (pattern.drop i).head? = some Path.separator with
            | none => pure ([[]], pattern.take opening)
            | some slash => do
              let found ← findWithin root turns (pattern.take slash) true
              let start (p : Text) : Text := if p = Text.ofString "." then [] else escape p ++ [Path.separator]
              pure (found.map start, (pattern.take opening).drop (slash + 1))
          let cs := choices ((pattern.take cut).drop (opening + 1))
          let cs := if cs.getLast? = some [] then cs.dropLast else cs
          let patterns := starts.flatMap fun s => cs.map fun c => s ++ head ++ c ++ pattern.drop (cut + 1)
          return (← patterns.mapM fun p => findWithin root turns p folders).flatten
        | none =>
          match if isSlash then some cut else lastIndexOf? (· = Path.separator) (pattern.take cut) with
          | none => inFolder root "." pattern folders
          | some cut => do
            let folder := pattern.take cut
            let name := pattern.drop (cut + 1)
            let starts ← if cut ≤ start then pure [unescape folder] else findWithin root turns folder true
            return (← starts.mapM fun p => inFolder root p name folders).flatten

/-- The paths of the files below a folder that a well-formed pattern finds. -/
def find (folder : Disk.Item) (pattern : Text) : Except Fault (List Text) :=
  if isValid pattern then findWithin folder (pattern.length + 1) pattern false else .error .malformed

end Glob

end KiteCompiler
