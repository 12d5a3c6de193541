import KiteCompiler.Path
import KiteCompiler.Tree

/-!
# Disks

A tree of folders and files with a working directory, and the operations on it that the compiler needs. They fail as
those of an operating system do: with the operation, the path as it was given and a `Fault`.
-/

namespace KiteCompiler

namespace Disk

inductive Fault where
  | noEntry | notDirectory | isDirectory | exists | invalid | tooLong
  deriving DecidableEq, Repr

def Fault.text : Fault → Text
  | noEntry => "no such file or directory"
  | notDirectory => "not a directory"
  | isDirectory => "is a directory"
  | .exists => "file exists"
  | invalid => "invalid argument"
  | tooLong => "file name too long"

structure Error where
  operation : Text
  path : Text
  fault : Fault
  deriving DecidableEq, Repr

def Error.text (e : Error) : Text := e.operation ++ " " ++ e.path ++ ": " ++ e.fault.text

/-- What a name stands for: a file with its bytes, or a folder. Both have the time of their last change. -/
inductive Entry where
  | file (data : Text) (modified : Int)
  | folder (modified : Int)
  deriving DecidableEq, Repr

namespace Entry

def isFolder : Entry → Bool
  | file .. => false
  | folder _ => true

def modified : Entry → Int
  | file _ time => time
  | folder time => time

def setModified (time : Int) : Entry → Entry
  | file data _ => file data time
  | folder _ => folder time

end Entry

/-- A named entry, and what is below it if it is a folder. -/
abbrev Item := Tree (Text × Entry)

namespace Item

def name (i : Item) : Text := i.label.1

def isFolder (i : Item) : Bool := i.label.2.isFolder

def ofFolder (name : Text) (items : List Item) (modified : Int := 0) : Item := .node (name, .folder modified) items

def ofFile (name : Text) (data : Text) (modified : Int) : Item := .node (name, .file data modified) []

def child? (name : Text) (i : Item) : Option Item := i.children.find? (·.name = name)

/-- Items with one more among them, in the order of names; it takes the place of one with its name. -/
def insert (new : Item) : List Item → List Item
  | [] => [new]
  | i :: rest =>
    if i.name = new.name then new :: rest
    else if Text.precedes new.name i.name then new :: i :: rest
    else i :: insert new rest

/-- Changes the items of the folder that the names lead to. If names come or go, this is a change of the folder
itself. -/
def alter (time : Int) (change : List Item → List Item) : List Text → Item → Item
  | [], .node (n, e) items =>
    .node (n, if (change items).map name = items.map name then e else e.setModified time) (change items)
  | n :: names, i => .node i.label (i.children.map fun c => if c.name = n then alter time change names c else c)

/-- The files below a folder in the order of names, folder by folder, with their names from there on. Folders whose name
is not wanted are left out. -/
def files (wanted : Text → Bool) (i : Item) : List (List Text × Text) :=
  let visit (label : Text × Entry) (below : List (List (List Text × Text))) : List (List Text × Text) :=
    match label with
    | (n, .file data _) => [([n], data)]
    | (n, .folder _) => if wanted n then below.flatten.map fun (names, data) => (n :: names, data) else []
  (i.children.map fun c => Tree.fold visit c).flatten

end Item

end Disk

/-- A disk: its items, the names that lead to the working directory, and the time. -/
structure Disk where
  root : Disk.Item
  directory : List Text
  clock : Int

namespace Disk

def empty (directory : List Text) : Disk :=
  ⟨.ofFolder [] (directory.foldr (fun n items => [.ofFolder n items]) []), directory, 0⟩

def directoryPath (d : Disk) : Text := "/" ++ Text.join "/" d.directory

def absolute (d : Disk) (path : Text) : Text :=
  if Path.isAbsolute path then Path.clean path else Path.join [d.directoryPath, path]

def longestName : Nat := 255

/-- Goes on by one path element; `here` starts with the innermost folder. -/
def enter (here : List Item) (element : Text) : Except Fault (List Item) :=
  match here with
  | [] => .error .noEntry
  | i :: above =>
    if !i.isFolder then .error .notDirectory
    else if element = [] || element = Text.ofString "." then .ok here
    else if element = Text.ofString ".." then .ok (if above.isEmpty then here else above)
    else if longestName < element.length then .error .tooLong
    else
      match i.child? element with
      | some c => .ok (c :: here)
      | none => .error .noEntry

/-- The item that a path leads to and the folders around it. -/
def locate (d : Disk) (path : Text) : Except Fault (List Item) :=
  if path.isEmpty then .error .noEntry
  else if path.contains 0 then .error .invalid
  else do
    let start ← if Path.isAbsolute path then .ok [d.root] else d.directory.foldlM enter [d.root]
    (Text.split Path.separator path).foldlM enter start

def find (d : Disk) (path : Text) : Except Fault Item := do
  match ← d.locate path with
  | i :: _ => return i
  | [] => .error .noEntry

def stat (d : Disk) (path : Text) : Except Error Item := (d.find path).mapError fun f => ⟨"stat", path, f⟩

def exists? (d : Disk) (path : Text) : Bool := (d.find path).isOk

def read (d : Disk) (path : Text) : Except Error Text :=
  match d.find path with
  | .error f => .error ⟨"open", path, f⟩
  | .ok (.node (_, .file data _) _) => .ok data
  | .ok (.node (_, .folder _) _) => .error ⟨"read", path, .isDirectory⟩

/-- When a file or folder was changed last. -/
def modified? (d : Disk) (path : Text) : Option Int := (d.find path).toOption.map (·.label.2.modified)

/-- Changes the items of the folder that a path leads to. -/
def alter (d : Disk) (path : Text) (change : List Item → List Item) : Except Fault Disk := do
  let here ← d.locate path
  let names := (here.reverse.drop 1).map Item.name
  return { d with root := Item.alter d.clock change names d.root }

/-- The path before its last element, up to the slash; slashes at the end belong to the last element. -/
def parent (path : Text) : Text :=
  let last := Text.afterLast Path.separator (Path.trimEnd path)
  (Path.trimEnd path).take ((Path.trimEnd path).length - last.length)

/-- Makes a folder and the folders above it, as far as they are missing. There are fewer of them than `turns`. -/
def makeFoldersWithin (path : Text) : (turns : Nat) → Disk → Except Error Disk
  | 0, d => .ok d
  | turns + 1, d =>
    match d.find path with
    | .ok i => if i.isFolder then .ok d else .error ⟨"mkdir", path, .notDirectory⟩
    | .error _ => do
      let above := parent path
      let d ← if above.isEmpty then .ok d else makeFoldersWithin above turns d
      let name := Text.afterLast Path.separator (Path.trimEnd path)
      match d.find (above ++ name) with
      | .ok _ => .error ⟨"mkdir", path, .exists⟩
      | .error .tooLong => .error ⟨"mkdir", path, .tooLong⟩
      | .error _ =>
        (d.alter (if above.isEmpty then "." else above) (Item.insert (.ofFolder name [] d.clock))).mapError fun f =>
          ⟨"mkdir", path, f⟩

/-- Makes a folder and the folders above it, as far as they are missing. -/
def makeFolders (d : Disk) (path : Text) : Except Error Disk := makeFoldersWithin path (path.length + 1) d

/-- Writes a file; the folder it belongs to exists. -/
def write (d : Disk) (path data : Text) : Except Error Disk :=
  match d.find path with
  | .ok i =>
    if i.isFolder then .error ⟨"open", path, .isDirectory⟩ else put
  | .error .tooLong => .error ⟨"open", path, .tooLong⟩
  | .error _ => put
where
  put : Except Error Disk :=
    let file := Item.ofFile (Path.base path) data d.clock
    match d.alter (Path.dir path) (Item.insert file) with
    | .ok d => .ok { d with clock := d.clock + 1 }
    | .error f => .error ⟨"open", path, f⟩

/-- Writes a file and makes the folders that it needs. -/
def writeBelow (d : Disk) (path data : Text) : Except Error Disk := do
  (← d.makeFolders (Path.dir path)).write path data

def remove (d : Disk) (path : Text) : Disk :=
  match d.alter (Path.dir path) (·.filter (·.name ≠ Path.base path)) with
  | .ok d => d
  | .error _ => d

def setModified (d : Disk) (path : Text) (time : Int) : Disk :=
  let change (i : Item) : Item :=
    if i.name = Path.base path then .node (i.name, i.label.2.setModified time) i.children else i
  match d.alter (Path.dir path) (·.map change) with
  | .ok d => d
  | .error _ => d

/-- The files below the working directory, by their paths from there. -/
def listing (d : Disk) : List Text :=
  match d.find "." with
  | .ok i => ((i.files fun _ => true).map fun (names, _) => Text.join "/" names).mergeSort Text.precedes
  | .error _ => []

end Disk

end KiteCompiler
