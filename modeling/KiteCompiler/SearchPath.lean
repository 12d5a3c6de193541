import KiteCompiler.Archive
import KiteCompiler.ClassFile
import KiteCompiler.Disk

/-!
# Search paths

Where the types that a file imports are found: in folders and archives, as Kite source, Java source or compiled class.
An earlier entry of the search path hides a later one; within an entry, Kite source hides Java source and both hide a
class.

The index of a search path is a list of locations in the order of names, one for each name. A package is a stretch of it
(`SearchPath.package`).
-/

namespace KiteCompiler

namespace SearchPath

/-- In what form a type is found, the preferred forms first. -/
inductive Form where
  | kite | java | classFile
  deriving DecidableEq, Repr

namespace Form

def text : Form → Text
  | kite => "kite"
  | java => "java"
  | classFile => "class"

/-- The place of a form in the order of preference. -/
def rank : Form → Nat
  | kite => 0
  | java => 1
  | classFile => 2

def ofExtension? (extension : Text) : Option Form :=
  [kite, java, classFile].find? fun f => extension = [Text.byte '.'] ++ f.text

end Form

/-- Where a type is found: in a file, or in an entry of an archive. -/
structure Location where
  name : Text
  form : Form
  path : Text
  entry : Option Text
  deriving DecidableEq, Repr

def Location.text (l : Location) : Text :=
  match l.entry with
  | some e => l.path ++ "!/" ++ e
  | none => l.path

/-! ## The index -/

/-- The name and form of the type that a file defines, from its path below an entry. Nested classes and descriptions of
packages and modules define none. -/
def typeAt? (relative : Text) : Option (Text × Form) := do
  let extension := Path.extension relative
  let form ← Form.ofExtension? extension
  let stem := relative.take (relative.length - extension.length)
  let last := Text.afterLast Path.separator stem
  guard (last ≠ Text.ofString "module-info" ∧ last ≠ Text.ofString "package-info" ∧ !last.contains (Text.byte '$'))
  return (Text.replace Path.separator (Text.byte '.') stem, form)

/-- Locations in the order of preference; those of one form stay as they are. -/
def byForm (ls : List Location) : List Location := ls.mergeSort fun a b => a.form.rank ≤ b.form.rank

/-- Locations in the order of names; those of one name stay as they are. -/
def byName (ls : List Location) : List Location := ls.mergeSort fun a b => Text.precedes a.name b.name

def firstOfName (ls : List Location) : List Location := ls.eraseRepsBy fun a b => a.name = b.name

def indexOf (entries : List (List Location)) : List Location := firstOfName (byName (entries.flatMap byForm))

inductive Failure where
  | stat (error : Disk.Error)
  | unsupported (entry : Text)
  | archive (fault : Archive.Fault)
  deriving DecidableEq, Repr

def Failure.message : Failure → Text
  | stat e => "stat search path entry: " ++ e.text
  | unsupported entry => "search path entry " ++ entry ++ ": not a directory, .jar or .zip"
  | archive f => "open archive: " ++ f.message

/-- The types in a folder; hidden folders below it are left out. -/
def inFolder (entry : Text) (folder : Disk.Item) : List Location :=
  (folder.files fun n => n.head? ≠ some (Text.byte '.')).filterMap fun (names, _) =>
    let relative := Text.join "/" names
    (typeAt? relative).map fun (name, form) => ⟨name, form, Path.join [entry, relative], none⟩

def inArchive (entry : Text) (archive : Archive) : List Location :=
  (archive.entries.filter (!·.isFolder)).filterMap fun e =>
    (typeAt? e.name).map fun (name, form) => ⟨name, form, entry, some e.name⟩

/-- The types in an entry of a search path; an entry that is missing has none and is not counted. -/
def entryLocations (disk : Disk) (entry : Text) : Except Failure (Option (List Location)) :=
  match disk.stat entry with
  | .error e => if e.fault = .noEntry then .ok none else .error (.stat e)
  | .ok item =>
    match item with
    | .node (_, .folder _) _ => .ok (some (inFolder entry item))
    | .node (_, .file data _) _ =>
      if [Text.ofString ".jar", Text.ofString ".zip"].contains (Text.toLower (Path.extension entry)) then
        match Archive.decode data with
        | .ok archive => .ok (some (inArchive entry archive))
        | .error f => .error (.archive f)
      else .error (.unsupported entry)

end SearchPath

/-- The entries that exist, and the locations of all types in the order of their names. -/
structure SearchPath where
  entries : List Text
  index : List SearchPath.Location
  deriving DecidableEq, Repr

namespace SearchPath

def ofEntries (disk : Disk) (entries : List Text) : Except Failure SearchPath := do
  let found ← entries.filterMapM fun e => return (← entryLocations disk e).map fun ls => (e, ls)
  return ⟨found.map (·.1), indexOf (found.map (·.2))⟩

def find? (s : SearchPath) (name : Text) : Option Location := s.index.find? (·.name = name)

/-- The types of a package; the empty name is that of the package without a name. -/
def package (s : SearchPath) (name : Text) : List Location :=
  let start : Text := if name.isEmpty then [] else name ++ "."
  ((s.index.dropWhile fun l => !Text.precedes start l.name).takeWhile fun l => start.isPrefixOf l.name).filter fun l =>
    !(l.name.drop start.length).contains (Text.byte '.')

/-! ## Classes -/

inductive DescribeFailure where
  | notClass (location : Location)
  | disk (error : Disk.Error)
  | archive (fault : Archive.Fault)
  | badEntry (entry : Text)
  | noEntry (entry : Text)
  | folder (location : Location) (path : Text)
  | header (location : Location) (failure : ClassFile.Failure)
  deriving DecidableEq, Repr

def DescribeFailure.message : DescribeFailure → Text
  | notClass l => l.text ++ ": not a class file"
  | disk e => e.text
  | archive f => f.message
  | badEntry e => "open " ++ e ++ ": invalid argument"
  | noEntry e => "open " ++ e ++ ": file does not exist"
  | folder l path => l.text ++ ": reading magic: read " ++ path ++ ": is a directory"
  | header l f => l.text ++ ": " ++ f.message

def isEntryPath (path : Text) : Bool :=
  path = Text.ofString "." ||
    ((Text.toString? path).isSome && (Text.split Path.separator path).all fun e =>
      e ≠ [] && e ≠ Text.ofString "." && e ≠ Text.ofString "..")

def entryData (l : Location) (archive : Archive) (entry : Text) : Except DescribeFailure Text :=
  if !isEntryPath entry then .error (.badEntry entry)
  else if entry = Text.ofString "." then .error (.folder l "./")
  else
    match archive.entries.find? (·.path = entry) with
    | some e =>
      if e.isFolder then .error (.folder l entry) else (archive.contents e).mapError .archive
    | none =>
      if archive.entries.any fun e => (entry ++ "/").isPrefixOf e.path then .error (.folder l entry)
      else .error (.noEntry entry)

def data (disk : Disk) (l : Location) : Except DescribeFailure Text :=
  match disk.read l.path, l.entry with
  | .error e, none => .error (if e.fault = .isDirectory then .folder l l.path else .disk e)
  | .error e, some _ => .error (.disk e)
  | .ok data, none => .ok data
  | .ok data, some entry =>
    match Archive.decode data with
    | .ok archive => entryData l archive entry
    | .error f => .error (.archive f)

def describe (disk : Disk) (l : Location) : Except DescribeFailure ClassFile.Header :=
  if l.form ≠ .classFile then .error (.notClass l)
  else do
    match ClassFile.read (← data disk l) with
    | .ok h => return h
    | .error f => .error (.header l f)

end SearchPath

end KiteCompiler
