import KiteCompiler.Glob
import KiteCompiler.Text.Quoted
import KiteCompiler.Yaml.Node

/-!
# Projects

The settings of a project, which its `kite.yaml` holds, and the source files that they name. Relative paths in the
settings start from the directory of the project.
-/

namespace KiteCompiler

structure Project where
  sources : List Text
  searchPath : List Text
  output : Text
  jobs : Int
  warningsAsErrors : Bool
  directory : Text
  deriving DecidableEq, Repr

namespace Project

/-- The settings of a project without a file. -/
def standard (directory : Text) : Project := ⟨["**/*.kite"], [], "out", 0, false, directory⟩

def fileName : Text := "kite.yaml"

/-- Something in the text of settings that does not belong there. -/
inductive Complaint where
  | duplicateKey (line : Nat) (key : Text) (first : Nat)
  | unknownKey (line : Nat) (key : Text)
  /-- A key that is written in another way than the first time. -/
  | alreadySet (line : Nat) (key : Text)
  /-- A value of another type; sequences and mappings are not shown. -/
  | mismatch (line : Nat) (tag : Text) (value : Option Text) (type : Text)
  deriving DecidableEq, Repr

namespace Complaint

/-- A value as it is shown; long ones are cut. -/
def shown (value : Text) : Text :=
  " \x60" ++ (if 10 < value.length then value.take 7 ++ "..." else value) ++ "\x60"

def text : Complaint → Text
  | duplicateKey line key first =>
    "line " ++ Text.ofNat line ++ ": mapping key " ++ key.quoted ++ " already defined at line " ++ Text.ofNat first
  | unknownKey line key => "line " ++ Text.ofNat line ++ ": field " ++ key ++ " not found in type config.Config"
  | alreadySet line key => "line " ++ Text.ofNat line ++ ": field " ++ key ++ " already set in type config.Config"
  | mismatch line tag value type =>
    "line " ++ Text.ofNat line ++ ": cannot unmarshal " ++ tag ++ (value.map shown).getD [] ++ " into " ++ type

end Complaint

/-- Why the text of settings cannot be read. -/
inductive Unreadable where
  | malformed (problem : Yaml.Problem)
  | wrongTag (found value tag : Text)
  | noBase64
  | wrongMerge
  | containsItself (anchor : Text)
  | tooManyAliases
  /-- A mapping that takes over another one has a key that is no scalar. -/
  | unmergeableKey
  | complaints (cs : List Complaint)
  deriving DecidableEq, Repr

def Unreadable.message : Unreadable → Text
  | malformed problem => "yaml: " ++ problem.message
  | wrongTag found value tag => "yaml: cannot decode " ++ found ++ " \x60" ++ value ++ "\x60 as a " ++ tag
  | noBase64 => "yaml: !!binary value contains invalid base64 data"
  | wrongMerge => "yaml: map merge requires map or sequence of maps as the value"
  | containsItself anchor => "yaml: anchor '" ++ anchor ++ "' value contains itself"
  | tooManyAliases => "yaml: document contains excessive aliasing"
  | unmergeableKey => "yaml: map merge requires scalar keys"
  | complaints cs => "yaml: unmarshal errors:" ++ (cs.flatMap fun c => ("\n  " ++ c.text : Text))

/-- Why there are no settings, or no source files. -/
inductive Failure where
  /-- The text is not YAML, or has keys or values that settings do not have. -/
  | unreadable (cause : Unreadable)
  | negativeJobs (jobs : Int)
  | invalidPattern (pattern : Text)
  | missing (error : Disk.Error)
  | inFile (path : Text) (cause : Failure)
  | expansion (pattern : Text)
  deriving DecidableEq, Repr

namespace Failure

def message : Failure → Text
  | unreadable cause => cause.message
  | negativeJobs n => "jobs must not be negative, got " ++ Text.ofInt n
  | invalidPattern p => "invalid source pattern " ++ p.quoted
  | missing e => "reading config: " ++ e.text
  | inFile path cause => path ++ ": " ++ cause.message
  | expansion p => "expanding " ++ p.quoted ++ ": syntax error in pattern"

/-- What is wrong with the text of the settings, rather than with what they say. -/
def unreadable? : Failure → Option Unreadable
  | unreadable cause => some cause
  | inFile _ cause => cause.unreadable?
  | _ => none

end Failure

/-! ## Reading settings -/

/-- What has been seen while reading: complaints, the number of nodes, and how many of them through aliases. -/
structure Progress where
  complaints : List Complaint
  nodes : Nat
  aliased : Nat
  isInAlias : Bool

/-- Reads parts of a text; complaints are collected on the way. -/
abbrev Decoder := StateT Progress (Except Unreadable)

namespace Decoder

def complain (cs : List Complaint) : Decoder Unit := modify fun s => { s with complaints := s.complaints ++ cs }

/-- Counts a node. In a large document not nearly all nodes may come from aliases. -/
def count : Decoder Unit := do
  modify fun s => { s with nodes := s.nodes + 1, aliased := if s.isInAlias then s.aliased + 1 else s.aliased }
  let s ← get
  if 100 < s.aliased && 1000 < s.nodes && 99 * s.nodes < 100 * s.aliased then throw .tooManyAliases

def visit {α : Type} (n : Yaml.Node) (read : Yaml.Node → Decoder α) : Decoder α := do
  count
  match n with
  | .reference _ _ target =>
    let before := (← get).isInAlias
    modify fun s => { s with isInAlias := true }
    count
    let a ← read target
    modify fun s => { s with isInAlias := before }
    return a
  | n => read n

def value (tag text : Text) : Decoder Yaml.Value :=
  match Yaml.taggedValue tag text with
  | .ok v => return v
  | .error (.wrongTag found) => throw (.wrongTag found text tag)
  | .error .noBase64 => throw .noBase64

def mismatch {α : Type} (n : Yaml.Node) (type : Text) : Decoder (Option α) := do
  let complaint (line : Nat) (tag text : Text) : Complaint :=
    let isCollection := tag = Text.ofString "!!seq" || tag = Text.ofString "!!map"
    .mismatch line tag (if isCollection then none else some text) type
  match n with
  | .scalar line tag text => complain [complaint line tag text]
  | .sequence line tag _ | .mapping line tag _ | .enclosing line tag _ => complain [complaint line tag []]
  | .reference line name _ => complain [complaint line name []]
  return none

/-- A text: any scalar as it is written. Null is no text. -/
def text (n : Yaml.Node) : Decoder (Option Text) := visit n fun n => do
  match n with
  | .scalar _ tag t =>
    match ← value tag t with
    | .null => return none
    | .text t => return some t
    | _ => return some t
  | n => mismatch n "string"

/-- A list of texts, without nulls; null is the empty list. -/
def texts (n : Yaml.Node) : Decoder (Option (List Text)) := visit n fun n => do
  match n with
  | .sequence _ _ items => return some (← items.filterMapM text)
  | .scalar _ tag t => if (← value tag t) = .null then return some [] else mismatch n "[]string"
  | n => mismatch n "[]string"

/-- A whole number; a real number is cut at its point. Null is no number. -/
def whole (n : Yaml.Node) : Decoder (Option Int) := visit n fun n => do
  match n with
  | .scalar _ tag t =>
    match ← value tag t with
    | .null => return none
    | .int i => if i < Int.pow 2 63 then return some i else mismatch n "int"
    | .real r => match r.truncate? with
      | some i => return some i
      | none => mismatch n "int"
    | _ => mismatch n "int"
  | n => mismatch n "int"

/-- The words for true and for false beside these two. -/
def truthWords : List Text × List Text :=
  (["y", "Y", "yes", "Yes", "YES", "on", "On", "ON"], ["n", "N", "no", "No", "NO", "off", "Off", "OFF"])

/-- A truth value, which may also be written as a word. Null is none. -/
def truth (n : Yaml.Node) : Decoder (Option Bool) := visit n fun n => do
  match n with
  | .scalar _ tag t =>
    match ← value tag t with
    | .null => return none
    | .bool b => return some b
    | .text t =>
      if truthWords.1.contains t then return some true
      else if truthWords.2.contains t then return some false
      else mismatch n "bool"
    | _ => mismatch n "bool"
  | n => mismatch n "bool"

def keys : List Text := ["sources", "searchPath", "output", "jobs", "warningsAsErrors"]

def set (p : Project) (key : Text) (value : Yaml.Node) : Decoder Project := do
  if key = Text.ofString "sources" then return { p with sources := (← texts value).getD p.sources }
  else if key = Text.ofString "searchPath" then return { p with searchPath := (← texts value).getD p.searchPath }
  else if key = Text.ofString "output" then return { p with output := (← text value).getD p.output }
  else if key = Text.ofString "jobs" then return { p with jobs := (← whole value).getD p.jobs }
  else return { p with warningsAsErrors := (← truth value).getD p.warningsAsErrors }

/-- Does the key ask to take over the pairs of another mapping? -/
def isMerge : Yaml.Node → Bool
  | .scalar _ tag text => tag = Text.ofString "!!merge" && text = Text.ofString "<<"
  | _ => false

/-- How a key is written: its form, and its text or the name of an alias. Keys that are no scalars have no text. -/
def written : Yaml.Node → Nat × Text
  | .scalar _ _ text => (0, text)
  | .sequence .. => (1, [])
  | .mapping .. => (2, [])
  | .reference _ name _ => (3, name)
  | .enclosing .. => (4, [])

/-- The keys that occur again, each with the lines of the later and the earlier place. -/
def repeated : List Yaml.Node → List Complaint
  | [] => []
  | k :: ks =>
    ((ks.filter (written · = written k)).map fun later => Complaint.duplicateKey later.line (written k).2 k.line) ++
      repeated ks

/-- Sets what a pair says. If some keys are `taken`, they are passed over, and this one is then taken too; else every
key can be set once, and `done` are the keys that are set. -/
def setPair (p : Project) (taken : Option (List Text)) (done : List Text) (key value : Yaml.Node) :
    Decoder (Project × Option (List Text) × List Text) := do
  match ← text key with
  | none => return (p, taken, done)
  | some name =>
    if taken.any (·.contains name) then return (p, taken, done)
    let taken := taken.map (name :: ·)
    if !keys.contains name then
      complain [.unknownKey key.line name]
      return (p, taken, done)
    if done.contains name then
      complain [.alreadySet key.line name]
      return (p, taken, done)
    return (← set p name value, taken, name :: done)

def ownKeys (pairs : List (Yaml.Node × Yaml.Node)) : Decoder (List Text) :=
  pairs.filterMapM fun (k, _) => visit k fun k => do
    match k with
    | .scalar _ tag t =>
      match ← value tag t with
      | .text t => return some t
      | _ => return none
    | _ => throw .unmergeableKey

/-- Sets what the pairs of a mapping say, except for keys that are `taken`; then what the mapping takes over says the
rest. The result tells also which keys are taken. Mappings are nested less than `turns` deep. -/
def setAll : (turns : Nat) → (taken : Option (List Text)) → List (Yaml.Node × Yaml.Node) → Project →
    Decoder (Project × Option (List Text))
  | 0, _, _, _ => throw .wrongMerge
  | turns + 1, taken, pairs, p => do
    let wrong := repeated (pairs.map (·.1))
    if !wrong.isEmpty then
      complain wrong
      return (p, taken)
    let (p, taken, _) ← (pairs.filter fun (k, _) => !isMerge k).foldlM (fun (p, taken, done) (k, v) =>
      setPair p taken done k v) (p, taken, [])
    match (pairs.find? fun (k, _) => isMerge k).map (·.2) with
    | none => return (p, taken)
    | some merged =>
      let all ← match taken with
        | some keys => pure keys
        | none => ownKeys pairs
      let takeOver (p : Project) (all : Option (List Text)) (n : Yaml.Node) :
          Decoder (Project × Option (List Text)) :=
        match n with
        | .mapping .. | .reference _ _ (.mapping ..) => visit n fun n =>
          match n with
          | .mapping _ _ pairs => setAll turns all pairs p
          | _ => throw .wrongMerge
        | .reference _ name (.enclosing _ _ true) => throw (.containsItself name)
        | _ => throw .wrongMerge
      let (p, all) ← match merged with
        | .sequence _ _ items => items.foldlM (fun (p, all) n => takeOver p all n) (p, some all)
        | n => takeOver p (some all) n
      return (p, taken.bind fun _ => all)

end Decoder

def check (p : Project) : Except Failure Project :=
  if p.jobs < 0 then .error (.negativeJobs p.jobs)
  else
    match p.sources.find? fun s => !Glob.isValid s with
    | some s => .error (.invalidPattern s)
    | none => .ok p

def decode (turns : Nat) (start : Project) (n : Yaml.Node) : Decoder Project := Decoder.visit n fun n => do
  Decoder.count
  match n with
  | .mapping _ _ pairs => return (← Decoder.setAll turns none pairs start).1
  | .scalar _ tag text =>
    if (← Decoder.value tag text) = .null then return start
    return (← Decoder.mismatch n "config.Config").getD start
  | n => return (← Decoder.mismatch n "config.Config").getD start

/-- Reads settings; what is not set stays as it is without a file. -/
def parse (yaml directory : Text) : Except Failure Project :=
  let start := standard directory
  match Yaml.Node.parse yaml with
  | .error problem => .error (.unreadable (.malformed problem))
  | .ok none => start.check
  | .ok (some n) =>
    match (decode (yaml.length + 1) start n).run ⟨[], 0, 0, false⟩ with
    | .error cause => .error (.unreadable cause)
    | .ok (p, progress) =>
      if progress.complaints.isEmpty then p.check else .error (.unreadable (.complaints progress.complaints))

def load (disk : Disk) (path : Text) : Except Failure Project :=
  match disk.read path with
  | .error e => .error (.missing e)
  | .ok yaml => (parse yaml (Path.dir path)).mapError (.inFile path)

/-- The directories from one up to the root; the path is absolute. -/
def upward (directory : Text) : List Text :=
  let names := Path.elements directory
  (List.range (names.length + 1)).reverse.map fun n => "/" ++ Text.join "/" (names.take n)

/-- Reads the settings in the first file found in a directory or above it. -/
def find (disk : Disk) (directory : Text) : Except Failure Project :=
  let candidates := (upward (disk.absolute directory)).map fun d => Path.join [d, fileName]
  match candidates.find? disk.exists? with
  | some path => load disk path
  | none => .ok (standard directory)

/-! ## Paths -/

def path (p : Project) (t : Text) : Text :=
  if t = [] || Path.isAbsolute t then t else Path.join [p.directory, t]

def outputDirectory (p : Project) : Text := p.path p.output

def searchEntries (p : Project) : List Text := p.searchPath.map p.path

def start (p : Project) : Text := if p.directory = [] then "." else p.directory

/-- The source files among found ones, in order and each once; what lies in the output directory is no source. -/
def sourcesAmong (p : Project) (found : List Text) : List Text :=
  let out := p.outputDirectory
  let paths := found.map fun f => Path.join [p.start, f]
  ((paths.filter fun f => out = [] || !Path.isWithin out f).mergeSort Text.precedes).eraseReps

def sourceFiles (p : Project) (disk : Disk) : Except Failure (List Text) := do
  let folder := (disk.find p.start).toOption.getD (.ofFolder [] [])
  let found ← p.sources.mapM fun s => (Glob.find folder s).mapError fun _ => .expansion s
  return p.sourcesAmong found.flatten

end Project

end KiteCompiler
