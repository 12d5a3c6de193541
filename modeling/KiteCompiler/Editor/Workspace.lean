import KiteCompiler.Compilation.Basic
import KiteCompiler.Editor.Report
import KiteCompiler.Project
import KiteCompiler.Uri

/-!
# Workspaces

What an editor has open. The editor sends notices when documents are opened, changed, saved and closed; each notice
changes the workspace (`Workspace.handle`) and may publish the reports on a document.
-/

namespace KiteCompiler.Editor

/-- An open document and what is wrong with it. -/
structure Document where
  path : Text
  content : Text
  version : Int32
  diagnostics : List Diagnostic
  /-- Why the document could not be checked. -/
  failure : Option Compilation.Failure

def Document.checked (disk : Disk) (options : Compilation.Options) (path content : Text) (version : Int32) : Document :=
  match Compilation.analyze disk options path content with
  | .ok a => ⟨path, content, version, a.diagnostics, none⟩
  | .error f => ⟨path, content, version, [], some f⟩

def Document.reports (d : Document) : List Report := Editor.reports d.content d.diagnostics

/-- What an editor is told about a document. -/
structure Publication where
  uri : Text
  version : Option UInt32
  reports : List Report
  deriving DecidableEq, Repr

/-- A change of a document: its whole text, or a part of it. -/
inductive Change where
  | whole (text : Text)
  | part
  deriving DecidableEq, Repr

/-- What an editor tells. -/
inductive Notice where
  | opened (uri : Text) (version : Int32) (text : Text)
  | changed (uri : Text) (version : Int32) (changes : List Change)
  | saved (uri : Text) (text : Option Text)
  | closed (uri : Text)
  deriving DecidableEq, Repr

def Notice.uri : Notice → Text
  | opened uri .. => uri
  | changed uri .. => uri
  | saved uri _ => uri
  | closed uri => uri

/-- The open documents, one for a path, and how they are checked. -/
structure Workspace where
  root : Text
  options : Compilation.Options
  documents : List Document

namespace Workspace

/-- The root directory: a path if there is one, else a URI, else the working directory. -/
def rootOf (path uri : Text) : Text :=
  if !path.isEmpty then path
  else if uri.isEmpty then "."
  else
    match Uri.path uri with
    | .ok p => p
    | .error _ => "."

/-- How documents below a root are checked. Settings that cannot be read and a search path that cannot be opened are
left out, so that editing still works. -/
def optionsOf (disk : Disk) (root : Text) : Compilation.Options :=
  match Project.find disk root with
  | .error _ => .plain
  | .ok p =>
    let searchPath := if p.searchEntries.isEmpty then none else (SearchPath.ofEntries disk p.searchEntries).toOption
    ⟨[], p.warningsAsErrors, searchPath⟩

/-- The workspace below a root, with nothing open. -/
def new (disk : Disk) (root : Text) : Workspace := ⟨root, optionsOf disk root, []⟩

def get? (w : Workspace) (path : Text) : Option Document := w.documents.find? (·.path = path)

def erase (w : Workspace) (path : Text) : Workspace :=
  { w with documents := w.documents.filter (·.path ≠ path) }

def insert (w : Workspace) (d : Document) : Workspace :=
  { w with documents := d :: (w.erase d.path).documents }

/-- The version of the document at a path; without one it is zero. -/
def version (w : Workspace) (path : Text) : Int32 := ((w.get? path).map (·.version)).getD 0

/-- Gives a document its text and publishes the reports on it. -/
def update (disk : Disk) (uri path : Text) (version : Int32) (text : Text) (w : Workspace) :
    Workspace × Option Publication :=
  let d := Document.checked disk w.options path text version
  (w.insert d, some ⟨uri, some version.toUInt32, d.reports⟩)

/-- What a notice does. A URI that stands for no path is ignored, as are changes unless the last one has the whole text,
and the saving of a document whose file cannot be read. -/
def handle (disk : Disk) (n : Notice) (w : Workspace) : Workspace × Option Publication :=
  match Uri.path n.uri with
  | .error _ => (w, none)
  | .ok path =>
    match n with
    | .opened uri version text => w.update disk uri path version text
    | .changed uri version changes =>
      match changes.getLast? with
      | some (.whole text) => w.update disk uri path version text
      | _ => (w, none)
    | .saved uri (some text) => w.update disk uri path (w.version path) text
    | .saved uri none =>
      match disk.read path with
      | .ok text => w.update disk uri path (w.version path) text
      | .error _ => (w, none)
    | .closed uri => (w.erase path, some ⟨uri, none, []⟩)

end Workspace

end KiteCompiler.Editor
