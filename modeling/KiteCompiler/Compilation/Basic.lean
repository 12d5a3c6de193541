import KiteCompiler.Ast.Reading.Declarations
import KiteCompiler.Grammar.Parsed
import KiteCompiler.Imports
import KiteCompiler.Java.Lowering
import KiteCompiler.Java.Printer
import KiteCompiler.Validation

/-!
# Compilation

From the source of a file to Java text. A file with errors has no Java text: it is rejected with its diagnostics.
-/

namespace KiteCompiler

namespace Compilation

/-- How files are compiled. Without an output directory nothing is written; without a search path imports are not
looked up. -/
structure Options where
  output : Text
  warningsAsErrors : Bool
  searchPath : Option SearchPath

/-- The options of a compilation that writes and looks up nothing. -/
def Options.plain : Options := ⟨[], false, none⟩

/-- What is known of a source: its syntax, unless it has syntax errors, and what is wrong with it. -/
structure Analysis where
  unit : Option CompilationUnit
  diagnostics : List Diagnostic

inductive Failure where
  | rejected (file : Text) (diagnostics : List Diagnostic)
  | malformed (file : Text) (cause : Malformed)
  | unreadable (error : Disk.Error)
  | unwritable (target : Text) (error : Disk.Error)

namespace Failure

def message : Failure → Text
  | rejected file diagnostics => Diagnostic.failure file diagnostics
  | malformed file cause => "building " ++ file ++ ": " ++ cause.message file
  | unreadable e => "reading source: " ++ e.text
  | unwritable target e => "writing " ++ target ++ ": " ++ e.text

/-- Is the failure due to the source itself? -/
def isRejection : Failure → Bool
  | rejected .. => true
  | _ => false

end Failure

/-- What checks find beyond the grammar. -/
def findings (disk : Disk) (options : Options) (file : Text) (u : CompilationUnit) : List Diagnostic :=
  let ds := Validation.validate file u ++ (options.searchPath.map (ImportDecl.warnings disk · u.imports)).getD []
  if options.warningsAsErrors then Diagnostic.promote ds else ds

def analyze (disk : Disk) (options : Options) (file source : Text) : Except Failure Analysis :=
  let parsed := Grammar.parseUnit source
  if parsed.errors.isEmpty then
    match CompilationUnit.ofCst parsed.tree with
    | .ok u => .ok ⟨some u, findings disk options file u⟩
    | .error cause => .error (.malformed file cause)
  else .ok ⟨none, parsed.errors.map Diagnostic.ofSyntaxError⟩

structure Result where
  file : Text
  source : Text
  diagnostics : List Diagnostic
  java : Option Java.Unit
  output : Option Text
  failure : Option Failure

namespace Result

/-- A file of which nothing is known but why it failed. -/
def ofFailure (file source : Text) (f : Failure) : Result := ⟨file, source, [], none, none, some f⟩

def failed (r : Result) : Bool := r.failure.isSome

end Result

def compile (disk : Disk) (options : Options) (file source : Text) : Result :=
  match analyze disk options file source with
  | .error f => .ofFailure file source f
  | .ok ⟨unit, diagnostics⟩ =>
    match unit with
    | some u =>
      if Diagnostic.hasErrors diagnostics then
        ⟨file, source, diagnostics, none, none, some (.rejected file diagnostics)⟩
      else ⟨file, source, diagnostics, some u.lower, none, none⟩
    | none => ⟨file, source, diagnostics, none, none, some (.rejected file diagnostics)⟩

/-- Where the Java file for a source goes: below the output directory, in the folder of its package. -/
def outputPath (directory source : Text) (package : Option Text) : Text :=
  let name := Path.stem source ++ ".java"
  Path.join [directory, Text.replace (Text.byte '.') Path.separator (package.getD []), name]

/-- Writes a file so that it is never seen in part: only a complete file takes its place. -/
def writeWhole (disk : Disk) (target data : Text) : Except Disk.Error Disk := do
  let disk ← disk.makeFolders (Path.dir target)
  match disk.find target with
  | .ok i => if i.isFolder then .error ⟨"rename", target, .exists⟩ else disk.write target data
  | .error _ => disk.write target data

/-- Compiles a file; if that succeeds and there is an output directory, the Java file is written. -/
def compileFile (options : Options) (path : Text) (disk : Disk) : Result × Disk :=
  match disk.read path with
  | .error e => (.ofFailure path [] (.unreadable e), disk)
  | .ok source =>
    let r := compile disk options path source
    match r.java with
    | none => (r, disk)
    | some u =>
      if options.output.isEmpty then (r, disk)
      else
        let target := outputPath options.output path (u.package.map (·.name))
        match writeWhole disk target u.text with
        | .ok disk => ({ r with output := some target }, disk)
        | .error e => ({ r with failure := some (.unwritable target e) }, disk)

end Compilation

end KiteCompiler
