import KiteCompiler.Ast.Printer
import KiteCompiler.CommandLine.Help
import KiteCompiler.CommandLine.Request
import KiteCompiler.Compilation.Watcher
import KiteCompiler.Cst.Printer
import KiteCompiler.Diagnostic.Excerpt
import KiteCompiler.Project
import KiteCompiler.Text.Table

/-!
# Running requests

What a request does to a disk and what it prints. A request that fails ends with a line on the error output that says
why.
-/

namespace KiteCompiler.CommandLine

/-- What a program leaves behind: its output, its error output and its exit code. -/
structure Outcome where
  out : Text
  err : Text
  code : UInt8
  deriving DecidableEq, Repr

namespace Outcome

def printed (out : Text) : Outcome := ⟨out, [], 0⟩

def failed (message : Text) : Outcome := ⟨[], "Error: " ++ message ++ "\n", 1⟩

/-- The outcome with something on the error output before it. -/
def after (err : Text) (o : Outcome) : Outcome := { o with err := err ++ o.err }

def afterOut (out : Text) (o : Outcome) : Outcome := { o with out := out ++ o.out }

end Outcome

def version : Text := "0.1.0"

/-! ## Projects -/

def loadProject (disk : Disk) (config : Text) : Except Text Project :=
  let found := if config.isEmpty then Project.find disk disk.directoryPath else Project.load disk config
  found.mapError fun f => "load config: " ++ f.message

/-- The settings with those of the command line in their place. Paths on the command line start from the working
directory. -/
def Overrides.apply (o : Overrides) (disk : Disk) (p : Project) : Project :=
  { p with
    output := (o.output.map disk.absolute).getD p.output
    jobs := o.jobs.getD p.jobs
    warningsAsErrors := o.warningsAsErrors.getD p.warningsAsErrors
    searchPath := (o.searchPath.map (·.map disk.absolute)).getD p.searchPath }

def optionsOf (disk : Disk) (p : Project) (output : Text) : Except Text Compilation.Options := do
  let searchPath ←
    if p.searchEntries.isEmpty then pure none
    else
      match SearchPath.ofEntries disk p.searchEntries with
      | .ok s => pure (some s)
      | .error f => .error ("search path: " ++ f.message)
  return ⟨output, p.warningsAsErrors, searchPath⟩

/-- The Kite files that a path stands for: itself, or all below a folder. -/
def filesAt (disk : Disk) (path : Text) : Except Text (List Text) :=
  match disk.stat path with
  | .error e => .error e.text
  | .ok i =>
    if i.isFolder then
      match Glob.find i "**/*.kite" with
      | .ok found => .ok (found.map fun f => Path.join [path, f])
      | .error _ => .error ("searching " ++ path ++ ": syntax error in pattern")
    else .ok [path]

/-- The files that paths stand for, in order and each once; without paths those of the project. -/
def collect (disk : Disk) (p : Project) (paths : List Text) : Except Text (List Text) :=
  if paths.isEmpty then (p.sourceFiles disk).mapError (·.message)
  else do return ((← paths.mapM (filesAt disk)).flatten.mergeSort Text.precedes).eraseReps

def excerpts (file source : Text) (ds : List Diagnostic) : Text := (Excerpt.render .plain file source ds).getD []

def reportOf (results : List Compilation.Result) : Text :=
  let one (r : Compilation.Result) : Text :=
    let failure : Text := match r.failure with
      | some f => if f.isRejection then [] else r.file ++ ": " ++ f.message ++ "\n"
      | none => []
    excerpts r.file r.source r.diagnostics ++ failure
  results.flatMap one ++ Excerpt.summary .plain (results.flatMap (·.diagnostics))

def Outcome.ofBatch (b : Compilation.Batch) : Outcome :=
  let end_ := match b.failure with
    | some f => failed f.message
    | none => printed []
  end_.after (reportOf b.results.reduceOption)

/-- The settings of a project and how its files are compiled. -/
def settings (disk : Disk) (o : Overrides) (writes : Bool) : Except Text (Project × Compilation.Options) := do
  let p := o.apply disk (← loadProject disk o.config)
  return (p, ← optionsOf disk p (if writes then p.outputDirectory else []))

/-- What is needed to compile the files of a project: how, and which. -/
def prepare (disk : Disk) (o : Overrides) (writes : Bool) (paths : List Text) :
    Except Text (Compilation.Options × List Text) := do
  let (p, options) ← settings disk o writes
  return (options, ← (collect disk p paths).mapError fun m => "collect sources: " ++ m)

def compile (o : Overrides) (paths : List Text) (disk : Disk) : Outcome × Disk :=
  match prepare disk o true paths with
  | .error m => (.failed m, disk)
  | .ok (options, files) =>
    if files.isEmpty then (.failed "no .kite files found", disk)
    else
      let (b, disk) := Compilation.Batch.run options false files disk
      (.ofBatch b, disk)

def check (o : Overrides) (paths : List Text) (disk : Disk) : Outcome :=
  match prepare disk o false paths with
  | .error m => .failed m
  | .ok (options, files) => .ofBatch (Compilation.Batch.run options false files disk).1

/-! ## Single files -/

def withSource (disk : Disk) (file : Text) (use : Text → Outcome) : Outcome :=
  match disk.read file with
  | .ok source => use source
  | .error e => .failed ("read kite file: " ++ e.text)

def emit (warningsAsErrors : Bool) (file : Text) (disk : Disk) : Outcome :=
  withSource disk file fun source =>
    let r := Compilation.compile disk ⟨[], warningsAsErrors, none⟩ file source
    let result : Outcome := match r.failure, r.java with
      | some f, _ => .failed f.message
      | none, some u => .printed u.text
      | none, none => .printed []
    result.after (excerpts file source r.diagnostics)

def inFormat (format : Text) (json outline : Text) : Outcome :=
  if format = Text.ofString "json" then .printed json
  else if format = Text.ofString "tree" then .printed outline
  else .failed ("unknown format: " ++ format)

def typedTree (isExpression : Bool) (t : Cst) : Except Malformed (Tree Node) :=
  if isExpression then (Ast.exprOfCst t).map (·.exprTree) else (CompilationUnit.ofCst t).map (·.tree)

def parse (o : TreeOptions) (file : Text) (disk : Disk) : Outcome :=
  withSource disk file fun source =>
    let parsed := if o.isExpression then Grammar.parseExpression source else Grammar.parseUnit source
    let comments := if o.comments then parsed.comments else []
    if !o.isAst then
      inFormat o.format (parsed.tree.json file comments) (parsed.tree.outlineWithComments comments)
    else if !parsed.errors.isEmpty then
      let ds := parsed.errors.map Diagnostic.ofSyntaxError
      (Outcome.failed (Diagnostic.failure file ds)).after (excerpts file source ds)
    else
      match typedTree o.isExpression parsed.tree with
      | .ok t => inFormat o.format (Node.json t) (Node.outline t)
      | .error e => .failed ("build ast: " ++ e.message file)

/-! ## Names -/

def supertypes (h : ClassFile.Header) : Text :=
  let base : List Text := if h.super.isEmpty then [] else ["extends " ++ h.super]
  let interfaces : List Text := if h.interfaces.isEmpty then [] else ["implements " ++ Text.join ", " h.interfaces]
  Text.join " " (base ++ interfaces)

def rowsOf (disk : Disk) (describes : Bool) (l : SearchPath.Location) : Except Text (List (List Text)) :=
  let own := [l.name, l.form.text, l.text]
  if describes && l.form = .classFile then
    match SearchPath.describe disk l with
    | .ok h => .ok [own, [[], h.keyword, supertypes h]]
    | .error f => .error f.message
  else .ok [own]

/-- What is printed about names one after the other: rows, a text on the error output, the number of names that were not
found, and why the rest was not looked at. -/
structure Lookup where
  rows : List (List Text)
  err : Text
  missing : Nat
  failure : Option Text

/-- Looks up a name. After a failure nothing is looked up. -/
def Lookup.next (disk : Disk) (s : SearchPath) (isPackage describes : Bool) (r : Lookup) (name : Text) : Lookup :=
  if r.failure.isSome then r
  else
    let found := if isPackage then s.package name else (s.find? name).toList
    if found.isEmpty then { r with err := r.err ++ name ++ ": not found\n", missing := r.missing + 1 }
    else
      match found.mapM (rowsOf disk describes) with
      | .ok rows => { r with rows := r.rows ++ rows.flatten }
      | .error m => { r with failure := some m }

def resolve (config : Text) (searchPath : List Text) (isPackage describes : Bool) (names : List Text) (disk : Disk) :
    Outcome :=
  let found : Except Text SearchPath := do
    let entries ← if searchPath.isEmpty then Project.searchEntries <$> loadProject disk config else pure searchPath
    (SearchPath.ofEntries disk entries).mapError fun f => "search path: " ++ f.message
  match found with
  | .error m => .failed m
  | .ok s =>
    let r := names.foldl (Lookup.next disk s isPackage describes) ⟨[], [], 0, none⟩
    let end_ := match r.failure with
      | some m => Outcome.failed m
      | none =>
        let counted : Text := Text.ofNat r.missing ++ " of " ++ Text.ofNat names.length ++ " names not found"
        (if r.missing = 0 then Outcome.printed [] else Outcome.failed counted).afterOut (Text.table r.rows)
    end_.after r.err

/-! ## Requests -/

/-- Does what a request asks for. Watching looks at the files once; a server without an editor ends at once. -/
def Request.run (r : Request) (disk : Disk) : Outcome × Disk :=
  match r with
  | version => (.printed (program ++ " version " ++ CommandLine.version ++ "\n"), disk)
  | help c => (.printed (helpText c), disk)
  | unknownTopic words => ((Outcome.printed []).after (CommandLine.unknownTopic words), disk)
  | script shell => (.failed ("no autocompletion script for " ++ shell.name), disk)
  | compile o paths => CommandLine.compile o paths disk
  | watch o _ paths => CommandLine.compile o paths disk
  | check o paths => (CommandLine.check o paths disk, disk)
  | parse o file => (CommandLine.parse o file disk, disk)
  | emit warningsAsErrors file => (CommandLine.emit warningsAsErrors file disk, disk)
  | resolve config searchPath isPackage describes names =>
    (CommandLine.resolve config searchPath isPackage describes names disk, disk)
  | serve => (.printed [], disk)

def run (arguments : List Text) (disk : Disk) : Outcome × Disk :=
  match Request.ofArguments arguments with
  | .ok r => r.run disk
  | .error e =>
    let hint : Text := match e with
      | .unknownCommand _ => "Run '" ++ Command.path none ++ " --help' for usage.\n"
      | _ => []
    let o := Outcome.failed e.message
    ({ o with err := o.err ++ hint }, disk)

end KiteCompiler.CommandLine
