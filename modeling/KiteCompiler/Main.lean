import KiteCompiler.CommandLine.Run

/-!
# The program

Takes the files that a command line is about from the file system, runs the command on them (`CommandLine.run`) and puts
the files that it has written back.
-/

namespace KiteCompiler.Program

/-- How deep folders are entered. -/
def deepest : Nat := 64

/-- Does the content of a file matter if the command line does not name it? -/
def isInput (name : String) : Bool :=
  (["kite", "class", "jar", "zip", "yaml"].map Text.ofString).contains (Text.toLower ((Path.extension name).drop 1))

/-- Takes a file or folder from the file system; of files that are not inputs only the names, unless all are wanted. -/
def take (all : Bool) : (depth : Nat) → (name path : String) → IO Disk.Item
  | 0, name, _ => return .ofFolder name []
  | depth + 1, name, path => do
    let real ← IO.FS.realPath path
    let modified := (← real.metadata).modified
    let time := modified.sec * 1000000000 + modified.nsec.toNat
    if ← real.isDir then
      let entries := (← real.readDir).toList.map (·.fileName)
      let items ← entries.filterMapM fun e => (some <$> take all depth e (path ++ "/" ++ e)) <|> pure none
      return .ofFolder name (items.foldl (fun is i => Disk.Item.insert i is) []) time
    else
      let data ← if all || isInput name then IO.FS.readBinFile path else pure .empty
      return .ofFile name data.toList time

def stringOf (t : Text) : String := (Text.toString? t).getD ""

def mount (all : Bool) (disk : Disk) (path : Text) : IO Disk := do
  let path := disk.absolute path
  let item ← (some <$> take all deepest (stringOf (Path.base path)) (stringOf path)) <|> pure none
  match item, disk.makeFolders (Path.dir path) with
  | some i, .ok d => return (d.alter (Path.dir path) (Disk.Item.insert i)).toOption.getD disk
  | _, _ => return disk

/-- The time of files that a command writes: later than that of every other file. -/
def writingTime : Int := Int.pow 2 62

/-- The disk that a command line is about: the working directory, the files with settings above it, the paths on the
command line and those in the settings. -/
def diskFor (arguments : List Text) : IO Disk := do
  let here := Path.elements (Text.ofString (← IO.currentDir).toString)
  let start := { Disk.empty here with clock := writingTime }
  let home := start.directoryPath
  let settings := (Project.upward home).map fun d => Path.join [d, Project.fileName]
  let disk ← settings.foldlM (mount true) start
  let disk ← mount false disk home
  let paths := (arguments.flatMap (Text.split (Text.byte '='))).flatMap (Text.split (Text.byte ','))
  let disk ← (paths.filter (!·.isEmpty)).foldlM (mount true) disk
  match Project.find disk home with
  | .error _ => return disk
  | .ok p => (p.directory :: p.outputDirectory :: p.searchEntries).foldlM (fun d path =>
      if d.exists? path then pure d else mount false d path) disk

def giveBack (disk : Disk) : IO Unit := do
  let visit (label : Text × Disk.Entry) (inner : List (List (Text × Text))) : List (Text × Text) :=
    match label with
    | (name, .file data time) => if writingTime ≤ time then [(name, data)] else []
    | (name, .folder _) => inner.flatten.map fun (path, data) => (Path.join [name, path], data)
  for (path, data) in Tree.fold visit disk.root do
    let target : Text := "/" ++ path
    IO.FS.createDirAll (stringOf (Path.dir target))
    IO.FS.writeBinFile (stringOf target) ⟨data.toArray⟩

def print (o : CommandLine.Outcome) : IO Unit := do
  (← IO.getStdout).write ⟨o.out.toArray⟩
  (← IO.getStderr).write ⟨o.err.toArray⟩

/-- Compiles changed files again and again. As long as they cannot be listed, that is only reported. -/
partial def watch (arguments : List Text) (interval : Int) (paths : List Text) (p : Project)
    (options : Compilation.Options) (w : Compilation.Watcher) : IO UInt32 := do
  let disk ← diskFor arguments
  let files := CommandLine.collect disk p paths
  if let .error m := files then
    print ⟨[], "listing sources: " ++ m ++ "\n", 0⟩
  let (_, batch, w, disk) := Compilation.Watcher.scan options files.toOption w disk
  giveBack disk
  print ⟨[], batch.elim [] fun b => CommandLine.reportOf b.results.reduceOption, 0⟩
  let pause := if 0 < interval then interval else CommandLine.defaultInterval
  IO.sleep (pause.toNat / 1000000).toUInt32
  watch arguments interval paths p options w

end KiteCompiler.Program

open KiteCompiler in
def main (args : List String) : IO UInt32 := do
  let arguments := args.map Text.ofString
  match CommandLine.Request.ofArguments arguments with
  | .ok (.watch o interval paths) =>
    match CommandLine.settings (← Program.diskFor arguments) o true with
    | .error m =>
      Program.print (.failed m)
      return 1
    | .ok (p, options) => Program.watch arguments interval paths p options .new
  | _ =>
    let (o, disk) := CommandLine.run arguments (← Program.diskFor arguments)
    Program.giveBack disk
    Program.print o
    return o.code.toUInt32
