import KiteCompiler.Compilation.Batch

/-!
# Watching

Files are compiled again when they have changed. A watcher remembers the time of the last change of every file that it
has seen; a file counts as changed if it is new or its time is later than the one remembered.
-/

namespace KiteCompiler.Compilation

structure Watcher where
  times : List (Text × Int)
  deriving DecidableEq, Repr

namespace Watcher

def new : Watcher := ⟨[]⟩

def time? (w : Watcher) (file : Text) : Option Int := w.times.lookup file

def isChange (w : Watcher) (file : Text) (time : Int) : Bool :=
  match w.time? file with
  | none => true
  | some last => last < time

def remember (w : Watcher) (file : Text) (time : Int) : Watcher :=
  ⟨(file, time) :: w.times.filter (·.1 ≠ file)⟩

/-- Looks at files one after the other and finds those that have changed. Files that are gone are passed over. -/
def look (disk : Disk) : List Text → Watcher → List Text × Watcher
  | [], w => ([], w)
  | file :: files, w =>
    match disk.modified? file with
    | none => look disk files w
    | some time =>
      if w.isChange file time then
        let (changed, w) := look disk files (w.remember file time)
        (file :: changed, w)
      else look disk files w

def forget (disk : Disk) (files : List Text) (w : Watcher) : Watcher :=
  ⟨w.times.filter fun (file, _) => files.contains file && (disk.modified? file).isSome⟩

/-- Finds the files that have changed; if they cannot be listed, there are none and nothing is forgotten. -/
def changes (disk : Disk) (files : Option (List Text)) (w : Watcher) : List Text × Watcher :=
  match files with
  | none => ([], w)
  | some files =>
    let (changed, w) := w.look disk files
    (changed, w.forget disk files)

/-- Compiles the files that have changed. Without changes there is no batch. -/
def scan (options : Options) (files : Option (List Text)) (w : Watcher) (disk : Disk) :
    List Text × Option Batch × Watcher × Disk :=
  let (changed, w) := w.changes disk files
  if changed.isEmpty then ([], none, w, disk)
  else
    let (batch, disk) := Batch.run options false changed disk
    (changed, some batch, w, disk)

end Watcher

end KiteCompiler.Compilation
