import KiteCompiler.Compilation.Basic

/-!
# Batches

Many files compiled one after the other. Every file has its own result; the batch as a whole fails if one of them does.
-/

namespace KiteCompiler.Compilation

inductive Batch.Failure where
  | cancelled
  | files (failed total : Nat)
  deriving DecidableEq, Repr

namespace Batch.Failure

def message : Failure → Text
  | cancelled => "compile: context canceled"
  | files failed total =>
    "compilation failed: " ++ Text.ofNat failed ++ " of " ++ Text.ofNat total ++ " files"

def isOfFiles : Failure → Bool
  | cancelled => false
  | files .. => true

end Batch.Failure

/-- The results of a batch in the order of its files; a file that was not started has none. -/
structure Batch where
  results : List (Option Result)
  failure : Option Batch.Failure

def compileFiles (options : Options) : List Text → Disk → List Result × Disk
  | [], disk => ([], disk)
  | file :: files, disk =>
    let (r, disk) := compileFile options file disk
    let (rs, disk) := compileFiles options files disk
    (r :: rs, disk)

def Batch.ofResults (rs : List Result) : Batch :=
  let failed := rs.countP (·.failed)
  ⟨rs.map some, if failed = 0 then none else some (.files failed rs.length)⟩

/-- Compiles a batch. If it was cancelled before, then no file is started. -/
def Batch.run (options : Options) (cancelled : Bool) (files : List Text) (disk : Disk) : Batch × Disk :=
  if cancelled then (⟨files.map fun _ => none, some .cancelled⟩, disk)
  else
    let (rs, disk) := compileFiles options files disk
    (.ofResults rs, disk)

end KiteCompiler.Compilation
