import KiteCompiler.Diagnostic.Basic
import KiteCompiler.SearchPath

/-!
# Imports

Warnings about imports that name nothing on the search path, and about imports of classes that are not public. A name is
looked up once, whatever it was imported as.
-/

namespace KiteCompiler

/-- Names in the order of their first visits. -/
structure Visits where
  names : List Text
  deriving DecidableEq, Repr

namespace Visits

def none : Visits := ⟨[]⟩

def contains (v : Visits) (name : Text) : Bool := v.names.contains name

/-- Visits a name; only the first visit is kept. -/
def visit (v : Visits) (name : Text) : Visits := if v.contains name then v else ⟨v.names ++ [name]⟩

end Visits

namespace ImportDecl

/-- The type or package that is looked up. For a single static member, that is the type before its name. -/
def lookupName (i : ImportDecl) : Text :=
  if i.isStatic && !i.onDemand then (Text.beforeLast? (Text.byte '.') i.name.text).getD [] else i.name.text

def isPackage (i : ImportDecl) : Bool := i.onDemand && !i.isStatic

/-- What is wrong with an import. A class that cannot be read is not complained about. -/
def problem? (disk : Disk) (s : SearchPath) (i : ImportDecl) : Option Text :=
  let name := i.lookupName
  if i.isPackage then
    if (s.package name).isEmpty then some ("package " ++ name ++ " not found on the search path") else none
  else
    match s.find? name with
    | none => some ("type " ++ name ++ " not found on the search path")
    | some l =>
      match SearchPath.describe disk l with
      | .ok h => if h.isPublic then none else some ("type " ++ name ++ " is not public")
      | .error _ => none

def warning? (disk : Disk) (s : SearchPath) (i : ImportDecl) : Option Diagnostic :=
  (i.problem? disk s).map fun message => ⟨.warning, message, i.place⟩

def warningsAfter (disk : Disk) (s : SearchPath) : Visits → List ImportDecl → List Diagnostic
  | _, [] => []
  | v, i :: rest =>
    if v.contains i.lookupName then warningsAfter disk s v rest
    else (i.warning? disk s).toList ++ warningsAfter disk s (v.visit i.lookupName) rest

def warnings (disk : Disk) (s : SearchPath) (imports : List ImportDecl) : List Diagnostic :=
  warningsAfter disk s .none imports

end ImportDecl

end KiteCompiler
