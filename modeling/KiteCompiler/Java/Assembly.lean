import KiteCompiler.Java.Printer

/-!
# Assembling Java files

A Java file built up step by step. Types are opened and closed; what is added goes into the innermost open type, which
is always the last member of the one around it, or into the file if no type is open.
-/

namespace KiteCompiler.Java

/-- What kind of type is open, with the clauses that only this kind has. -/
inductive Assembly.Shape where
  | classType (base : Option (Java .classType)) (interfaces : List (Java .classType))
  | interfaceType (bases : List (Java .classType))
  | annotationType

/-- A type that is still open. -/
structure Assembly.OpenType where
  header : Java .header
  name : Text
  shape : Shape
  typeParameters : List (Java .typeParameter)
  members : List (Java .member)

/-- An unfinished file; the innermost open type comes first. -/
structure Assembly where
  package : Option Package
  imports : List Import
  types : List (Java .typeDecl)
  opened : List Assembly.OpenType

namespace Assembly

def OpenType.declaration (t : OpenType) : Java .typeDecl :=
  match t.shape with
  | .classType base interfaces =>
    .classDecl t.header t.name (.ofList t.typeParameters) (.ofOption base) (.ofList interfaces) (.ofList t.members)
  | .interfaceType bases =>
    .interfaceDecl t.header t.name (.ofList t.typeParameters) (.ofList bases) (.ofList t.members)
  | .annotationType => .annotationTypeDecl t.header t.name (.ofList t.members)

def OpenType.add (t : OpenType) (m : Java .member) : OpenType := { t with members := t.members ++ [m] }

def empty : Assembly := ⟨none, [], [], []⟩

/-- Sets the package; the empty name removes it. -/
def setPackage (a : Assembly) (name : Text) (annotations : List (Java .annotationUse)) : Assembly :=
  { a with package := if name.isEmpty then none else some ⟨.ofList annotations, name⟩ }

def addImport (a : Assembly) (i : Import) : Assembly := { a with imports := a.imports ++ [i] }

def openType (a : Assembly) (header : Java .header) (name : Text) (shape : Shape) : Assembly :=
  { a with opened := ⟨header, name, shape, [], []⟩ :: a.opened }

def close? (a : Assembly) : Option Assembly :=
  match a.opened with
  | [] => none
  | [t] => some { a with types := a.types ++ [t.declaration], opened := [] }
  | t :: outer :: rest => some { a with opened := outer.add (.ofTypeDecl t.declaration) :: rest }

def change? (a : Assembly) (f : OpenType → OpenType) : Option Assembly :=
  match a.opened with
  | [] => none
  | t :: rest => some { a with opened := f t :: rest }

def addMember? (a : Assembly) (m : Java .member) : Option Assembly := a.change? (·.add m)

/-- Sets the superclass; only classes have one. -/
def setBase? (a : Assembly) (type : Java .classType) : Option Assembly :=
  a.change? fun t =>
    match t.shape with
    | .classType _ interfaces => { t with shape := .classType (some type) interfaces }
    | _ => t

/-- Adds an interface; annotation types have none. -/
def addInterface? (a : Assembly) (type : Java .classType) : Option Assembly :=
  a.change? fun t =>
    match t.shape with
    | .classType base interfaces => { t with shape := .classType base (interfaces ++ [type]) }
    | .interfaceType bases => { t with shape := .interfaceType (bases ++ [type]) }
    | .annotationType => t

/-- Adds a type parameter; annotation types have none. -/
def addTypeParameter? (a : Assembly) (p : Java .typeParameter) : Option Assembly :=
  a.change? fun t =>
    match t.shape with
    | .annotationType => t
    | _ => { t with typeParameters := t.typeParameters ++ [p] }

def unit (a : Assembly) : Unit :=
  let last := a.opened.foldl (fun inner t =>
    some (match inner with
      | none => t.declaration
      | some d => (t.add (.ofTypeDecl d)).declaration)) none
  ⟨a.package, a.imports, a.types ++ last.toList⟩

end Assembly

/-- A class type from the names of its segments; only the last one has more than a name. -/
def classTypeOfParts (annotations : List (Java .annotationUse)) (arguments : List (Java .type)) (diamond : Bool) :
    List Text → Option (Java .classType) → Option (Java .classType)
  | [], scope => scope
  | [n], scope => some (.segment (.ofOption scope) (.ofList annotations) n (.ofList arguments) diamond)
  | n :: rest, scope =>
    classTypeOfParts annotations arguments diamond rest (some (.segment (.ofOption scope) .nil n .nil false))

def typeText (t : Java .type) : Text := t.print.line

end KiteCompiler.Java
