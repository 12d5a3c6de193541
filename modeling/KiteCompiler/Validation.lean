import KiteCompiler.Ast.TypeText
import KiteCompiler.Diagnostic.Basic
import KiteCompiler.Path

/-!
# Validation

Rules that a source has to keep beyond its grammar. A rule looks at one node; it is applied to all nodes of a file, and
what it finds is put in the order of the source. Of elements that are the same, the first one counts as right.
-/

namespace KiteCompiler.Validation

inductive Rule where
  /-- The top-level type is named after its file, unless there is no file. -/
  | typeNameMatchesFile (file : Text)
  | topLevelModifiers
  | duplicateModifiers
  | duplicateTypeParameters
  | duplicateInterfaces
  | duplicateSuperInterfaces
  | duplicateExceptions
  | duplicateParameters
  | redundantInterfaceAbstract
  deriving DecidableEq, Repr

/-- Something in a list that must not be there twice. -/
structure Item where
  key : Text
  place : Place
  deriving DecidableEq, Repr

/-- The items whose key an earlier item of the list has; `seen` are keys before the list. -/
def repeated (seen : List Text) : List Item → List Item
  | [] => []
  | item :: rest =>
    if seen.contains item.key then item :: repeated seen rest else repeated (item.key :: seen) rest

/-- An error for every repeated item, with its key between two parts of the message. -/
def duplicates (before after : Text) (items : List Item) : List Diagnostic :=
  (repeated [] items).map fun item => ⟨.error, before ++ item.key ++ after, item.place⟩

/-! ## What declarations hold -/

def modifiers : Node → List Modifier
  | .term (.classDecl _ h ..) | .term (.interfaceDecl _ h ..) | .term (.annotationTypeDecl _ h ..)
  | .term (.variableDecl _ h ..) | .term (.methodDecl _ _ h ..) | .term (.annotationMemberDecl _ h ..)
  | .term (.constructorDecl _ h ..) | .term (.parameter _ h ..) | .term (.resource _ h ..)
  | .term (.catchParameter _ h ..) => h.keywords
  | _ => []

def typeParameters : Node → List (Ast .typeParameter)
  | .term (.classDecl _ _ ps ..) | .term (.interfaceDecl _ _ ps ..) | .term (.methodDecl _ _ _ ps ..)
  | .term (.constructorDecl _ _ ps ..) => ps.toList
  | _ => []

def exceptions : Node → List (Ast .exception)
  | .term (.methodDecl _ _ _ _ _ _ _ _ es _) | .term (.constructorDecl _ _ _ _ _ es _ _) => es.toList
  | _ => []

def parameters : Node → List (Ast .parameter)
  | .term (.methodDecl _ _ _ _ _ _ ps ..) | .term (.constructorDecl _ _ _ _ ps ..) | .term (.lambda _ ps ..) =>
    ps.toList
  | _ => []

/-! ## Rules -/

def topLevelKeywords : List Text := ["public", "abstract", "final", "strictfp"]

def Rule.check : Rule → Node → List Diagnostic
  | typeNameMatchesFile file, .unit u =>
    let n := u.type.declared.name
    if file.isEmpty || n = Path.stem file then []
    else
      let message := "type " ++ n ++ " must be declared in a file named " ++ n ++ ".kite, not " ++ Path.base file
      [⟨.error, message, u.type.declared.namePlace⟩]
  | topLevelModifiers, .unit u =>
    (u.type.declared.modifiers.filter fun m => !topLevelKeywords.contains m.keyword).map fun m =>
      ⟨.error, "modifier " ++ m.keyword ++ " not allowed on a top-level type", m.place⟩
  | duplicateModifiers, n => duplicates "duplicate modifier " [] ((modifiers n).map fun m => ⟨m.keyword, m.place⟩)
  | duplicateTypeParameters, n =>
    duplicates "duplicate type parameter " []
      ((typeParameters n).map fun | .typeParameter place _ n _ => ⟨n, place⟩)
  | duplicateInterfaces, .term (.classDecl _ _ _ _ _ _ types _) =>
    duplicates "duplicate interface " " in of clause" (types.toList.map fun t => ⟨t.typeText, t.place⟩)
  | duplicateSuperInterfaces, .term (.interfaceDecl _ _ _ _ _ types _) =>
    duplicates "duplicate interface " " in extends clause" (types.toList.map fun t => ⟨t.typeText, t.place⟩)
  | duplicateExceptions, n =>
    duplicates "duplicate exception type " " in throws clause" ((exceptions n).map fun t => ⟨t.typeText, t.place⟩)
  | duplicateParameters, n =>
    duplicates "duplicate parameter " [] ((parameters n).map fun | .parameter place _ _ n _ _ _ => ⟨n, place⟩)
  | redundantInterfaceAbstract, .term (.interfaceDecl _ h _ n ..) =>
    (h.keywords.filter fun m => m.keyword = Text.ofString "abstract").map fun m =>
      ⟨.warning, "redundant modifier abstract on interface " ++ n, m.place⟩
  | _, _ => []

def rules (file : Text) : List Rule := [
  .typeNameMatchesFile file, .topLevelModifiers, .duplicateModifiers, .duplicateTypeParameters, .duplicateInterfaces,
  .duplicateSuperInterfaces, .duplicateExceptions, .duplicateParameters, .redundantInterfaceAbstract]

def notAfter (a b : Diagnostic) : Bool := !b.place.before a.place

/-- What some rules find in a tree, in the order of the source. -/
def apply (rules : List Rule) (t : Tree Node) : List Diagnostic :=
  (t.preorder.flatMap fun n => rules.flatMap (·.check n)).mergeSort notAfter

def validate (file : Text) (u : CompilationUnit) : List Diagnostic := apply (rules file) u.tree

end KiteCompiler.Validation
