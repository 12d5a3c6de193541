import KiteCompiler.Proofs.Placement.Relocation
import KiteCompiler.Proofs.Related
import Mathlib.Tactic.CasesM
import Mathlib.Tactic.MkIffOfInductiveProp

/-!
# Complete syntax

The types of abstract syntax leave open that a declaration declares no variable, or that a cast is to no type. Syntax is
`Complete` where no such part is missing. Pieces of syntax correspond (`Ast.Moved`) if they are complete and the second
one is the first one moved; all constructors keep to this.
-/

namespace KiteCompiler

namespace Ast

/-- Nothing is missing: casts have types, arrays that are created have levels, groups of a `switch` have labels,
declarations have variables, and names have parts. -/
def Complete : {c : Category} → Ast c → Prop
  | _, nil | _, absent | _, void _ | _, literal .. | _, name .. | _, thisRef _ none | _, superRef _ none
  | _, emptyStmt _ | _, breakStmt .. | _, continueStmt .. => True
  | _, marker _ q | _, thisRef _ (some q) | _, superRef _ (some q) => q.parts ≠ []
  | _, single _ q a | _, normal _ q a => q.parts ≠ [] ∧ a.Complete
  | _, present a | _, primitive _ a _ | _, classRef a | _, exception _ a | _, dim _ a | _, memberValue _ _ a
  | _, header a _ | _, ofReference a | _, typeExpr _ a | _, arrayElements _ a | _, ofArrayElements a
  | _, ofAnnotationUse a | _, blockBody a | _, exprBody a | _, typeLiteral _ a | _, unary _ _ _ a | _, enclosed _ a
  | _, block _ a | _, ofBlock a | _, ofVariables a | _, exprStmt _ a | _, labeledStmt _ _ a | _, returnStmt _ a
  | _, throwStmt _ a | _, switchLabel _ a | _, ofTypeDecl a | _, ofField a | _, ofConstant a
  | _, initializerDecl _ _ a => a.Complete
  | _, cons a b | _, array _ a b | _, typeParameter _ a _ b | _, access _ a b _ | _, call _ a b | _, index _ a b
  | _, methodRef _ a b _ | _, level _ a b | _, lambda _ a _ b | _, binary _ _ a b | _, assign _ _ a b
  | _, instanceOf _ a b | _, whileStmt _ a b | _, doStmt _ a b | _, switchStmt _ a b | _, synchronizedStmt _ a b
  | _, assertStmt _ a b | _, catchClause _ a b | _, catchParameter _ a b _ | _, declarator _ _ a b
  | _, annotationTypeDecl _ a _ _ b => a.Complete ∧ b.Complete
  | _, cast _ a b | _, switchGroup _ a b => a ≠ nil ∧ a.Complete ∧ b.Complete
  | _, wildcard _ a b d | _, segment _ a b _ d _ | _, conditional _ a b d | _, ifStmt _ a b d | _, forEachStmt _ a b d
  | _, resource _ a b _ d | _, constructorCall _ _ a b d => a.Complete ∧ b.Complete ∧ d.Complete
  | _, arrayCreation _ a b d => b ≠ nil ∧ a.Complete ∧ b.Complete ∧ d.Complete
  | _, variableDecl _ a b d => d ≠ nil ∧ a.Complete ∧ b.Complete ∧ d.Complete
  | _, tryStmt _ a b d e | _, parameter _ a b _ d _ e | _, interfaceDecl _ a b _ _ d e
  | _, annotationMemberDecl _ a b _ d e => a.Complete ∧ b.Complete ∧ d.Complete ∧ e.Complete
  | _, objectCreation _ a b d e f | _, forStmt _ a b d e f | _, classDecl _ a b _ _ d e f =>
    a.Complete ∧ b.Complete ∧ d.Complete ∧ e.Complete ∧ f.Complete
  | _, constructorDecl _ a b _ d e f h =>
    a.Complete ∧ b.Complete ∧ d.Complete ∧ e.Complete ∧ f.Complete ∧ h.Complete
  | _, methodDecl _ _ a b d _ e f h i =>
    a.Complete ∧ b.Complete ∧ d.Complete ∧ e.Complete ∧ f.Complete ∧ h.Complete ∧ i.Complete

end Ast

/-- Nothing is missing in the package of a file. -/
def PackageDecl.Complete (p : PackageDecl) : Prop := p.annotations.Complete ∧ ∀ q ∈ p.name, q.parts ≠ []

/-- Nothing is missing in a file. -/
def CompilationUnit.Complete (u : CompilationUnit) : Prop :=
  u.package.Complete ∧ (∀ i ∈ u.imports, i.name.parts ≠ []) ∧ u.type.Complete

/-! ## Moved syntax -/

/-- The package of a complete file, and the same package moved. -/
structure PackageDecl.Moved (g : Place → Place) (p p' : PackageDecl) : Prop where
  eq : p' = p.relocate g
  complete : p.Complete

/-- A complete file, and the same file moved. -/
structure CompilationUnit.Moved (g : Place → Place) (u u' : CompilationUnit) : Prop where
  eq : u' = u.relocate g
  complete : u.Complete

namespace Ast

variable {g : Place → Place} {c : Category}

/-- Complete syntax, and the same syntax moved. -/
@[mk_iff] structure Moved (g : Place → Place) (a a' : Ast c) : Prop where
  eq : a' = a.relocate g
  complete : a.Complete

instance : Relates g Place := ⟨fun p p' => p' = g p⟩

instance : Relates g QualifiedName := ⟨fun q q' => q' = q.relocate g ∧ q.parts ≠ []⟩

instance : Relates g (Ast c) := ⟨Moved g⟩

theorem cons_ne_nil {a : Ast c} {as : Ast (.list c)} : cons a as ≠ nil := nofun

instance : Plain Literal := ⟨⟩

/-- The constructors take corresponding parts to corresponding syntax. Lists that may not be empty are given by their
first element and the others. -/
class Constructors (g : Place → Place) : Prop where
  nil {c : Category} : Respects g (nil : Ast (.list c))
  cons {c : Category} : Respects g (@cons c)
  absent {c : Category} : Respects g (absent : Ast (.option c))
  present {c : Category} : Respects g (@present c)
  primitive : Respects g primitive
  classRef : Respects g classRef
  array : Respects g array
  wildcard : Respects g wildcard
  void : Respects g void
  segment : Respects g segment
  typeParameter : Respects g typeParameter
  exception : Respects g exception
  dim : Respects g dim
  marker : Respects g marker
  single : Respects g single
  normal : Respects g normal
  memberValue : Respects g memberValue
  literal : Respects g literal
  name : Respects g name
  access : Respects g access
  ofReference : Respects g ofReference
  call : Respects g call
  index : Respects g index
  methodRef : Respects g methodRef
  typeExpr : Respects g typeExpr
  objectCreation : Respects g objectCreation
  level : Respects g level
  arrayElements : Respects g arrayElements
  ofArrayElements : Respects g ofArrayElements
  ofAnnotationUse : Respects g ofAnnotationUse
  lambda : Respects g lambda
  blockBody : Respects g blockBody
  exprBody : Respects g exprBody
  typeLiteral : Respects g typeLiteral
  binary : Respects g binary
  unary : Respects g unary
  assign : Respects g assign
  conditional : Respects g conditional
  instanceOf : Respects g instanceOf
  enclosed : Respects g enclosed
  block : Respects g block
  ofBlock : Respects g ofBlock
  ofVariables : Respects g ofVariables
  emptyStmt : Respects g emptyStmt
  exprStmt : Respects g exprStmt
  ifStmt : Respects g ifStmt
  whileStmt : Respects g whileStmt
  doStmt : Respects g doStmt
  forStmt : Respects g forStmt
  forEachStmt : Respects g forEachStmt
  tryStmt : Respects g tryStmt
  switchStmt : Respects g switchStmt
  synchronizedStmt : Respects g synchronizedStmt
  labeledStmt : Respects g labeledStmt
  breakStmt : Respects g breakStmt
  continueStmt : Respects g continueStmt
  returnStmt : Respects g returnStmt
  throwStmt : Respects g throwStmt
  assertStmt : Respects g assertStmt
  resource : Respects g resource
  catchClause : Respects g catchClause
  catchParameter : Respects g catchParameter
  switchLabel : Respects g switchLabel
  declarator : Respects g declarator
  parameter : Respects g parameter
  classDecl : Respects g classDecl
  interfaceDecl : Respects g interfaceDecl
  annotationTypeDecl : Respects g annotationTypeDecl
  ofTypeDecl : Respects g ofTypeDecl
  ofField : Respects g ofField
  ofConstant : Respects g ofConstant
  methodDecl : Respects g methodDecl
  annotationMemberDecl : Respects g annotationMemberDecl
  constructorDecl : Respects g constructorDecl
  constructorCall : Respects g constructorCall
  initializerDecl : Respects g initializerDecl
  arrayCreation : Respects g fun p e l ls es => arrayCreation p e (Ast.cons l ls) es
  cast : Respects g fun p t ts e => cast p (Ast.cons t ts) e
  switchGroup : Respects g fun p l ls ss => switchGroup p (Ast.cons l ls) ss
  variableDecl {role : VariableRole} : Respects g fun p h t d ds => @variableDecl role p h t (Ast.cons d ds)

instance : Constructors g := by
  constructor <;> refine ⟨?_⟩ <;> simp only [Relates.rel, moved_iff] <;> intros <;> (try casesm* _ ∧ _) <;>
    subst_vars <;> refine ⟨rfl, ?_⟩ <;> repeat' first | exact trivial | assumption | exact cons_ne_nil | refine ⟨?_, ?_⟩

namespace Constructors

attribute [instance] nil cons absent present primitive classRef array wildcard void segment typeParameter exception dim
  marker single normal memberValue literal name access ofReference call index methodRef typeExpr objectCreation level
  arrayElements ofArrayElements ofAnnotationUse lambda blockBody exprBody typeLiteral binary unary assign conditional
  instanceOf enclosed block ofBlock ofVariables emptyStmt exprStmt ifStmt whileStmt doStmt forStmt forEachStmt tryStmt
  switchStmt synchronizedStmt labeledStmt breakStmt continueStmt returnStmt throwStmt assertStmt resource catchClause
  catchParameter switchLabel declarator parameter classDecl interfaceDecl annotationTypeDecl ofTypeDecl ofField
  ofConstant methodDecl annotationMemberDecl constructorDecl constructorCall initializerDecl

end Constructors

end Ast

end KiteCompiler
