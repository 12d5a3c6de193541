import KiteCompiler.Java.Lowering
import KiteCompiler.Proofs.Reading.Standing

/-!
# What is declared

The declarations in a syntax tree and in a Java tree, in the order in which they stand there, each with its site, its
name and its modifier keywords. Declarations inside of annotations are marked: annotations of a type can move when
dimensions go from a name to the type, and are repeated when variables of one declaration need several, so for them
there is no order.
-/

namespace KiteCompiler

/-- Where something is declared. -/
inductive Site where
  | localVariable
  | field
  /-- Parameters with a type, and the variables of loops over a collection. -/
  | parameter
  | bareParameter
  | catchParameter
  | resource
  | method
  | constructor
  | type
  deriving DecidableEq, Repr

/-- The variables with this role. -/
def VariableRole.site : VariableRole → Site
  | .localVariable => .localVariable
  | .field | .constant => .field

/-- The modifiers in Java of what is declared with these modifiers. -/
def Site.inJava (keywords : List Text) : Site → List Text
  | localVariable | parameter | catchParameter | resource =>
    keywords.filter (· ≠ ("mutable" : Text)) ++
      if keywords.contains "final" || keywords.contains "mutable" then [] else [("final" : Text)]
  | bareParameter => []
  | field | method | constructor | type => keywords.filter (· ≠ ("mutable" : Text))

/-- Something that is declared. -/
structure Declaration where
  site : Site
  name : Text
  keywords : List Text
  /-- Does it stand in an annotation? -/
  annotated : Bool
  deriving DecidableEq, Repr

namespace Declaration

/-- What becomes of a declaration in Java. -/
def inJava (d : Declaration) : Declaration := { d with keywords := d.site.inJava d.keywords }

/-- The same declaration in an annotation. -/
def enclosed (d : Declaration) : Declaration := { d with annotated := true }

end Declaration

/-! ## In syntax trees -/

namespace Cst

/-- What is declared by the names right below a node. -/
def Kind.site? : Kind → Option Site
  | .localVarDecl => some .localVariable
  | .fieldDecl | .constantDecl => some .field
  | .formalParameter => some .parameter
  | .formalParameters | .lambda | .lambdaParameters => some .bareParameter
  | .catchClause => some .catchParameter
  | .resource => some .resource
  | .methodDecl | .interfaceMethodDecl | .annotationMemberDecl => some .method
  | .constructorDecl => some .constructor
  | .classDecl | .interfaceDecl | .annotationTypeDecl => some .type
  | _ => none

/-- The keywords of the modifiers among some children. -/
def modifiersIn (ts : List Cst) : List Text := ((ts.find? fun t : Cst => t.kind = .modifiers).map keywords).getD []

/-- What the child of a node declares there. -/
def declared (site? : Option Site) (keywords : List Text) (t : Cst) : List Declaration :=
  (site?.bind fun site => t.name?.map fun n => ⟨site, n, keywords, false⟩).toList

mutual

/-- All declarations in a tree. -/
def declarations : Cst → List Declaration
  | .node l ts =>
    let ds := declarationsIn l.kind.site? (modifiersIn ts) ts
    if l.kind = .annotationUse then ds.map Declaration.enclosed else ds

/-- All declarations in the children of a node. -/
def declarationsIn (site? : Option Site) (keywords : List Text) : List Cst → List Declaration
  | [] => []
  | t :: ts => declared site? keywords t ++ declarations t ++ declarationsIn site? keywords ts

end

end Cst

/-! ## In Java -/

namespace Java

/-- A declaration, or the modifiers of one. -/
inductive Item where
  | declaration (d : Declaration)
  | modifiers (keywords : List Text)
  deriving DecidableEq, Repr

namespace Item

/-- The same item in an annotation. -/
def enclosed : Item → Item
  | declaration d => declaration d.enclosed
  | modifiers ms => modifiers ms

/-- Something that is declared outside of annotations. -/
def declared (site : Site) (name : Text) (keywords : List Text) : Item := declaration ⟨site, name, keywords, false⟩

def declaration? : Item → Option Declaration
  | declaration d => some d
  | modifiers _ => none

def modifiers? : Item → Option (List Text)
  | declaration _ => none
  | modifiers ms => some ms

end Item

/-- The modifiers of a header. -/
def keywords : Java .header → List Text
  | header _ ms => ms

/-- What a parameter with this type is. -/
def parameterSite : Java (.option .type) → Site
  | absent => .bareParameter
  | present _ => .parameter

/-- All declarations and modifiers. Variables get their site and their modifiers from the declaration around them. -/
def items (site : Site) (ms : List Text) : {c : Category} → Java c → List Item
  | _, nil | _, absent | _, void | _, literal _ | _, name _ | _, thisRef _ | _, superRef _ | _, emptyStmt
  | _, breakStmt _ | _, continueStmt _ => []
  | _, cons a b | _, type a b | _, typeParameter a _ b | _, index a b | _, methodRef a b _ | _, level a b
  | _, lambda a _ b | _, binary _ a b | _, assign _ a b | _, cast a b | _, instanceOf a b | _, whileStmt a b
  | _, doStmt a b | _, switchStmt a b | _, synchronizedStmt a b | _, assertStmt a b | _, switchGroup a b =>
    items site ms a ++ items site ms b
  | _, present a | _, primitive a _ | _, classRef a | _, intersection a | _, dim a | _, memberValue _ a
  | _, access a _ | _, typeExpr a | _, arrayElements a | _, ofArrayElements a | _, ofAnnotationUse a
  | _, blockBody a | _, exprBody a | _, classLiteral a | _, unary _ _ a | _, enclosed a | _, block a | _, ofBlock a
  | _, exprStmt a | _, labeledStmt _ a | _, returnStmt a | _, throwStmt a | _, namedResource a | _, switchLabel a
  | _, ofTypeDecl a | _, initializerDecl _ a => items site ms a
  | _, wildcard a b c | _, segment a b _ c _ | _, call a b _ c | _, arrayCreation a b c | _, conditional a b c
  | _, ifStmt a b c | _, forEachStmt a b c | _, constructorCall _ a b c =>
    items site ms a ++ items site ms b ++ items site ms c
  | _, annotationUse _ value pairs => (items site ms value ++ items site ms pairs).map Item.enclosed
  | _, header annotations ks => .modifiers ks :: items site ms annotations
  | _, objectCreation scope typeArguments t arguments body =>
    items site ms scope ++ items site ms typeArguments ++ items site ms t ++ items site ms arguments ++
    items site ms body
  | _, ofVariables declaration => items .localVariable ms declaration
  | _, forStmt declaration start condition step body =>
    items .localVariable ms declaration ++ items site ms start ++ items site ms condition ++ items site ms step ++
    items site ms body
  | _, tryStmt resources body handlers cleanup =>
    items site ms resources ++ items site ms body ++ items site ms handlers ++ items site ms cleanup
  | _, declaredResource h t n value =>
    items site ms h ++ items site ms t ++ .declared .resource n h.keywords :: items site ms value
  | _, catchClause h types n body =>
    items site ms h ++ items site ms types ++ .declared .catchParameter n h.keywords :: items site ms body
  | _, declarator n value => .declared site n ms :: items site ms value
  | _, variableDecl h t declarators =>
    items site h.keywords h ++ items site h.keywords t ++ items site h.keywords declarators
  | _, parameter h t _ varargAnnotations n =>
    items site ms h ++ items site ms t ++ items site ms varargAnnotations ++ [.declared (parameterSite t) n h.keywords]
  | _, classDecl h n typeParameters base interfaces members =>
    items site ms h ++ .declared .type n h.keywords ::
      (items site ms typeParameters ++ items site ms base ++ items site ms interfaces ++ items site ms members)
  | _, interfaceDecl h n typeParameters bases members =>
    items site ms h ++ .declared .type n h.keywords ::
      (items site ms typeParameters ++ items site ms bases ++ items site ms members)
  | _, annotationTypeDecl h n members => items site ms h ++ .declared .type n h.keywords :: items site ms members
  | _, ofField declaration => items .field ms declaration
  | _, methodDecl h typeParameters result n parameters exceptions body =>
    items site ms h ++ items site ms typeParameters ++ items site ms result ++ .declared .method n h.keywords ::
      (items site ms parameters ++ items site ms exceptions ++ items site ms body)
  | _, constructorDecl h typeParameters n parameters exceptions body =>
    items site ms h ++ items site ms typeParameters ++ .declared .constructor n h.keywords ::
      (items site ms parameters ++ items site ms exceptions ++ items site ms body)
  | _, annotationMemberDecl h t n fallback =>
    items site ms h ++ items site ms t ++ .declared .method n h.keywords :: items site ms fallback

namespace Unit

/-- All declarations and modifiers of a file. -/
def items (u : Unit) : List Item :=
  (u.package.elim [] fun p => p.annotations.items .type []) ++ u.types.flatMap (Java.items .type [])

/-- What a file declares. -/
def declarations (u : Unit) : List Declaration := u.items.filterMap Item.declaration?

/-- All lists of modifiers of a file. -/
def modifierLists (u : Unit) : List (List Text) := u.items.filterMap Item.modifiers?

end Unit

end Java

end KiteCompiler
