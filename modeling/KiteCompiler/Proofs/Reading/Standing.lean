import KiteCompiler.Proofs.Formation

/-!
# What abstract syntax stands for

Abstract syntax is read off a row of concrete trees from left to right. `Stands us a` says that every part of `a` is
read off one of the trees `us` and that each of them is used: texts are those of tokens, keywords those of the
modifiers. Places are left open, and so is the kind of a node, unless something is declared there or its kind restricts
a token. If the relation is `direct`, type arguments of a member are read only where it is called at once.

The relation is all that has to be known of reading where a result speaks of the source and of what becomes of it.
-/

namespace KiteCompiler

namespace Cst

/-- The bytes of the token, none if there is none. -/
def Label.text (l : Label) : Text := (l.token.map (·.text)).getD []

/-- Nodes that matter for what is declared: something is declared there, they hold parameters, or they are
annotations. -/
abbrev Kind.matters : Kind → Bool
  | .classDecl | .interfaceDecl | .annotationTypeDecl | .fieldDecl | .constantDecl | .localVarDecl | .methodDecl
  | .interfaceMethodDecl | .annotationMemberDecl | .constructorDecl | .formalParameter | .formalParameters | .lambda
  | .lambdaParameters | .catchClause | .resource | .annotationUse => true
  | _ => false

/-- There is no fault at nodes of this kind. -/
abbrev Kind.isPlain : Kind → Bool
  | .error | .objectCreation | .newSuffix => false
  | _ => true

/-- Nodes of which nothing has to be known but what is read off their children. -/
abbrev Kind.encloses (k : Kind) : Bool :=
  match k.matters with
  | true => false
  | false => k.isPlain

theorem Kind.matters_of_encloses {k : Kind} (h : k.encloses = true) : k.matters = false := by
  unfold encloses at h
  split at h
  · exact nomatch h
  · assumption

theorem Kind.isPlain_of_encloses {k : Kind} (h : k.encloses = true) : k.isPlain = true := by
  unfold encloses at h
  split at h
  · exact nomatch h
  · exact h

/-- The name that a child of a node where something is declared declares there. -/
def name? (t : Cst) : Option Text :=
  match t.kind with
  | .identifier => some t.literal
  | .variableDeclarator => t.children.head?.map literal
  | _ => none

/-- No names are declared by these children. -/
def Nameless (ts : List Cst) : Prop := ∀ t ∈ ts, t.name? = none

theorem nameless_nil : Nameless [] := List.forall_mem_nil _

/-- Modifiers, types, parameters and bodies are no names. -/
theorem nameless_kind {t : Cst} {k : Kind} (ht : t.kind = k)
    (hk : (k != .identifier && k != .variableDeclarator) = true) : Nameless [t] := by
  refine List.forall_mem_singleton.2 ?_
  unfold name?
  split <;> simp_all

/-- The modifier keywords among the children, in source order. -/
def keywords (t : Cst) : List Text := (t.children.filter fun c : Cst => c.kind = .modifier).map literal

/-- The names are those of the trees. -/
def Names (ts : List Cst) (parts : List Text) : Prop :=
  ∃ ns : List Label, ts = ns.map (Tree.node · []) ∧ (∀ n ∈ ns, n.kind = .identifier) ∧ parts = ns.map Label.text

/-- A dotted name with these parts. -/
def Dotted (t : Cst) (parts : List Text) : Prop := t.kind = .qualifiedName ∧ Names t.children parts

end Cst

/-- The declarations with this role. -/
def VariableRole.kind : VariableRole → Cst.Kind
  | .field => .fieldDecl
  | .constant => .constantDecl
  | .localVariable => .localVarDecl

/-- How the keywords of a declaration with this role are completed. -/
def VariableRole.complete : VariableRole → List Modifier → List Modifier
  | .localVariable => Modifier.immutableByDefault
  | .field | .constant => id

namespace Category

/-- The category of parameters, or of lists or options of them. -/
def isOfParameters : Category → Bool
  | .parameter => true
  | .list c | .option c => isOfParameters c
  | _ => false

/-- The category of variables, or of lists or options of them. -/
def isOfDeclarators : Category → Bool
  | .declarator => true
  | .list c | .option c => isOfDeclarators c
  | _ => false

/-- Names are declared by the trees that syntax of the category is read off, not only below them. -/
def isNaming (c : Category) : Bool := c.isOfParameters || c.isOfDeclarators

end Category

namespace Ast

/-- The keywords of a header are those of the source, completed. -/
def Keyworded (complete : List Modifier → List Modifier) (m : Cst) (h : Ast .header) : Prop :=
  m.kind = .modifiers ∧ ∃ ms, h.keywords = complete ms ∧ ms.map (·.keyword) = m.keywords

/-- The type arguments before the name of what is called. -/
def typeArguments : Ast .reference → Ast (.list .type)
  | name .. => nil
  | access _ _ ts _ => ts

/-- The class type for the parts of a dotted name. -/
def ofNames (p : Place) (first : Text) (more : List Text) : Ast .classType :=
  more.foldl (fun t n => segment p (.present t) .nil n .nil false) (segment p .absent .nil first .nil false)

/-- A parameter without a type. -/
def bareParameter (p : Place) (n : Text) : Ast .parameter := parameter p (header .nil []) .absent n .nil false .nil

section

variable (direct : Prop)

/-- The syntax is read off the trees. -/
inductive Stands : {c : Category} → List Cst → Ast c → Prop
  | nil {c} : Stands [] (nil : Ast (.list c))
  | one {us a} : Stands us a → Stands us (cons a nil)
  | append {c us vs} {as bs : List (Ast c)} : Stands us (ofList as) → Stands vs (ofList bs) →
      Stands (us ++ vs) (ofList (as ++ bs))
  | absent {c} : Stands [] (absent : Ast (.option c))
  | present {us a} : Stands us a → Stands us (present a)
  /-- A node around what is read. -/
  | within {c us} {l : Cst.Label} {a : Ast c} (hl : l.kind.encloses = true) (hc : c.isNaming = false) :
      Stands us a → Stands [.node l us] a
  -- Types.
  | primitive {us as p} {n : Cst.Label} (hn : n.kind = .primitiveType) :
      Stands us as → Stands (us ++ [.node n []]) (primitive p as n.text)
  | classRef {us t} : Stands us t → Stands us (classRef t)
  | withDims {us t vs ds} : Stands us t → Stands vs (ofList ds) → Stands (us ++ vs) (withDims t ds)
  | wildcard {us as p} : Stands us as → Stands us (wildcard p as .absent .absent)
  | wildcardUpper {us as vs t p} {o : Cst.Label} (ho : o.kind = .operator) :
      Stands us as → Stands vs t → Stands (us ++ .node o [] :: vs) (wildcard p as (.present t) .absent)
  | wildcardLower {us as vs t p} {o : Cst.Label} (ho : o.kind = .operator) :
      Stands us as → Stands vs t → Stands (us ++ .node o [] :: vs) (wildcard p as .absent (.present t))
  | void {p} {n : Cst.Label} (hn : n.kind = .voidType) : Stands [.node n []] (void p)
  | segment {us scope vs as ws ts p d} {l n : Cst.Label} (hl : l.kind = .classTypeElement) (hn : n.kind = .identifier) :
      Stands us scope → Stands vs as → Stands ws ts →
      Stands (us ++ [.node l (vs ++ .node n [] :: ws)]) (segment p scope as n.text ts d)
  /-- Annotations before a class type go to its last segment. -/
  | annotated {us vs p scope n ts d q} {outer inner : List (Ast .annotationUse)} :
      Stands us (ofList outer) → Stands vs (segment p scope (ofList inner) n ts d) →
      Stands (us ++ vs) (segment q scope (ofList (outer ++ inner)) n ts d)
  /-- A dotted name as a class type. -/
  | named {first more us p} {e : Ast .expr} (he : e.nameParts = some (first :: more)) :
      Stands us e → Stands us (ofNames p first more)
  | typeParameter {us as vs bounds p} {n : Cst.Label} (hn : n.kind = .identifier) : Stands us as → Stands vs bounds →
      Stands (us ++ .node n [] :: vs) (typeParameter p as n.text bounds)
  | exception {us t p} : Stands us t → Stands us (exception p t)
  | dim {us as p} : Stands us as → Stands us (dim p as)
  -- Annotations and modifiers.
  | marker {t p q} {l : Cst.Label} (hl : l.kind = .annotationUse) (hq : Cst.Dotted t q.parts) :
      Stands [.node l [t]] (marker p q)
  | single {t us e p q} {l : Cst.Label} (hl : l.kind = .annotationUse) (hq : Cst.Dotted t q.parts) : Stands us e →
      Stands [.node l (t :: us)] (single p q e)
  | normal {t us pairs p q} {l : Cst.Label} (hl : l.kind = .annotationUse) (hq : Cst.Dotted t q.parts) :
      Stands us pairs →
      Stands [.node l (t :: us)] (normal p q pairs)
  | memberValue {us e p} {n : Cst.Label} (hn : n.kind = .identifier) :
      Stands us e → Stands (.node n [] :: us) (memberValue p n.text e)
  | header {complete as ms} {l : Cst.Label} {ts : List Cst}
      (hts : ∀ t ∈ ts, t.kind = .annotationUse ∨ t.kind = .modifier ∧ t.children = [])
      (hcomplete : complete = id ∨ complete = Modifier.immutableByDefault)
      (hms : Keyworded complete (.node l ts) (header as ms)) :
      Stands (ts.filter fun t => Cst.kind t = .annotationUse) as → Stands [.node l ts] (header as ms)
  -- Expressions.
  | literal {v p} {n : Cst.Label} (hn : n.kind = .literal) (hv : Reading.literal ⟨n, []⟩ = .ok v) :
      Stands [.node n []] (literal p v)
  | name {p} {n : Cst.Label} (hn : n.kind = .simpleName) : Stands [.node n []] (name p n.text)
  | access {us e vs ts p} {l n : Cst.Label} (hl : l.kind = .fieldSuffix) (hn : n.kind = .identifier) :
      Stands us e → Stands vs ts →
      Stands (us ++ [.node l (vs ++ [.node n []])]) (access p e ts n.text)
  | ofReference {r us} (hr : direct → typeArguments r = .nil) : Stands us r → Stands us (ofReference r)
  | call {us r vs es p} : Stands us r → Stands vs es → Stands (us ++ vs) (call p r es)
  | index {us a vs i p} : Stands us a → Stands vs i → Stands (us ++ vs) (index p a i)
  | methodRef {us e vs ts p} {l n : Cst.Label} (hl : l.kind = .methodRefSuffix)
      (hn : n.kind ∈ [Cst.Kind.identifier, .operator]) :
      Stands us e → Stands vs ts → Stands (us ++ [.node l (vs ++ [.node n []])]) (methodRef p e ts n.text)
  | arrayRef {us t vs ds ws ts p q} {l n : Cst.Label} (hl : l.kind = .methodRefSuffix)
      (hn : n.kind ∈ [Cst.Kind.identifier, .operator]) :
      Stands us t → Stands vs (ofList ds) → Stands ws ts →
      Stands (us ++ [.node l (vs ++ (ws ++ [.node n []]))]) (methodRef p (typeExpr q (withDims t ds)) ts n.text)
  | typeExpr {us t p} : Stands us t → Stands us (typeExpr p t)
  | objectCreation {vs ws xs ys us scope ts t es body p} {l : Cst.Label}
      (hl : l.kind ∈ [Cst.Kind.objectCreation, .newSuffix])
      (hcreated : ¬Cst.CreatesPrimitive (.node l (vs ++ (ws ++ (xs ++ ys))))) : Stands us scope → Stands vs ts →
      Stands ws (.classRef t) → Stands xs es → Stands ys body →
      Stands (us ++ [.node l (vs ++ (ws ++ (xs ++ ys)))]) (objectCreation p scope ts t es body)
  | arrayCreation {us t vs levels ws elements p} : Stands us t → Stands vs levels → Stands ws elements →
      Stands (us ++ (vs ++ ws)) (arrayCreation p t levels elements)
  | level {us as vs length p} : Stands us as → Stands vs length → Stands (us ++ vs) (level p as length)
  | arrayElements {us es p} : Stands us es → Stands us (arrayElements p es)
  | ofArrayElements {us x} : Stands us x → Stands us (ofArrayElements x)
  | ofAnnotationUse {us x} : Stands us x → Stands us (ofAnnotationUse x)
  | lambdaBare {us body p q} {l n : Cst.Label} (hl : l.kind = .lambda) (hn : n.kind = .identifier)
      (hus : Cst.Nameless us) : Stands us body →
      Stands [.node l (.node n [] :: us)] (lambda p (cons (bareParameter q n.text) nil) false body)
  | lambda {vs us ps body p} {l k : Cst.Label} (hl : l.kind = .lambda) (hk : k.kind = .lambdaParameters)
      (hvs : Cst.Nameless vs) : Stands us ps →
      Stands vs body → Stands [.node l (.node k us :: vs)] (lambda p ps true body)
  | blockBody {us b} : Stands us b → Stands us (blockBody b)
  | exprBody {us e} : Stands us e → Stands us (exprBody e)
  | thisRef {p} {n : Cst.Label} (hn : n.kind = .thisRef) : Stands [.node n []] (thisRef p none)
  | superRef {p} {n : Cst.Label} (hn : n.kind = .superRef) : Stands [.node n []] (superRef p none)
  | thisOf {parts vs us p q} {e : Ast .expr} {l n : Cst.Label} {ts : Ast (.list .type)} (hl : l.kind = .fieldSuffix)
      (hn : n.kind = .thisRef) (he : e.nameParts = some parts) (hvs : direct → vs = []) : Stands us e → Stands vs ts →
      Stands (us ++ [.node l (vs ++ [.node n []])]) (thisRef p (some ⟨q, parts⟩))
  | superOf {parts vs us p q} {e : Ast .expr} {l n : Cst.Label} {ts : Ast (.list .type)} (hl : l.kind = .fieldSuffix)
      (hn : n.kind = .superRef) (he : e.nameParts = some parts) (hvs : direct → vs = []) : Stands us e → Stands vs ts →
      Stands (us ++ [.node l (vs ++ [.node n []])]) (superRef p (some ⟨q, parts⟩))
  | typeLiteral {us t p} : Stands us t → Stands us (typeLiteral p t)
  | binary {u x vs y p} {l o : Cst.Label} (hl : l.kind = .binary) (ho : o.kind = .operator) :
      Stands [u] x → Stands vs y →
      Stands [.node l (u :: .node o [] :: vs)] (binary p o.text x y)
  | unary {us e p} {l o : Cst.Label} (hl : l.kind = .unary) (ho : o.kind = .operator) : Stands us e →
      Stands [.node l (.node o [] :: us)] (unary p o.text false e)
  | unaryBehind {us e p} {l o : Cst.Label} (hl : l.kind = .postIncDecSuffix) (ho : o.kind = .operator) : Stands us e →
      Stands (us ++ [.node l [.node o []]]) (unary p o.text true e)
  | assign {u x vs y p} {l o : Cst.Label} (hl : l.kind = .assignment) (ho : o.kind = .operator) :
      Stands [u] x → Stands vs y →
      Stands [.node l (u :: .node o [] :: vs)] (assign p o.text x y)
  | conditional {us x vs y ws z p} : Stands us x → Stands vs y → Stands ws z →
      Stands (us ++ (vs ++ ws)) (conditional p x y z)
  | cast {us ts vs e p} : Stands us ts → Stands vs e → Stands (us ++ vs) (cast p ts e)
  | instanceOf {us e vs t p} : Stands us e → Stands vs t → Stands (us ++ vs) (instanceOf p e t)
  | enclosed {us e p} : Stands us e → Stands us (enclosed p e)
  -- Statements.
  | block {us ss p} : Stands us ss → Stands us (block p ss)
  | ofBlock {us b} : Stands us b → Stands us (ofBlock b)
  | ofVariables {us d} : Stands us d → Stands us (ofVariables d)
  | emptyStmt {p} {n : Cst.Label} (hn : n.kind = .emptyStmt) : Stands [.node n []] (emptyStmt p)
  | exprStmt {us e p} : Stands us e → Stands us (exprStmt p e)
  | ifStmt {us e vs yes ws no p} : Stands us e → Stands vs yes → Stands ws no →
      Stands (us ++ (vs ++ ws)) (ifStmt p e yes no)
  | whileStmt {us e vs s p} : Stands us e → Stands vs s → Stands (us ++ vs) (whileStmt p e s)
  | doStmt {us s vs e p} : Stands us s → Stands vs e → Stands (us ++ vs) (doStmt p s e)
  | forStmt {us start vs e ws step xs s p} : Stands us start → Stands vs e → Stands ws step → Stands xs s →
      Stands (us ++ (vs ++ (ws ++ xs))) (forStmt p .absent start e step s)
  | forVariables {us d vs e ws step xs s p} : Stands us d → Stands vs e → Stands ws step → Stands xs s →
      Stands (us ++ (vs ++ (ws ++ xs))) (forStmt p (.present d) .nil e step s)
  | forEachStmt {binder vs e ws s p} {t : Cst} (ht : t.kind = .formalParameter) :
      Stands [t] binder → Stands vs e → Stands ws s →
      Stands (t :: (vs ++ ws)) (forEachStmt p binder e s)
  | tryStmt {us rs vs b ws hs xs f p} {l : Cst.Label} (hl : l.kind = .tryStmt)
      (hread : (Reading.decorate (.node l (us ++ (vs ++ (ws ++ xs))))).read .stmt = .ok (tryStmt p rs b hs f)) :
      Stands us rs → Stands vs b → Stands ws hs → Stands xs f →
      Stands [.node l (us ++ (vs ++ (ws ++ xs)))] (tryStmt p rs b hs f)
  | switchStmt {us e vs gs p} : Stands us e → Stands vs gs → Stands (us ++ vs) (switchStmt p e gs)
  | synchronizedStmt {us e vs b p} : Stands us e → Stands vs b → Stands (us ++ vs) (synchronizedStmt p e b)
  | labeledStmt {us s p} {n : Cst.Label} (hn : n.kind = .identifier) :
      Stands us s → Stands (.node n [] :: us) (labeledStmt p n.text s)
  | breakStmt {p} : Stands [] (breakStmt p [])
  | breakTo {p} {n : Cst.Label} (hn : n.kind = .identifier) : Stands [.node n []] (breakStmt p n.text)
  | continueStmt {p} : Stands [] (continueStmt p [])
  | continueTo {p} {n : Cst.Label} (hn : n.kind = .identifier) : Stands [.node n []] (continueStmt p n.text)
  | returnStmt {us e p} : Stands us e → Stands us (returnStmt p e)
  | throwStmt {us e p} : Stands us e → Stands us (throwStmt p e)
  | assertStmt {us e vs m p} : Stands us e → Stands vs m → Stands (us ++ vs) (assertStmt p e m)
  | resource {m h us vs t e p} {l n : Cst.Label} (hl : l.kind = .resource) (hn : n.kind = .identifier)
      (hm : Keyworded Modifier.immutableByDefault m h) (hus : Cst.Nameless us) (hvs : Cst.Nameless vs) :
      Stands [m] h → Stands us t → Stands vs e →
      Stands [.node l (m :: (us ++ .node n [] :: vs))] (resource p h (.present t) n.text e)
  | namedResource {us e p} {l : Cst.Label} (hl : l.kind = .resource) (hus : Cst.Nameless us) : Stands us e →
      Stands [.node l us] (resource p (.header .nil []) .absent [] e)
  | catchClause {m h us vs ts b p q} {l n : Cst.Label} (hl : l.kind = .catchClause) (hn : n.kind = .identifier)
      (hm : Keyworded Modifier.immutableByDefault m h) (hus : Cst.Nameless us) (hvs : Cst.Nameless vs) :
      Stands [m] h → Stands us ts → Stands vs b →
      Stands [.node l (m :: (us ++ .node n [] :: vs))] (catchClause p (catchParameter q h ts n.text) b)
  | switchGroup {us labels vs ss p} : Stands us labels → Stands vs ss → Stands (us ++ vs) (switchGroup p labels ss)
  | switchLabel {us e p} : Stands us e → Stands us (switchLabel p e)
  -- Declarations.
  | declarator {us dims vs e p} {l n : Cst.Label} (hl : l.kind = .variableDeclarator) (hn : n.kind = .identifier) :
      Stands us dims → Stands vs e →
      Stands [.node l (.node n [] :: (us ++ vs))] (declarator p n.text dims e)
  | variableDecl {m h type us p} {role : VariableRole} {l : Cst.Label} {t : Cst} {ds : List (Ast .declarator)}
      (hl : l.kind = role.kind) (hm : Keyworded role.complete m h) (ht : t.kind = .type) (hds : ds ≠ []) :
      Stands [m] h → Stands [t] type → Stands us (ofList ds) →
      Stands [.node l (m :: t :: us)] (variableDecl p h type (ofList ds) : Ast (.variableDecl role))
  | bareParameter {p} {n : Cst.Label} (hn : n.kind = .identifier) : Stands [.node n []] (bareParameter p n.text)
  | parameter {m h us vs ws t as dims p varargs} {l n : Cst.Label} (hl : l.kind = .formalParameter)
      (hn : n.kind = .identifier) (hm : Keyworded Modifier.immutableByDefault m h) (hus : Cst.Nameless us)
      (hvs : Cst.Nameless vs) (hws : Cst.Nameless ws) :
      Stands [m] h → Stands us t → Stands vs as → Stands ws dims →
      Stands [.node l (m :: (us ++ (vs ++ .node n [] :: ws)))] (parameter p h (.present t) n.text dims varargs as)
  /-- Parameters between parentheses. -/
  | parameters {us} {l : Cst.Label} (hl : l.kind = .formalParameters) {ps : Ast (.list .parameter)} :
      Stands us ps → Stands [.node l us] ps
  | classDecl {m h us vs ws xs ts base is ms p q} {l n : Cst.Label} (hl : l.kind = .classDecl)
      (hn : n.kind = .identifier) (hm : Keyworded id m h) (hus : Cst.Nameless us) (hvs : Cst.Nameless vs)
      (hws : Cst.Nameless ws) (hxs : Cst.Nameless xs) :
      Stands [m] h → Stands us ts → Stands vs base → Stands ws is → Stands xs ms →
      Stands [.node l (m :: .node n [] :: (us ++ (vs ++ (ws ++ xs))))] (classDecl p h ts n.text q base is ms)
  | interfaceDecl {m h us vs ws ts is ms p q} {l n : Cst.Label} (hl : l.kind = .interfaceDecl)
      (hn : n.kind = .identifier) (hm : Keyworded id m h) (hus : Cst.Nameless us) (hvs : Cst.Nameless vs)
      (hws : Cst.Nameless ws) :
      Stands [m] h → Stands us ts → Stands vs is → Stands ws ms →
      Stands [.node l (m :: .node n [] :: (us ++ (vs ++ ws)))] (interfaceDecl p h ts n.text q is ms)
  | annotationTypeDecl {m h us ms p q} {l n : Cst.Label} (hl : l.kind = .annotationTypeDecl) (hn : n.kind = .identifier)
      (hm : Keyworded id m h) (hus : Cst.Nameless us) :
      Stands [m] h → Stands us ms → Stands [.node l (m :: .node n [] :: us)] (annotationTypeDecl p h n.text q ms)
  | ofTypeDecl {us d} : Stands us d → Stands us (ofTypeDecl d)
  | ofField {us d} : Stands us d → Stands us (ofField d)
  | ofConstant {us d} : Stands us d → Stands us (ofConstant d)
  | methodDecl {m h us vs ws xs ys zs ts t ps dims es b p inInterface} {l n : Cst.Label}
      (hl : l.kind ∈ [Cst.Kind.methodDecl, .interfaceMethodDecl]) (hn : n.kind = .identifier) (hm : Keyworded id m h)
      (hus : Cst.Nameless us) (hvs : Cst.Nameless vs) (hws : Cst.Nameless ws) (hxs : Cst.Nameless xs)
      (hys : Cst.Nameless ys) (hzs : Cst.Nameless zs) :
      Stands [m] h → Stands us ts → Stands vs t → Stands ws ps → Stands xs dims → Stands ys es → Stands zs b →
      Stands [.node l (m :: (us ++ (vs ++ .node n [] :: (ws ++ (xs ++ (ys ++ zs))))))]
        (methodDecl p inInterface h ts t n.text ps dims es b)
  | annotationMemberDecl {m h us vs ws t dims e p} {l n : Cst.Label} (hl : l.kind = .annotationMemberDecl)
      (hn : n.kind = .identifier) (hm : Keyworded id m h) (hus : Cst.Nameless us) (hvs : Cst.Nameless vs)
      (hws : Cst.Nameless ws) :
      Stands [m] h → Stands us t → Stands vs dims → Stands ws e →
      Stands [.node l (m :: (us ++ .node n [] :: (vs ++ ws)))] (annotationMemberDecl p h t n.text dims e)
  | constructorDecl {m h us vs ws ts ps es xs other ys ss p q} {l k n : Cst.Label} (hl : l.kind = .constructorDecl)
      (hk : k.kind = .constructorBody) (hn : n.kind = .identifier) (hm : Keyworded id m h) (hus : Cst.Nameless us)
      (hvs : Cst.Nameless vs) (hws : Cst.Nameless ws) :
      Stands [m] h → Stands us ts → Stands vs ps → Stands ws es → Stands xs other → Stands ys ss →
      Stands [.node l (m :: (us ++ .node n [] :: (vs ++ (ws ++ [.node k (xs ++ ys)]))))]
        (constructorDecl p h ts n.text ps es other (.block q ss))
  | constructorCall {us scope vs ts ws es p isThis} {n : Cst.Label} (hn : n.kind ∈ [Cst.Kind.thisRef, .superRef]) :
      Stands us scope → Stands vs ts → Stands ws es →
      Stands (us ++ (vs ++ .node n [] :: ws)) (constructorCall p isThis scope ts es)
  | initializerDecl {us b p isStatic} : Stands us b → Stands us (initializerDecl p isStatic b)
  | staticInitializer {us b p isStatic} {n : Cst.Label} (hn : n.kind = .modifier) : Stands us b →
      Stands (.node n [] :: us) (initializerDecl p isStatic b)

end

theorem Stands.cons {direct : Prop} {c : Category} {us vs : List Cst} {a : Ast c} {as : List (Ast c)}
    (ha : Stands direct us a) (has : Stands direct vs (ofList as)) : Stands direct (us ++ vs) (ofList (a :: as)) := by
  have hone : Stands direct us (ofList [a]) := .one ha
  exact hone.append has

end Ast

section

variable (direct : Prop)

/-- The package is read off the trees. -/
inductive PackageDecl.Stands : List Cst → PackageDecl → Prop
  | none {p : Place} : Stands [] ⟨p, .nil, none⟩
  | some {p : Place} {l : Cst.Label} {t : Cst} {q : QualifiedName} {us : List Cst} {as : Ast (.list .annotationUse)}
      (hl : l.kind = .packageDecl) (hq : Cst.Dotted t q.parts) : Ast.Stands direct us as →
      Stands [.node l (us ++ [t])] ⟨p, as, some q⟩

/-- The import is read off the tree. -/
inductive ImportDecl.Stands : Cst → ImportDecl → Prop
  | intro {p : Place} {l : Cst.Label} {t : Cst} {q : QualifiedName} {isStatic onDemand : Bool}
      (words stars : List Cst.Label) (hl : l.kind = .importDecl) (hwords : ∀ n ∈ words, n.kind = .modifier)
      (hstars : ∀ n ∈ stars, n.kind = .operator) (hq : Cst.Dotted t q.parts) :
      Stands (.node l (words.map (Tree.node · []) ++ t :: stars.map (Tree.node · []))) ⟨p, isStatic, q, onDemand⟩

/-- The file is read off the tree. -/
inductive CompilationUnit.Stands : Cst → CompilationUnit → Prop
  | intro {p : Place} {l : Cst.Label} {t : Cst} {us is : List Cst} {package : PackageDecl} {imports : List ImportDecl}
      {type : Ast .typeDecl} (hl : l.kind = .compilationUnit) :
      package.Stands direct us → List.Forall₂ ImportDecl.Stands is imports → Ast.Stands direct [t] type →
      Stands (.node l (us ++ (is ++ [t]))) ⟨p, package, imports, type⟩

end

end KiteCompiler
