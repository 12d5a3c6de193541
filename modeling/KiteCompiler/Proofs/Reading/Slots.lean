import KiteCompiler.Proofs.Reading.Rows

/-!
# The places of the grammar

What stands at each place of the grammar, and the steps of readings that take a part of a row there.
-/

namespace KiteCompiler.Ast.Reading

/-- The kinds of expressions; the elements of an array alone are none. -/
def expressionKinds : List Cst.Kind := [
  .assignment, .conditional, .binary, .instanceOf, .unary, .cast, .suffixed, .literal, .simpleName, .thisRef,
  .superRef, .parens, .objectCreation, .arrayCreation, .lambda, .typeLiteral, .typeReference]

/-- The tokens of literals. -/
def literalKinds : List Token.Kind :=
  [.intLiteral, .floatLiteral, .charLiteral, .stringLiteral, .kwTrue, .kwFalse, .kwNull]

namespace Slot

/-! ## Names, annotations and types -/

abbrev identifier : Slot := .by [.identifier] Reading.identifier

/-- A node for one token. -/
abbrev token (k : Cst.Kind) : Slot := ⟨[k], fun _ => True⟩

abbrev operator : Slot := token .operator

abbrev qualifiedName : Slot := .by [.qualifiedName] Reading.qualifiedName

abbrev annotationUse : Slot := .of .annotationUse [.annotationUse]

abbrev elementValuePair : Slot := .by [.elementValuePair] Reading.elementValuePair

abbrev elementValue : Slot := .of .elementValue (.annotationUse :: .arrayInitializer :: expressionKinds)

abbrev expr : Slot := .of .expr expressionKinds

abbrev type : Slot := .of .type [.type]

abbrev dim : Slot := .by [.dim] Reading.dim

abbrev dims : Slot := .row [.dims] [.some .dim]

abbrev primitiveType : Slot := token .primitiveType

/-- The word before the bound of a wildcard. -/
abbrev boundWord : Slot :=
  ⟨[.operator], fun d => d.literal = Text.ofString "extends" ∨ d.literal = Text.ofString "super"⟩

abbrev typeArgument : Slot := .on [.type, .wildcard] Reading.typeArgument

abbrev typeArguments : Slot := .by [.typeArguments] Reading.typeArguments

/-- A segment of a class type, wherever it stands in the type. -/
abbrev classTypeElement : Slot :=
  ⟨[.classTypeElement], fun d => ∀ whole? scope, Succeeds (Reading.classTypeElement whole? scope d.branch)⟩

/-- A class type behind any annotations. -/
abbrev classType : Slot := ⟨[.classType], fun d => ∀ outer, Succeeds (Reading.classType d.branch outer)⟩

abbrev typeBound : Slot := .by [.typeBound] Reading.classTypeList

abbrev typeParameter : Slot := .by [.typeParameter] Reading.typeParameter

abbrev typeParameters : Slot := .row [.typeParameters] [.some .typeParameter]

/-! ## Variables, parameters and blocks -/

/-- An annotation or a modifier. -/
abbrev modifier : Slot :=
  ⟨[.annotationUse, .modifier], fun d => d.kind = .annotationUse → Succeeds (d.read .annotationUse)⟩

/-- Modifiers, however their keywords are completed. -/
abbrev modifiers : Slot := ⟨[.modifiers], fun d => ∀ adjust, Succeeds (Reading.header adjust d.branch)⟩

abbrev initialValue : Slot := .of .expr (.arrayInitializer :: expressionKinds)

abbrev declarator : Slot := .by [.variableDeclarator] Reading.declarator

abbrev localVariables : Slot := .by [.localVarDecl] Reading.localVariables

abbrev varargs : Slot := .row [.varargs] [.many .annotationUse]

abbrev formalParameter : Slot := .by [.formalParameter] Reading.formalParameter

abbrev formalParameters : Slot := .by [.formalParameters] Reading.formalParameters

abbrev block : Slot := .by [.block] Reading.block

/-- The kinds of statements. -/
abbrev statementKinds : List Cst.Kind := [
  .block, .localVarDecl, .emptyStmt, .exprStmt, .ifStmt, .whileStmt, .doStmt, .forStmt, .forEachStmt, .tryStmt,
  .switchStmt, .synchronizedStmt, .labeledStmt, .breakStmt, .continueStmt, .returnStmt, .throwStmt, .assertStmt]

abbrev stmt : Slot := .of .stmt statementKinds

/-! ## Expressions -/

abbrev arguments : Slot := .by [.arguments] Reading.arguments

/-- What a reference names: a method, or `new`. -/
abbrev methodName : Slot := ⟨[.identifier, .operator], fun _ => True⟩

/-- The kinds of members. -/
abbrev memberKinds : List Cst.Kind := [
  .classDecl, .interfaceDecl, .annotationTypeDecl, .fieldDecl, .constantDecl, .methodDecl, .interfaceMethodDecl,
  .annotationMemberDecl, .constructorDecl, .initializer]

abbrev member : Slot := .of .member memberKinds

abbrev classBody : Slot := .row [.classBody] [.many .member]

/-- The type behind `new`; it is a class unless it is primitive. -/
abbrev createdType : Slot :=
  ⟨[.type], fun d => ∃ a : Ast .type, d.read .type = .ok a ∧
    ((∀ c ∈ d.branch.children, c.kind ≠ .primitiveType) → ∃ b, a = .classRef b)⟩

/-- The type of an object that is created. -/
abbrev createdClass : Slot := ⟨[.type], fun d => ∃ a, d.read .type = .ok (.classRef a)⟩

abbrev dimExpr : Slot := .by [.dimExpr] Reading.dimExpr

abbrev arrayElements : Slot := .by [.arrayInitializer] Reading.arrayElements

abbrev lambdaParameter : Slot := .by [.identifier, .formalParameter] Reading.lambdaParameter

/-- What stands before the arrow of a lambda. -/
abbrev lambdaHead : Slot :=
  ⟨[.identifier, .lambdaParameters], fun d => d.kind = .lambdaParameters →
  Filled [.many .lambdaParameter] d.branch.children⟩

/-- What stands behind it. -/
abbrev lambdaBody : Slot :=
  ⟨.block :: expressionKinds, fun d =>
    (d.kind = .block → Succeeds (Reading.block d.branch)) ∧ (d.kind ≠ .block → Succeeds (d.read .expr))⟩

/-! ## Statements -/

/-- The start of a loop: variables or expressions. -/
abbrev forInit : Slot :=
  ⟨[.forInit], fun d => Filled [.one .localVariables] d.branch.children ∨ Filled [.many .expr] d.branch.children⟩

abbrev forUpdate : Slot := .row [.forUpdate] [.many .expr]

abbrev resource : Slot := .by [.resource] Reading.resource

abbrev resourceSpec : Slot := .row [.resourceSpec] [.many .resource]

abbrev catchType : Slot := .by [.catchType] Reading.exceptions

abbrev catchClause : Slot := .by [.catchClause] Reading.catchClause

abbrev finallyClause : Slot := .row [.finallyClause] [.one .block]

abbrev switchLabel : Slot := .by [.switchLabel] Reading.switchLabel

abbrev switchGroup : Slot := .by [.switchGroup] Reading.switchGroup

/-! ## Declarations -/

/-- The base of a class. -/
abbrev baseClass : Slot := .by [.extendsClause] Reading.baseClass

/-- The bases of an interface. -/
abbrev baseInterfaces : Slot := .by [.extendsClause] Reading.classTypeList

abbrev ofClause : Slot := .by [.ofClause] Reading.classTypeList

abbrev interfaceBody : Slot := .row [.interfaceBody] [.many .member]

abbrev annotationTypeBody : Slot := .row [.annotationTypeBody] [.many .member]

abbrev typeDecl : Slot := .by typeDeclKinds Reading.typeDecl

abbrev throwsClause : Slot := .by [.throwsClause] Reading.exceptions

abbrev resultType : Slot := .on [.type, .voidType] Reading.resultType

abbrev defaultValue : Slot := .row [.defaultValue] [.one .elementValue]

abbrev constructorCall : Slot := .by [.explicitConstructorInvocation] Reading.constructorCall

/-- The object before a call of another constructor. -/
abbrev constructorScope : Slot := .of .expr [.simpleName, .suffixed]

/-- `this` or `super`, which names the constructor. -/
abbrev selfWord : Slot := ⟨[.thisRef, .superRef], fun _ => True⟩

/-- A constructor's body: the call of another one, if there is one, and statements. -/
abbrev constructorBody : Slot := .row [.constructorBody] [.opt .constructorCall, .many .stmt]

/-- The word before a static block. -/
abbrev staticWord : Slot := ⟨[.modifier], fun d => d.literal = Text.ofString "static"⟩

abbrev packageDecl : Slot := .by [.packageDecl] Reading.packageDecl

abbrev importDecl : Slot := .by [.importDecl] Reading.importDecl

end Slot

variable {is : List Item} {t : Branch} {ds : List Decorated} {d : Decorated}

theorem succeeds_literal (hk : t.tokenKind ∈ literalKinds)
    (hquoted : t.tokenKind ∈ [Token.Kind.charLiteral, .stringLiteral] → 2 ≤ t.literal.length) :
    Succeeds (literal t) := by
  have hunquote (h : t.tokenKind ∈ [Token.Kind.charLiteral, .stringLiteral]) : Succeeds (unquote t) :=
    .ite_neg (Nat.not_lt.2 (hquoted h)) (.ok _)
  unfold literal
  split
  · split
    · split <;> exact .ok _
    · exact .ok _
  · exact .ok _
  · next h => exact (hunquote (by rw [h]; decide)).map
  · next h => exact (hunquote (by rw [h]; decide)).map
  · exact .ok _
  · exact .ok _
  · exact .ok _
  · simp only [literalKinds, List.mem_cons, List.not_mem_nil, or_false] at hk
    tauto

/-! ## Lists of parts -/

theorem succeeds_classTypeList (h : Over [.some .classType] t) : Succeeds (classTypeList t) :=
  h.children fun hds => .mapM fun d hd =>
    .ite_pos (List.mem_singleton.1 (hds.some_parts.2 d hd).kind) ((hds.some_parts.2 d hd).reads [])

theorem succeeds_dims (h : Part .dims d) : Succeeds (dims d.branch) :=
  h.over.children fun hds => succeeds_each hds.some_parts.2

/-! ## Steps -/

namespace Takes

/-- The children of a part, none of which is an error. -/
theorem below {β : Type} {kinds : List Cst.Kind} {js ks : List Item} {Q : β → Prop} {f : List Decorated → Reading β}
    (hd : Part (.row kinds ks) d) (hf : ∀ ds, Filled ks ds → Takes is (f ds) js Q) :
    Takes is (liftM (children d.branch) >>= f) js Q :=
  known hd.over.children_eq (hf _ hd.reads)

theorem expr : Takes (.one .expr :: is) nextExpr is fun _ => True := child

theorem stmt : Takes (.one .stmt :: is) nextStmt is fun _ => True := child

theorem operator : Takes (.one .operator :: is) nextOperator is fun _ => True := expect fun _ _ => pure

theorem header : Takes (.one .modifiers :: is) nextHeader is fun _ => True := expect fun _ hd => result (hd.reads id)

theorem immutableHeader : Takes (.one .modifiers :: is) nextImmutableHeader is fun _ => True :=
  expect fun _ hd => result (hd.reads _)

theorem leadingAnnotations (h : avoids [.annotationUse] is = true) :
    Takes (.many .annotationUse :: is) leadingAnnotations is fun _ => True :=
  many rfl h fun _ hds => result (succeeds_eachIn hds)

theorem dims : Takes (.one .dims :: is) optionalDims is fun as => ¬as.isEmpty = true := by
  refine optional_some fun d hd => ?_
  obtain ⟨as, has⟩ := succeeds_dims hd
  refine fun t ds hds => ⟨as, ds, lift_ok.2 ⟨has, rfl⟩, hds, ?_⟩
  obtain ⟨cs, hcs, heach⟩ := Result.bind_ok.1 has
  obtain ⟨-, _, hrest⟩ := within_ok.1 hcs
  exact isEmpty_each heach ((rest_ok.1 hrest).2.1 ▸ (Filled.some_parts hd.reads).1)

theorem noDims (h : avoids [.dims] is = true) : Takes is optionalDims is (· = []) := optional_none h (ret rfl)

theorem optionalDims (h : avoids [.dims] is = true) : Takes (.opt .dims :: is) optionalDims is fun _ => True :=
  opt dims.anyway (noDims h).anyway

theorem typeArguments : Takes (.one .typeArguments :: is) optionalTypeArguments is fun _ => True :=
  optional_some fun _ hd => lift hd.reads fun _ _ => pure

theorem noTypeArguments (h : avoids [.typeArguments] is = true) : Takes is optionalTypeArguments is (· = .nil) :=
  optional_none h (ret rfl)

theorem optionalTypeArguments (h : avoids [.typeArguments] is = true) :
    Takes (.opt .typeArguments :: is) optionalTypeArguments is fun _ => True :=
  opt typeArguments (noTypeArguments h).anyway

theorem optionalTypeParameters (h : avoids [.typeParameters] is = true) :
    Takes (.opt .typeParameters :: is) optionalTypeParameters is fun _ => True :=
  optional h (fun _ hd => below hd fun _ hds => lift (succeeds_each hds.some_parts.2) fun _ _ => pure) pure

theorem optionalExceptions (h : avoids [.throwsClause] is = true) :
    Takes (.opt .throwsClause :: is) optionalExceptions is fun _ => True :=
  optional h (fun _ hd => result hd.reads) pure

theorem optionalExpr : Takes [.opt .expr] optionalExpr [] fun _ => True :=
  opt (peek_some fun _ _ => ite_pos rfl (seq expr pure)) (peek_none (ite_neg Bool.false_ne_true pure))

/-- All children that are left, as variables. -/
theorem declarators : Takes [.some .declarator] declarators [] fun _ => True := by
  refine rest fun ds hds => ?_
  obtain ⟨hne, hparts⟩ := hds.some_parts
  exact lift (succeeds_each hparts) fun as has => ite_neg (isEmpty_each has hne) pure

end Takes

end KiteCompiler.Ast.Reading
