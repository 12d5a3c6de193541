import KiteCompiler.Grammar.Parsed
import KiteCompiler.Java.Lowering
import KiteCompiler.Proofs.Placement.Readings
import KiteCompiler.Proofs.Reading.Steps

/-!
# Every node can be translated

`lower` cannot fail, since the categories of syntax leave no node out of place. The emitter below is the translation
without them: a node has fields, any node at all can stand in a field or none, and what has no case is `unhandled`. Each
kind of node has one case, which reads the node and what its fields are emitted as. The emitter does not fail on syntax
that was read, whatever the concrete tree was, and what it emits is what the syntax is lowered to (`emitted_of_read`).
-/

namespace KiteCompiler

/-! ## Nodes and their fields -/

/-- The syntax with a tree for each field. A node is labelled with itself; without a label there is a list of nodes, or
a node that can be absent. Names, keywords and flags are not fields but read off the label. -/
def Ast.fields {c : Category} : Ast c → Tree (Option Node) := fold fun t parts => match t, parts with
  | nil, _ | absent, _ | present _, _ => .node none parts
  | cons .., [a, as] => .node none (a :: as.children)
  | classRef _, [a] | ofReference _, [a] | ofArrayElements _, [a] | ofAnnotationUse _, [a] | blockBody _, [a]
  | exprBody _, [a] | ofBlock _, [a] | ofVariables _, [a] | ofTypeDecl _, [a] | ofField _, [a] | ofConstant _, [a] => a
  | _, _ => .node (some (.term t)) parts

/-- The same of a file. -/
def CompilationUnit.fields (u : CompilationUnit) : Tree (Option Node) :=
  .node (some (.unit u)) [u.package.annotations.fields, .node none [u.type.fields]]

namespace Emitter

/-! ## The emitter -/

/-- What is emitted, or the node that has no case; where a node is missing there is none. -/
abbrev Emitted (α : Type) := Except (Option Node) α

def unhandled {α : Type} (n : Node) : Emitted α := .error (some n)

/-- What stands in a field, and what is emitted for it where syntax of a category is expected. -/
structure Field where
  label : Option Node
  emit (c : Category) : Emitted c.Lowered

instance : CoeFun Field fun _ => (c : Category) → Emitted c.Lowered := ⟨Field.emit⟩

namespace Field

variable (f : Field)

def annotations : Emitted (Java (.list .annotationUse)) := .ofList <$> f (.list .annotationUse)

def types : Emitted (Java (.list .type)) := .ofList <$> f (.list .type)

def exprs : Emitted (Java (.list .expr)) := .ofList <$> f (.list .expr)

def expr? : Emitted (Java (.option .expr)) := .ofOption <$> f (.option .expr)

def block : Emitted (Java .block) := (.block <| .ofList ·) <$> f .block

def block? : Emitted (Java (.option .block)) := (.ofOption <| ·.map (.block <| .ofList ·)) <$> f (.option .block)

def stmt : Emitted (Java .stmt) := .single <$> f .stmt

def members : Emitted (Java (.list .member)) := (.ofList ·.flatten) <$> f (.list .member)

/-- A node of one of these categories stands in the field. -/
def isOf (cs : List Category) : Bool :=
  match f.label with
  | some (.term (c := c) _) => cs.contains c
  | _ => false

end Field

def classType : Node → List Field → Emitted (Java .classType)
  | .term (.segment _ _ _ n _ diamond), [scope, as, ts] =>
    return .segment (.ofOption (← scope (.option .classType))) (← as.annotations) n (← ts.types) diamond
  | n, _ => unhandled n

def type (n : Node) (fields : List Field) : Emitted (Java .type) :=
  match n, fields with
  | .term (.primitive _ _ name), [as] => return .plain (.primitive (← as.annotations) name)
  | .term (.segment ..), _ => return .plain (.classRef (← classType n fields))
  | .term (.array ..), [component, as] => return .withDims [.dim (← as.annotations)] (← component .type)
  | .term (.wildcard ..), [as, upper, lower] =>
    return .plain (.wildcard (← as.annotations) (.ofOption (← upper (.option .type)))
      (.ofOption (← lower (.option .type))))
  | .term (.void _), [] => return .plain .void
  | _, _ => unhandled n

def annotationUse : Node → List Field → Emitted (Java .annotationUse)
  | .term (.marker _ q), [] => return .annotationUse q.text .absent .nil
  | .term (.single _ q _), [value] => return .annotationUse q.text (.present (← value .expr)) .nil
  | .term (.normal _ q _), [pairs] =>
    return .annotationUse q.text .absent (.ofList (← pairs (.list .memberValue)))
  | n, _ => unhandled n

/-- The scope, the type arguments and the name of what is called. -/
def reference : Node → List Field → Emitted Java.Callee
  | .term (.name _ n), [] => return ⟨none, [], n⟩
  | .term (.access _ _ _ n), [scope, ts] => return ⟨some (← scope .expr), ← ts (.list .type), n⟩
  | n, _ => unhandled n

def arrayElements : Node → List Field → Emitted (Java .arrayElements)
  | .term (.arrayElements ..), [values] => return .arrayElements (← values.exprs)
  | n, _ => unhandled n

def expr (n : Node) (fields : List Field) : Emitted (Java .expr) :=
  match n, fields with
  | .term (.literal _ value), [] => return .literal (Java.literalText value)
  | .term (c := .reference) _, _ => return (← reference n fields).expr
  | .term (.index ..), [a, i] => return .index (← a .expr) (← i .expr)
  | .term (.call ..), [target, es] =>
    if target.isOf [.reference] then do
      let callee ← target .reference
      return .call (.ofOption callee.scope) (.ofList callee.typeArguments) callee.name (← es.exprs)
    else unhandled n
  | .term (.methodRef _ _ _ name), [scope, ts] => return .methodRef (← scope .expr) (← ts.types) name
  | .term (.typeExpr ..), [t] => return .typeExpr (← t .type)
  | .term (.objectCreation ..), [scope, ts, t, es, body] =>
    return .objectCreation (← scope.expr?) (← ts.types) (← t .classType) (← es.exprs)
      (.ofOption ((← body (.option (.list .member))).map fun members => .ofList members.flatten))
  | .term (.arrayCreation ..), [t, levels, elements] =>
    return .arrayCreation (← t .type) (.ofList (← levels (.list .level)))
      (.ofOption (← elements (.option .arrayElements)))
  | .term (c := .arrayElements) _, _ => return .ofArrayElements (← arrayElements n fields)
  | .term (.lambda _ _ parenthesized _), [ps, body] =>
    if body.isOf [.block, .expr, .reference, .arrayElements, .annotationUse] then
      return .lambda (.ofList (← ps (.list .parameter))) parenthesized (← body .lambdaBody)
    else unhandled n
  | .term (.thisRef _ qualifier), [] => return .thisRef (qualifier.elim [] (·.text))
  | .term (.superRef _ qualifier), [] => return .superRef (qualifier.elim [] (·.text))
  | .term (.typeLiteral ..), [t] => return .classLiteral (← t .type)
  | .term (.binary _ operator _ _), [left, right] => return .binary operator (← left .expr) (← right .expr)
  | .term (.unary _ operator behind _), [operand] => return .unary operator behind (← operand .expr)
  | .term (.assign _ operator _ _), [target, value] => return .assign operator (← target .expr) (← value .expr)
  | .term (.conditional ..), [condition, yes, no] =>
    return .conditional (← condition .expr) (← yes .expr) (← no .expr)
  | .term (.cast ..), [ts, operand] => return .cast (Java.castTo (← ts (.list .type))) (← operand .expr)
  | .term (.instanceOf ..), [operand, t] => return .instanceOf (← operand .expr) (← t .type)
  | .term (.enclosed ..), [inner] => return .enclosed (← inner .expr)
  | .term (c := .annotationUse) _, _ => return .ofAnnotationUse (← annotationUse n fields)
  | _, _ => unhandled n

def block : Node → List Field → Emitted (List (Java .stmt))
  | .term (.block ..), [ss] => return (← ss (.list .stmt)).flatten
  | n, _ => unhandled n

def variableDecl : Node → List Field → Emitted (List (Java .variableDecl))
  | .term (.variableDecl ..), [h, t, vs] =>
    return Java.declarations (← h .header) (← t .type) (← vs (.list .declarator))
  | n, _ => unhandled n

def stmt (n : Node) (fields : List Field) : Emitted (List (Java .stmt)) :=
  match n, fields with
  | .term (.block ..), _ => return [.ofBlock (.block (.ofList (← block n fields)))]
  | .term (c := .variableDecl .localVariable) _, _ => return (← variableDecl n fields).map .ofVariables
  | .term (.emptyStmt _), [] => return [.emptyStmt]
  | .term (.exprStmt ..), [e] => return [.exprStmt (← e .expr)]
  | .term (.ifStmt ..), [condition, yes, no] =>
    return [.ifStmt (← condition .expr) (← yes.stmt) (.ofOption ((← no (.option .stmt)).map .single))]
  | .term (.whileStmt ..), [condition, body] => return [.whileStmt (← condition .expr) (← body.stmt)]
  | .term (.doStmt ..), [body, condition] => return [.doStmt (← body.stmt) (← condition .expr)]
  | .term (.forStmt ..), [declaration, start, condition, step, body] => do
    let condition ← condition.expr?
    let step ← step.exprs
    let body ← body.stmt
    match ← declaration (.option (.variableDecl .localVariable)) with
    | none => return [.forStmt .absent (← start.exprs) condition step body]
    | some ds => return [.forLoop ds (.forStmt · .nil condition step body)]
  | .term (.forEachStmt ..), [binder, collection, body] =>
    return [.forEachStmt (← binder .parameter) (← collection .expr) (← body.stmt)]
  | .term (.tryStmt ..), [resources, body, handlers, cleanup] =>
    return [.tryStmt (.ofList (← resources (.list .resource))) (← body.block)
      (.ofList (← handlers (.list .catchClause))) (← cleanup.block?)]
  | .term (.switchStmt ..), [selector, groups] =>
    return [.switchStmt (← selector .expr) (.ofList (← groups (.list .switchGroup)))]
  | .term (.synchronizedStmt ..), [lock, body] => return [.synchronizedStmt (← lock .expr) (← body.block)]
  | .term (.labeledStmt _ label _), [body] => return [.labeledStmt label (← body.stmt)]
  | .term (.breakStmt _ label), [] => return [.breakStmt label]
  | .term (.continueStmt _ label), [] => return [.continueStmt label]
  | .term (.returnStmt ..), [value] => return [.returnStmt (← value.expr?)]
  | .term (.throwStmt ..), [e] => return [.throwStmt (← e .expr)]
  | .term (.assertStmt ..), [condition, message] => return [.assertStmt (← condition .expr) (← message.expr?)]
  | _, _ => unhandled n

def typeDecl : Node → List Field → Emitted (Java .typeDecl)
  | .term (.classDecl _ _ _ n _ _ _ _), [h, ts, base, interfaces, ms] =>
    return .classDecl (← h .header) n (.ofList (← ts (.list .typeParameter))) (.ofOption (← base (.option .classType)))
      (.ofList (← interfaces (.list .classType))) (← ms.members)
  | .term (.interfaceDecl _ _ _ n _ _ _), [h, ts, bases, ms] =>
    return .interfaceDecl (← h .header) n (.ofList (← ts (.list .typeParameter))) (.ofList (← bases (.list .classType)))
      (← ms.members)
  | .term (.annotationTypeDecl _ _ n _ _), [h, ms] => return .annotationTypeDecl (← h .header) n (← ms.members)
  | n, _ => unhandled n

def member (n : Node) (fields : List Field) : Emitted (List (Java .member)) :=
  match n, fields with
  | .term (c := .typeDecl) _, _ => return [.ofTypeDecl (← typeDecl n fields)]
  | .term (c := .variableDecl .field) _, _ | .term (c := .variableDecl .constant) _, _ =>
    return (← variableDecl n fields).map .ofField
  | .term (.methodDecl _ _ _ _ _ name _ _ _ _), [h, ts, result, ps, dims, exceptions, body] =>
    return [.methodDecl (← h .header) (.ofList (← ts (.list .typeParameter)))
      (.withDims (← dims (.list .dim)) (← result .type)) name (.ofList (← ps (.list .parameter)))
      (.ofList (← exceptions (.list .exception))) (← body.block?)]
  | .term (.annotationMemberDecl _ _ _ name _ _), [h, t, dims, fallback] =>
    return [.annotationMemberDecl (← h .header) (.withDims (← dims (.list .dim)) (← t .type)) name (← fallback.expr?)]
  | .term (.constructorDecl _ _ _ name _ _ _ _), [h, ts, ps, exceptions, other, body] =>
    return [.constructorDecl (← h .header) (.ofList (← ts (.list .typeParameter))) name
      (.ofList (← ps (.list .parameter))) (.ofList (← exceptions (.list .exception)))
      (.block (.ofList ((← other (.option .constructorCall)).toList ++ (← body .block))))]
  | .term (.initializerDecl _ isStatic _), [body] => return [.initializerDecl isStatic (← body.block)]
  | _, _ => unhandled n

/-- One node, where syntax of a category is expected. -/
def node (n : Node) (fields : List Field) (c : Category) : Emitted c.Lowered :=
  match c, n, fields with
  | .type, _, _ => type n fields
  | .classType, _, _ => classType n fields
  | .annotationUse, _, _ => annotationUse n fields
  | .expr, _, _ => expr n fields
  | .reference, _, _ => reference n fields
  | .arrayElements, _, _ => arrayElements n fields
  | .lambdaBody, .term (.block ..), _ => return .blockBody (.block (.ofList (← block n fields)))
  | .lambdaBody, _, _ => return .exprBody (← expr n fields)
  | .stmt, _, _ => stmt n fields
  | .block, _, _ => block n fields
  | .variableDecl _, _, _ => variableDecl n fields
  | .member, _, _ => member n fields
  | .typeDecl, _, _ => typeDecl n fields
  | .typeParameter, .term (.typeParameter _ _ name _), [as, bounds] =>
    return .typeParameter (← as.annotations) name (.ofList (← bounds (.list .classType)))
  | .exception, .term (.exception ..), [t] => t .classType
  | .dim, .term (.dim ..), [as] => return .dim (← as.annotations)
  | .memberValue, .term (.memberValue _ name _), [value] => return .memberValue name (← value .expr)
  | .header, .term (.header _ ms), [as] => return .header (← as.annotations) (Java.modifiers ms)
  | .level, .term (.level ..), [as, length] => return .level (← as.annotations) (← length.expr?)
  | .constructorCall, .term (.constructorCall _ isThis _ _ _), [scope, ts, es] =>
    return .constructorCall isThis (← scope.expr?) (← ts.types) (← es.exprs)
  | .resource, .term (.resource _ _ _ name _), [h, t, value] => do
    let value ← value .expr
    match ← t (.option .type) with
    | none => return .namedResource value
    | some t => return .declaredResource (← h .header) t name value
  | .catchClause, .term (.catchClause ..), [parameter, body] => do
    let (h, types, name) ← parameter .catchParameter
    return .catchClause h (.ofList types) name (← body.block)
  | .catchParameter, .term (.catchParameter _ _ _ name), [h, types] =>
    return (← h .header, ← types (.list .exception), name)
  | .switchGroup, .term (.switchGroup ..), [labels, ss] =>
    return .switchGroup (.ofList (← labels (.list .switchLabel))) (.ofList (← ss (.list .stmt)).flatten)
  | .switchLabel, .term (.switchLabel ..), [value] => return .switchLabel (← value.expr?)
  | .declarator, .term (.declarator _ name _ _), [dims, value] =>
    return (← dims (.list .dim), .declarator name (← value.expr?))
  | .parameter, .term (.parameter _ _ _ name _ varargs _), [h, t, as, dims] => do
    let dims ← dims (.list .dim)
    return .parameter (← h .header) (.ofOption ((← t (.option .type)).map (.withDims dims))) varargs
      (← as.annotations) name
  | _, _, _ => unhandled n

/-- The same of a list, or of a node that can be absent. -/
def nodes (fields : List Field) : (c : Category) → Emitted c.Lowered
  | .list c => fields.mapM (· c)
  | .option c => match fields with
    | [] => return none
    | [f] => return some (← f c)
    | _ => .error none
  | _ => .error none

def emit : Tree (Option Node) → Field := Tree.fold fun n fields => ⟨n, n.elim (nodes fields) (node · fields)⟩

/-- A file. -/
def unit : Tree (Option Node) → Emitted Java.Unit
  | .node (some (.unit u)) [annotations, type] => do
    let annotations ← (emit annotations).annotations
    return {
      package := u.package.name.map fun name => ⟨annotations, name.text⟩
      imports := u.imports.map fun i => ⟨i.name.text, i.isStatic, i.onDemand⟩
      types := (← emit type (.option .typeDecl)).toList }
  | .node n _ => .error n

/-! ## Agreement with the lowering -/

section

variable {α β : Type} {x : Emitted α} {a : α}

theorem bind_ok {f : α → Emitted β} {b : β} (hx : x = .ok a) (hf : f a = .ok b) : (x >>= f) = .ok b := by
  rw [hx]
  exact hf

theorem map_ok {f : α → β} (hx : x = .ok a) : (f <$> x) = .ok (f a) := by
  rw [hx]
  rfl

theorem ite_ok {y : Emitted α} {b : Bool} (hb : b = true) (hx : x = .ok a) : (if b then x else y) = .ok a := by
  rw [if_pos hb]
  exact hx

end

theorem isOf_reference (r : Ast .reference) : (emit r.fields).isOf [.reference] = true := by
  cases r <;> rfl

theorem isOf_body (b : Ast .lambdaBody) :
    (emit b.fields).isOf [.block, .expr, .reference, .arrayElements, .annotationUse] = true := by
  cases b with
  | blockBody b => cases b; rfl
  | exprBody e =>
    cases e with
    | ofReference r => cases r <;> rfl
    | ofArrayElements x => cases x; rfl
    | ofAnnotationUse x => cases x <;> rfl
    | _ => rfl

theorem mapM_cons {c : Category} {f : Field} {fs : List Field} {a : c.Lowered} {as : List c.Lowered} (h : f c = .ok a)
    (hs : fs.mapM (· c) = .ok as) : (f :: fs).mapM (· c) = .ok (a :: as) := by
  rw [List.mapM_cons]
  exact bind_ok h (bind_ok hs rfl)

/-- The emitter does not fail on syntax with categories, and emits what it is lowered to. -/
theorem emit_fields {c : Category} (a : Ast c) : emit a.fields c = .ok a.lower := by
  induction a with
  | nil | absent | void | marker | literal | name | thisRef | superRef | emptyStmt | breakStmt | continueStmt => rfl
  | primitive _ _ _ h | dim _ _ h | header _ _ h | arrayElements _ _ h | returnStmt _ _ h | switchLabel _ _ h
  | labeledStmt _ _ _ h | initializerDecl _ _ _ h => exact bind_ok (map_ok h) rfl
  | exception _ _ h => exact h
  | present _ h | single _ _ _ h | normal _ _ _ h | memberValue _ _ _ h | typeExpr _ _ h | typeLiteral _ _ h
  | unary _ _ _ _ h | enclosed _ _ h | block _ _ h | exprStmt _ _ h | throwStmt _ _ h => exact bind_ok h rfl
  | binary _ _ _ _ ha hb | assign _ _ _ _ ha hb | index _ _ _ ha hb | cast _ _ _ ha hb | instanceOf _ _ _ ha hb
  | switchStmt _ _ _ ha hb | catchParameter _ _ _ _ ha hb | switchGroup _ _ _ ha hb | access _ _ _ _ ha hb =>
    exact bind_ok ha (bind_ok hb rfl)
  | typeParameter _ _ _ _ ha hb | doStmt _ _ _ ha hb => exact bind_ok (map_ok ha) (bind_ok hb rfl)
  | array _ _ _ ha hb => exact bind_ok (map_ok hb) (bind_ok ha rfl)
  | methodRef _ _ _ _ ha hb | whileStmt _ _ _ ha hb | synchronizedStmt _ _ _ ha hb | assertStmt _ _ _ ha hb
  | declarator _ _ _ _ ha hb | annotationTypeDecl _ _ _ _ _ ha hb | catchClause _ _ _ ha hb =>
    exact bind_ok ha (bind_ok (map_ok hb) rfl)
  | level _ _ _ ha hb => exact bind_ok (map_ok ha) (bind_ok (map_ok hb) rfl)
  | classRef t h | ofArrayElements t h | ofBlock t h | ofVariables t h | ofField t h | ofConstant t h | blockBody t h =>
    cases t
    exact bind_ok h rfl
  | ofReference r h | ofAnnotationUse r h | ofTypeDecl r h => cases r <;> exact bind_ok h rfl
  | exprBody e h =>
    cases e with
    | ofReference r => cases r <;> exact bind_ok h rfl
    | ofArrayElements x => cases x; exact bind_ok h rfl
    | ofAnnotationUse x => cases x <;> exact bind_ok h rfl
    | _ => exact bind_ok h rfl
  | call _ r _ ha hb => exact ite_ok (isOf_reference r) (bind_ok ha (bind_ok (map_ok hb) rfl))
  | lambda _ _ _ b ha hb => exact ite_ok (isOf_body b) (bind_ok ha (bind_ok hb rfl))
  | wildcard _ _ _ _ ha hb hd => exact bind_ok (map_ok ha) (bind_ok hb (bind_ok hd rfl))
  | segment _ _ _ _ _ _ ha hb hd => exact bind_ok ha (bind_ok (map_ok hb) (bind_ok (map_ok hd) rfl))
  | conditional _ _ _ _ ha hb hd | arrayCreation _ _ _ _ ha hb hd | variableDecl _ _ _ _ ha hb hd =>
    exact bind_ok ha (bind_ok hb (bind_ok hd rfl))
  | ifStmt _ _ _ _ ha hb hd => exact bind_ok ha (bind_ok (map_ok hb) (bind_ok hd rfl))
  | forEachStmt _ _ _ _ ha hb hd => exact bind_ok ha (bind_ok hb (bind_ok (map_ok hd) rfl))
  | constructorCall _ _ _ _ _ ha hb hd => exact bind_ok (map_ok ha) (bind_ok (map_ok hb) (bind_ok (map_ok hd) rfl))
  | resource _ _ t _ _ ha hb hd =>
    refine bind_ok hd (bind_ok hb ?_)
    cases t with
    | absent => rfl
    | present t => exact bind_ok ha rfl
  | tryStmt _ _ _ _ _ ha hb hd he => exact bind_ok ha (bind_ok (map_ok hb) (bind_ok hd (bind_ok (map_ok he) rfl)))
  | interfaceDecl _ _ _ _ _ _ _ ha hb hd he => exact bind_ok ha (bind_ok hb (bind_ok hd (bind_ok (map_ok he) rfl)))
  | annotationMemberDecl _ _ _ _ _ _ ha hb hd he => exact bind_ok ha (bind_ok hd (bind_ok hb (bind_ok (map_ok he) rfl)))
  | parameter _ _ _ _ _ _ _ ha hb hd he => exact bind_ok hd (bind_ok ha (bind_ok hb (bind_ok (map_ok he) rfl)))
  | objectCreation _ _ _ _ _ _ ha hb hd he hf =>
    exact bind_ok (map_ok ha) (bind_ok (map_ok hb) (bind_ok hd (bind_ok (map_ok he) (bind_ok hf rfl))))
  | classDecl _ _ _ _ _ _ _ _ ha hb hd he hf =>
    exact bind_ok ha (bind_ok hb (bind_ok hd (bind_ok he (bind_ok (map_ok hf) rfl))))
  | forStmt _ d _ _ _ _ ha hb hd he hf =>
    refine bind_ok (map_ok hd) (bind_ok (map_ok he) (bind_ok (map_ok hf) (bind_ok ha ?_)))
    cases d with
    | absent => exact bind_ok (map_ok hb) rfl
    | present d => rfl
  | constructorDecl _ _ _ _ _ _ _ _ ha hb hd he hf hg =>
    exact bind_ok ha (bind_ok hb (bind_ok hd (bind_ok he (bind_ok hf (bind_ok hg rfl)))))
  | methodDecl _ _ _ _ _ _ _ _ _ _ ha hb hd he hf hg hi =>
    exact bind_ok ha (bind_ok hb (bind_ok hf (bind_ok hd (bind_ok he (bind_ok hg (bind_ok (map_ok hi) rfl))))))
  | cons _ as ha has => cases as <;> exact mapM_cons ha has

theorem unit_fields (u : CompilationUnit) : unit u.fields = .ok u.lower :=
  bind_ok (map_ok (emit_fields u.package.annotations)) (bind_ok (emit_fields (.present u.type)) rfl)

-- What is called has to be a name or a member.
example (p : Place) (r : Ast .reference) (es : Ast (.list .expr)) :
    emit (.node (some (.term (.call p r es))) [(Ast.literal p .null).fields, .node none []]) .expr =
      .error (some (.term (.call p r es))) := rfl

/-! ## Syntax that was read -/

theorem moved_self (t : Cst) : Tree.Rel (Cst.Label.Moved id) t t := .refl (fun _ => ⟨rfl, rfl, rfl⟩) t

theorem complete_of_ofCst {t : Cst} {u : CompilationUnit} (h : CompilationUnit.ofCst t = .ok u) : u.Complete := by
  have hread := Ast.Reading.ofCst_moved (moved_self t)
  rw [h] at hread
  cases hread with
  | ok h => exact h.complete

theorem complete_of_exprOfCst {t : Cst} {e : Ast .expr} (h : Ast.exprOfCst t = .ok e) : e.Complete := by
  have := Ast.decorate_moved (moved_self t)
  have hread : Related (id : Place → Place) ((Ast.Reading.decorate t).read .expr)
      ((Ast.Reading.decorate t).read .expr) := inferInstance
  rw [show (Ast.Reading.decorate t).read .expr = .ok e from h] at hread
  cases hread.rel with
  | ok h => exact h.complete

/-- What was read has no missing names, types or expressions, and the emitter handles every node of it: it emits what
the syntax is lowered to. -/
theorem emitted_of_read (t : Cst) :
    (∀ u, CompilationUnit.ofCst t = .ok u → u.Complete ∧ unit u.fields = .ok u.lower) ∧
      ∀ e, Ast.exprOfCst t = .ok e → e.Complete ∧ emit e.fields .expr = .ok e.lower :=
  ⟨fun u hu => ⟨complete_of_ofCst hu, unit_fields u⟩, fun e he => ⟨complete_of_exprOfCst he, emit_fields e⟩⟩

/-- A class whose field is a lambda with a call, and a cast to two types. -/
theorem emitted_of_read_lambda :
    (∃ u, CompilationUnit.ofCst (Grammar.parseUnit "package p; class A \x7b F f = x -> g.<B>h(x); \x7d").tree = .ok u ∧
        u.Complete ∧ unit u.fields = .ok u.lower) ∧
      ∃ e, Ast.exprOfCst (Grammar.parseExpression "(A & B) new int[3][]").tree = .ok e ∧ e.Complete ∧
        emit e.fields .expr = .ok e.lower := by
  obtain ⟨u, hu⟩ := Ast.Result.exists_of_isOk (x := CompilationUnit.ofCst
    (Grammar.parseUnit "package p; class A \x7b F f = x -> g.<B>h(x); \x7d").tree) (by decide +kernel)
  obtain ⟨e, he⟩ := Ast.Result.exists_of_isOk (x := Ast.exprOfCst (Grammar.parseExpression "(A & B) new int[3][]").tree)
    (by decide +kernel)
  exact ⟨⟨u, hu, (emitted_of_read _).1 u hu⟩, e, he, (emitted_of_read _).2 e he⟩

end Emitter

end KiteCompiler
