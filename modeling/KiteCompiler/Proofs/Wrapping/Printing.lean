import KiteCompiler.Java.Printer
import KiteCompiler.Proofs.Wrapping.Settled

/-!
# Java that keeps its words

Java syntax is `Clean` if its names, literals and operators are tame texts; what else is asked of its `try` statements
is left open. Then its document is settled (`Clean.settled`): statements and members begin at a margin that stands
behind a blank, everything else goes on in its line.
-/

namespace KiteCompiler

open Token (Tame Rested)
open Text (byte)

namespace Java

section

variable (tried : Java .stmt → Prop)

/-- Syntax whose texts are tame, and whose `try` statements, at any depth, have a property. -/
inductive Clean : {c : Category} → Java c → Prop
  | nil {c} : Clean (nil : Java (.list c))
  | cons {c} {a : Java c} {as : Java (.list c)} : Clean a → Clean as → Clean (cons a as)
  | absent {c} : Clean (absent : Java (.option c))
  | present {c} {a : Java c} : Clean a → Clean (present a)
  -- Types.
  | type {e dims} : Clean e → Clean dims → Clean (type e dims)
  | primitive {n as} (hn : Tame n) : Clean as → Clean (primitive as n)
  | classRef {t} : Clean t → Clean (classRef t)
  | wildcard {as upper lower} : Clean as → Clean upper → Clean lower → Clean (wildcard as upper lower)
  | void : Clean void
  | intersection {types} : Clean types → Clean (intersection types)
  | segment {n scope as arguments diamond} (hn : Tame n) :
      Clean scope → Clean as → Clean arguments → Clean (segment scope as n arguments diamond)
  | typeParameter {n as bounds} (hn : Tame n) : Clean as → Clean bounds → Clean (typeParameter as n bounds)
  | dim {as} : Clean as → Clean (dim as)
  -- Annotations and modifiers.
  | annotationUse {n value pairs} (hn : Tame n) : Clean value → Clean pairs → Clean (annotationUse n value pairs)
  | memberValue {n value} (hn : Tame n) : Clean value → Clean (memberValue n value)
  | header {ms as} (hms : ∀ m ∈ ms, Tame m) : Clean as → Clean (header as ms)
  -- Expressions.
  | literal {t} (ht : Tame t) : Clean (literal t)
  | name {n} (hn : Tame n) : Clean (name n)
  | access {n scope} (hn : Tame n) : Clean scope → Clean (access scope n)
  | index {a i} : Clean a → Clean i → Clean (index a i)
  | call {n scope typeArguments arguments} (hn : Tame n) :
      Clean scope → Clean typeArguments → Clean arguments → Clean (call scope typeArguments n arguments)
  | methodRef {n scope typeArguments} (hn : Tame n) :
      Clean scope → Clean typeArguments → Clean (methodRef scope typeArguments n)
  | typeExpr {t} : Clean t → Clean (typeExpr t)
  | objectCreation {scope typeArguments t arguments members} :
      Clean scope → Clean typeArguments → Clean t → Clean arguments → Clean members →
      Clean (objectCreation scope typeArguments t arguments members)
  | arrayCreation {t levels elements} : Clean t → Clean levels → Clean elements →
      Clean (arrayCreation t levels elements)
  | level {as length} : Clean as → Clean length → Clean (level as length)
  | arrayElements {values} : Clean values → Clean (arrayElements values)
  | ofArrayElements {x} : Clean x → Clean (ofArrayElements x)
  | ofAnnotationUse {x} : Clean x → Clean (ofAnnotationUse x)
  | lambda {ps b isEnclosed} : Clean ps → Clean b → Clean (lambda ps isEnclosed b)
  | blockBody {b} : Clean b → Clean (blockBody b)
  | exprBody {e} : Clean e → Clean (exprBody e)
  | thisRef {q} (hq : Tame q) : Clean (thisRef q)
  | superRef {q} (hq : Tame q) : Clean (superRef q)
  | classLiteral {t} : Clean t → Clean (classLiteral t)
  | binary {operator x y} (ho : Tame (" " ++ operator ++ " ")) : Clean x → Clean y → Clean (binary operator x y)
  | unary {operator x behind} (ho : Tame operator) : Clean x → Clean (unary operator behind x)
  | assign {operator x y} (ho : Tame (" " ++ operator ++ " ")) : Clean x → Clean y → Clean (assign operator x y)
  | conditional {x y z} : Clean x → Clean y → Clean z → Clean (conditional x y z)
  | cast {t x} : Clean t → Clean x → Clean (cast t x)
  | instanceOf {x t} : Clean x → Clean t → Clean (instanceOf x t)
  | enclosed {x} : Clean x → Clean (enclosed x)
  -- Statements.
  | block {ss} : Clean ss → Clean (block ss)
  | ofBlock {b} : Clean b → Clean (ofBlock b)
  | ofVariables {d} : Clean d → Clean (ofVariables d)
  | emptyStmt : Clean emptyStmt
  | exprStmt {e} : Clean e → Clean (exprStmt e)
  | ifStmt {e yes no} : Clean e → Clean yes → Clean no → Clean (ifStmt e yes no)
  | whileStmt {e s} : Clean e → Clean s → Clean (whileStmt e s)
  | doStmt {s e} : Clean s → Clean e → Clean (doStmt s e)
  | forStmt {declaration start condition step s} : Clean declaration → Clean start → Clean condition → Clean step →
      Clean s →
      Clean (forStmt declaration start condition step s)
  | forEachStmt {binder e s} : Clean binder → Clean e → Clean s → Clean (forEachStmt binder e s)
  | tryStmt {resources b handlers cleanup} (htried : tried (tryStmt resources b handlers cleanup)) :
      Clean resources → Clean b → Clean handlers → Clean cleanup → Clean (tryStmt resources b handlers cleanup)
  | switchStmt {e groups} : Clean e → Clean groups → Clean (switchStmt e groups)
  | synchronizedStmt {e b} : Clean e → Clean b → Clean (synchronizedStmt e b)
  | labeledStmt {n s} (hn : Tame n) : Clean s → Clean (labeledStmt n s)
  | breakStmt {n} (hn : Tame n) : Clean (breakStmt n)
  | continueStmt {n} (hn : Tame n) : Clean (continueStmt n)
  | returnStmt {value} : Clean value → Clean (returnStmt value)
  | throwStmt {e} : Clean e → Clean (throwStmt e)
  | assertStmt {e message} : Clean e → Clean message → Clean (assertStmt e message)
  | constructorCall {scope typeArguments arguments isThis} : Clean scope → Clean typeArguments → Clean arguments →
      Clean (constructorCall isThis scope typeArguments arguments)
  | declaredResource {n h t e} (hn : Tame n) : Clean h → Clean t → Clean e → Clean (declaredResource h t n e)
  | namedResource {e} : Clean e → Clean (namedResource e)
  | catchClause {n h types b} (hn : Tame n) : Clean h → Clean types → Clean b → Clean (catchClause h types n b)
  | switchGroup {labels ss} : Clean labels → Clean ss → Clean (switchGroup labels ss)
  | switchLabel {value} : Clean value → Clean (switchLabel value)
  -- Declarations.
  | declarator {n value} (hn : Tame n) : Clean value → Clean (declarator n value)
  | variableDecl {h t declarators} : Clean h → Clean t → Clean declarators → Clean (variableDecl h t declarators)
  | parameter {n h t as varargs} (hn : Tame n) : Clean h → Clean t → Clean as → Clean (parameter h t varargs as n)
  | classDecl {n h typeParameters base interfaces members} (hn : Tame n) :
      Clean h → Clean typeParameters → Clean base → Clean interfaces → Clean members →
      Clean (classDecl h n typeParameters base interfaces members)
  | interfaceDecl {n h typeParameters bases members} (hn : Tame n) :
      Clean h → Clean typeParameters → Clean bases → Clean members →
      Clean (interfaceDecl h n typeParameters bases members)
  | annotationTypeDecl {n h members} (hn : Tame n) : Clean h → Clean members → Clean (annotationTypeDecl h n members)
  | ofTypeDecl {d} : Clean d → Clean (ofTypeDecl d)
  | ofField {d} : Clean d → Clean (ofField d)
  | methodDecl {n h typeParameters result parameters exceptions b} (hn : Tame n) :
      Clean h → Clean typeParameters → Clean result → Clean parameters → Clean exceptions → Clean b →
      Clean (methodDecl h typeParameters result n parameters exceptions b)
  | constructorDecl {n h typeParameters parameters exceptions b} (hn : Tame n) :
      Clean h → Clean typeParameters → Clean parameters → Clean exceptions → Clean b →
      Clean (constructorDecl h typeParameters n parameters exceptions b)
  | initializerDecl {b isStatic} : Clean b → Clean (initializerDecl isStatic b)
  | annotationMemberDecl {n h t fallback} (hn : Tame n) :
      Clean h → Clean t → Clean fallback → Clean (annotationMemberDecl h t n fallback)

end

variable {tried : Java .stmt → Prop}

/-! ## Documents in a line -/

/-- A document that can begin anywhere in a line. -/
def InLine (d : Doc) : Prop := ∀ p, Doc.Settled p false d

namespace InLine

variable {d e : Doc} {ds : List Doc}

theorem text {t : Text} (ht : Tame t) : InLine (.text t) := fun _ => .text ht

theorem fixed {t : Text} (ht : Token.isPlain t = true := by decide) : InLine (.text t) := fun _ => .fixed ht

theorem empty : InLine .empty := .text .nil

theorem append (hd : InLine d) (he : InLine e) : InLine (d ++ e) := fun p => (hd p).append (he false)

theorem ite {c : Prop} [Decidable c] (hd : c → InLine d) (he : ¬c → InLine e) : InLine (if c then d else e) := by
  split
  · exact hd ‹_›
  · exact he ‹_›

theorem elim {α : Type} {x : Option α} {f : α → Doc} (hd : InLine d) (hf : ∀ a ∈ x, InLine (f a)) :
    InLine (x.elim d f) := by
  cases x with
  | none => exact hd
  | some a => exact hf a rfl

theorem orEmpty {x : Option Doc} (hx : ∀ d ∈ x, InLine d) : InLine (.orEmpty x) := by
  cases x with
  | none => exact empty
  | some d => exact hx d rfl

theorem part {x : Option Doc} {keyword : Text} (hkeyword : Tame keyword) (hx : ∀ d ∈ x, InLine d) :
    InLine (part keyword x) := elim empty fun d hd => (text hkeyword).append (hx d hd)

theorem concat (h : ∀ d ∈ ds, InLine d) : InLine (.concat ds) := by
  induction ds with
  | nil => exact empty
  | cons d ds ih =>
    rw [List.forall_mem_cons] at h
    exact h.1.append (ih h.2)

theorem joined {separator : Text} (hseparator : Tame separator) (h : ∀ d ∈ ds, InLine d) :
    InLine (.joined separator ds) := by
  induction ds with
  | nil => exact empty
  | cons d ds ih =>
    rw [List.forall_mem_cons] at h
    cases ds with
    | nil => exact h.1
    | cons e ds => exact (h.1.append (text hseparator)).append (ih h.2)

theorem commas (h : ∀ d ∈ ds, InLine d) : InLine (commas ds) := joined (.of_isPlain (by decide)) h

theorem annotationsBefore (h : ∀ d ∈ ds, InLine d) : InLine (annotationsBefore ds) :=
  concat (List.forall_mem_map.2 fun d hd => (h d hd).append (.fixed (by decide)))

theorem annotated (h : ∀ d ∈ ds, InLine d) (hd : InLine d) : InLine (annotated ds d) :=
  ite (fun _ => hd) fun _ => (append (.fixed (by decide)) (annotationsBefore h)).append hd

theorem modifiersBefore {ms : List Text} (h : ∀ m ∈ ms, Tame m) : InLine (modifiersBefore ms) :=
  concat (List.forall_mem_map.2 fun m hm => text ((h m hm).append (.of_isPlain (by decide))))

theorem angled (h : ∀ d ∈ ds, InLine d) : InLine (angled ds) :=
  ite (fun _ => empty) fun _ => (append (.fixed (by decide)) (commas h)).append (.fixed (by decide))

theorem angledBefore (h : ∀ d ∈ ds, InLine d) : InLine (angledBefore ds) :=
  ite (fun _ => empty) fun _ => (angled h).append (.fixed (by decide))

theorem separatedBy {keyword separator : Text} (hkeyword : Tame keyword) (hseparator : Tame separator)
    (h : ∀ d ∈ ds, InLine d) : InLine (separatedBy keyword separator ds) :=
  ite (fun _ => empty) fun _ => (text hkeyword).append (joined hseparator h)

theorem clause {keyword : Text} (hkeyword : Tame keyword) (h : ∀ d ∈ ds, InLine d) : InLine (clause keyword ds) :=
  separatedBy hkeyword (.of_isPlain (by decide)) h

theorem parenthesized (h : ∀ d ∈ ds, InLine d) : InLine (parenthesized ds) :=
  ite (fun _ => empty) fun _ => (append (.fixed (by decide)) (commas h)).append (.fixed (by decide))

theorem resourceList (h : ∀ d ∈ ds, InLine d) : InLine (resourceList ds) :=
  ite (fun _ => empty) fun _ =>
    (append (.fixed (by decide)) (joined (.of_isPlain (by decide)) h)).append (.fixed (by decide))

theorem scopeBefore {scope : Option Doc} (h : ∀ d ∈ scope, InLine d) : InLine (scopeBefore scope) :=
  elim empty fun d hd => (h d hd).append (.fixed (by decide))

theorem argumentList (h : ∀ d ∈ ds, InLine d) : InLine (argumentList ds) := fun _ => .enclosed fun d hd => h d hd false

theorem parameterList (h : ∀ d ∈ ds, InLine d) : InLine (parameterList ds) :=
  fun _ => .enclosed fun d hd => h d hd false

theorem qualified {qualifier keyword : Text} (hqualifier : Tame qualifier) (hkeyword : Tame keyword) :
    InLine (qualified qualifier keyword) := by
  refine text ?_
  split
  · exact hkeyword
  · exact (hqualifier.append (.of_isPlain (by decide))).append hkeyword

/-- Lines between braces begin and end at a margin. -/
theorem braced (h : Doc.Settled true true d) : InLine (braced d) := fun _ =>
  .append (.append (.fixed (by decide)) .newline) (.append (.nest h) (.append .margin (.fixed (by decide))))

theorem behindBlank (h : Doc.Settled true false d) : InLine (.text " " ++ d) :=
  fun _ => .append (.blank (.of_isPlain (by decide)) (by decide) (by decide)) h

theorem body (s : Java .stmt) (h : Doc.Settled true false d) : InLine (body s d) := by
  have hnext : InLine (.newline ++ .nest 1 d) := fun _ => .append .newline (.nest h)
  cases s with
  | ofBlock => exact behindBlank h
  | _ => exact hnext

theorem bodyBefore (s : Java .stmt) (h : Doc.Settled true false d) {keyword : Text} (hkeyword : Tame keyword) :
    InLine (bodyBefore s d keyword) := by
  have hnext : InLine (.newline ++ .margin ++ .text keyword) :=
    fun _ => (Doc.Settled.newline.append .margin).append (.text hkeyword)
  refine append (body s h) ?_
  cases s with
  | ofBlock => exact append (.fixed (by decide)) (text hkeyword)
  | _ => exact hnext

theorem elseBody (s : Java .stmt) (h : Doc.Settled true false d) : InLine (elseBody s d) := by
  have hbody := body s h
  cases s with
  | ifStmt => exact behindBlank h
  | _ => exact hbody

end InLine

/-! ## Documents in lines -/

open Doc (Settled)

section

variable {d : Doc} {ds : List Doc}

theorem settled_concat (h : ∀ d ∈ ds, Settled true true d) : Settled true true (.concat ds) := by
  induction ds with
  | nil => exact .empty
  | cons d ds ih =>
    rw [List.forall_mem_cons] at h
    exact h.1.append (ih h.2)

theorem settled_lines (h : ∀ d ∈ ds, Settled true false d) : Settled true true (lines ds) := by
  induction ds with
  | nil => exact .empty
  | cons d ds ih =>
    rw [List.forall_mem_cons] at h
    exact h.1.append (Settled.newline.append (ih h.2))

theorem settled_spaced {members : List (Bool × Doc)} (h : ∀ m ∈ members, Settled true true m.2) :
    Settled true true (spaced members) := by
  induction members with
  | nil => exact .empty
  | cons m members ih =>
    rw [List.forall_mem_cons] at h
    cases members with
    | nil => exact h.1
    | cons n members =>
      refine (h.1.append ?_).append (ih h.2)
      split
      · exact .empty
      · exact .newline

theorem inLine_memberBlock (members : Java (.list .member)) (h : ∀ d ∈ ds, Settled true true d) :
    InLine (memberBlock members ds) :=
  .braced (settled_spaced fun m hm => h m.2 (List.of_mem_zip hm).2)

theorem settled_simple (h : InLine d) : Settled true false (simple d) :=
  (Settled.margin.append (h true)).append (.fixed (by decide))

theorem settled_begin (keyword behind : Text) (hkeyword : Tame keyword) (hbehind : Tame behind) (h : InLine d) :
    Settled true false (.margin ++ .text keyword ++ d ++ .text behind) :=
  ((Settled.margin.append (.text hkeyword)).append (h false)).append (.text hbehind)

theorem settled_jump {keyword label : Text} (hkeyword : Tame keyword) (hlabel : Tame label) :
    Settled true false (jump keyword label) := by
  refine settled_simple (.text ?_)
  split
  · exact hkeyword
  · exact (hkeyword.append (.of_isPlain (by decide))).append hlabel

end

/-- Annotations that go on in a line, and tame modifiers. -/
def PrintedHeader.Settled (h : PrintedHeader) : Prop := (∀ d ∈ h.annotations, InLine d) ∧ ∀ m ∈ h.modifiers, Tame m

theorem PrintedHeader.Settled.inLine {h : PrintedHeader} (hh : h.Settled) : InLine h.inLine :=
  (InLine.annotationsBefore hh.1).append (.modifiersBefore hh.2)

theorem PrintedHeader.Settled.lines {h : PrintedHeader} (hh : h.Settled) : Doc.Settled true false h.lines := by
  refine ((settled_concat (List.forall_mem_map.2 fun d hd => ?_)).append .margin).append (InLine.modifiersBefore hh.2 _)
  exact (Doc.Settled.margin.append (hh.1 d hd true)).append .newline

/-- How the document of syntax is settled. -/
def Category.Settled : (c : Category) → c.Printed → Prop
  | .list c, ds => ∀ d ∈ ds, c.Settled d
  | .option c, d => ∀ x ∈ d, c.Settled x
  | .header, h => h.Settled
  | .variableDecl, v => v.header.Settled ∧ InLine v.declared
  | .stmt, d => Doc.Settled true false d
  | .switchGroup, d | .switchLabel, d | .member, d | .typeDecl, d => Doc.Settled true true d
  | .type, d | .element, d | .classType, d | .typeParameter, d | .dim, d | .annotationUse, d | .memberValue, d
  | .expr, d | .lambdaBody, d | .arrayElements, d | .level, d | .block, d | .resource, d | .catchClause, d
  | .declarator, d | .parameter, d => InLine d

theorem inLine_lambda {ps : Java (.list .parameter)} {b : Java .lambdaBody} (isEnclosed : Bool)
    (hclean : ps.Clean tried) (hps : ∀ d ∈ ps.print, InLine d) (hb : InLine b.print) :
    InLine (lambda ps isEnclosed b).print := by
  have hlist : InLine ("(" ++ commas ps.print ++ ") -> " ++ b.print) :=
    ((InLine.append (.fixed (by decide)) (.commas hps)).append (.fixed (by decide))).append hb
  cases hclean with
  | nil => exact hlist
  | cons hp hrest =>
    cases hp with
    | parameter hn =>
      cases hrest with
      | nil =>
        cases isEnclosed with
        | true => exact hlist
        | false => exact ((InLine.text hn).append (.fixed (by decide))).append hb
      | cons => exact hlist

theorem Clean.settled {c : Category} {j : Java c} (h : Clean tried j) : c.Settled j.print := by
  induction h with
  | nil => exact List.forall_mem_nil _
  | cons _ _ iha ihas => exact List.forall_mem_cons.2 ⟨iha, ihas⟩
  | absent => exact fun _ h => nomatch h
  | present _ ih => exact fun _ h => Option.some.inj h ▸ ih
  | type _ _ ihe ihd => exact InLine.append ihe (.concat ihd)
  | primitive hn _ ih => exact (InLine.annotationsBefore ih).append (.text hn)
  | classRef _ ih | typeExpr _ ih | ofArrayElements _ ih | ofAnnotationUse _ ih | blockBody _ ih | exprBody _ ih
  | namedResource _ ih | ofTypeDecl _ ih => exact ih
  | wildcard _ _ _ ih ihu ihl =>
    exact (((InLine.annotationsBefore ih).append .fixed).append (.part .of_isPlain ihu)).append (.part .of_isPlain ihl)
  | void => exact InLine.fixed
  | intersection _ ih => exact InLine.joined .of_isPlain ih
  | segment hn _ _ _ ihs iha iht =>
    exact (((InLine.scopeBefore ihs).append (.annotationsBefore iha)).append (.text hn)).append
      (.ite (fun _ => .fixed) fun _ => .angled iht)
  | typeParameter hn _ _ iha ihb =>
    exact ((InLine.annotationsBefore iha).append (.text hn)).append (.separatedBy .of_isPlain .of_isPlain ihb)
  | dim _ ih => exact InLine.annotated ih .fixed
  | annotationUse hn _ _ ihv ihp =>
    refine (InLine.text (.append .of_isPlain hn)).append (.parenthesized ?_)
    generalize print _ = value at ihv
    cases value with
    | none => exact ihp
    | some d => exact List.forall_mem_singleton.2 (ihv d rfl)
  | memberValue hn _ ih => exact (InLine.text (hn.append .of_isPlain)).append ih
  | header hms _ ih => exact ⟨ih, hms⟩
  | literal ht | name ht => exact InLine.text ht
  | access hn _ ih => exact InLine.append ih (.text (.append .of_isPlain hn))
  | index _ _ iha ihi => exact ((InLine.append iha .fixed).append ihi).append .fixed
  | call hn _ _ _ ihs iht iha =>
    exact (((InLine.scopeBefore ihs).append (.angled iht)).append (.text hn)).append (.argumentList iha)
  | methodRef hn _ _ ihs iht => exact ((InLine.append ihs .fixed).append (.angled iht)).append (.text hn)
  | @objectCreation _ _ _ _ members _ _ _ _ _ ihs iha iht ihe ihm =>
    have hscope := (InLine.scopeBefore ihs).append (InLine.fixed (t := "new "))
    have hcreation := ((hscope.append (.angledBefore iha)).append iht).append (.argumentList ihe)
    cases members with
    | absent => exact hcreation
    | present members => exact (hcreation.append .fixed).append (inLine_memberBlock members (ihm _ rfl))
  | arrayCreation _ _ _ iht ihl ihe =>
    exact ((InLine.append .fixed iht).append (.concat ihl)).append (.part .of_isPlain ihe)
  | level _ _ iha ihe => exact InLine.annotated iha ((InLine.append .fixed (.orEmpty ihe)).append .fixed)
  | arrayElements _ ih => exact (InLine.append .fixed (.commas ih)).append .fixed
  | lambda hps _ ihp ihb => exact inLine_lambda _ hps ihp ihb
  | thisRef hq | superRef hq => exact InLine.qualified hq .of_isPlain
  | classLiteral _ ih => exact InLine.append ih .fixed
  | binary ho _ _ ihx ihy | assign ho _ _ ihx ihy => exact (InLine.append ihx (.text ho)).append ihy
  | @unary _ _ behind ho _ ih =>
    cases behind with
    | true => exact InLine.append ih (.text ho)
    | false => exact (InLine.text ho).append ih
  | conditional _ _ _ ihx ihy ihz => exact (((InLine.append ihx .fixed).append ihy).append .fixed).append ihz
  | cast _ _ iht ihx => exact ((InLine.append .fixed iht).append .fixed).append ihx
  | instanceOf _ _ ihx iht => exact (InLine.append ihx .fixed).append iht
  | enclosed _ ih => exact (InLine.append .fixed ih).append .fixed
  | block _ ih => exact InLine.braced (settled_lines ih)
  | ofBlock _ ih => exact Settled.margin.append (ih true)
  | ofVariables _ ih => exact settled_simple (ih.1.inLine.append ih.2)
  | emptyStmt => exact settled_simple .empty
  | exprStmt _ ih => exact settled_simple ih
  | @ifStmt e yes no _ _ _ ihe ihy ihn =>
    have hcondition := settled_begin "if (" ")" .of_isPlain .of_isPlain ihe
    cases no with
    | absent => exact hcondition.append (InLine.body yes ihy _)
    | present no =>
      exact (hcondition.append (InLine.bodyBefore yes ihy .of_isPlain _)).append (InLine.elseBody no (ihn _ rfl) _)
  | @whileStmt _ s _ _ ihe ihs =>
    exact (settled_begin _ _ .of_isPlain .of_isPlain ihe).append (InLine.body s ihs _)
  | @doStmt s _ _ _ ihs ihe =>
    exact ((((Settled.margin.append .fixed).append (InLine.bodyBefore s ihs .of_isPlain _)).append .fixed).append
      (ihe _)).append .fixed
  | @forStmt _ _ _ _ s _ _ _ _ _ ihd ihf ihc iht ihs =>
    have hstart := InLine.elim (.commas ihf) fun v hv => (ihd v hv).1.inLine.append (ihd v hv).2
    exact (((((((Settled.margin.append .fixed).append (hstart _)).append .fixed).append
      (InLine.part .of_isPlain ihc _)).append .fixed).append (InLine.clause .of_isPlain iht _)).append .fixed).append
      (InLine.body s ihs _)
  | @forEachStmt _ _ s _ _ _ ihb ihe ihs =>
    exact (((((Settled.margin.append .fixed).append (ihb _)).append .fixed).append (ihe _)).append .fixed).append
      (InLine.body s ihs _)
  | tryStmt _ _ _ _ _ ihr ihb ihh ihc =>
    exact ((((Settled.margin.append .fixed).append (InLine.resourceList ihr _)).append (ihb _)).append
      (InLine.concat ihh _)).append (InLine.part .of_isPlain ihc _)
  | switchStmt _ _ ihe ihg =>
    exact (settled_begin _ _ .of_isPlain .of_isPlain ihe).append (InLine.braced (settled_concat ihg) _)
  | synchronizedStmt _ _ ihe ihb => exact (settled_begin _ _ .of_isPlain .of_isPlain ihe).append (ihb _)
  | labeledStmt hn _ ih =>
    refine (Settled.margin.append (.blank (hn.append .of_isPlain) ?_ ?_)).append ih
    · exact List.append_ne_nil_of_right_ne_nil _ (by decide)
    · exact Doc.rested_append (by decide) fun h => absurd h (by decide)
  | breakStmt hn | continueStmt hn => exact settled_jump .of_isPlain hn
  | returnStmt _ ih => exact settled_simple (InLine.append .fixed (.part .of_isPlain ih))
  | throwStmt _ ih => exact settled_simple (InLine.append .fixed ih)
  | assertStmt _ _ ihe ihm => exact settled_simple ((InLine.append .fixed ihe).append (.part .of_isPlain ihm))
  | @constructorCall _ _ _ isThis _ _ _ ihs iht iha =>
    refine settled_simple ((((InLine.scopeBefore ihs).append (.angled iht)).append ?_).append (.argumentList iha))
    cases isThis <;> exact InLine.fixed
  | declaredResource hn _ _ _ ihh iht ihe =>
    exact ((ihh.inLine.append iht).append (.text ((Tame.append .of_isPlain hn).append .of_isPlain))).append ihe
  | catchClause hn _ _ _ ihh iht ihb =>
    exact (((InLine.append .fixed ihh.inLine).append (.joined .of_isPlain iht)).append
      (.text ((Tame.append .of_isPlain hn).append .of_isPlain))).append ihb
  | switchGroup _ _ ihl ihs => exact (settled_concat ihl).append (.nest (settled_lines ihs))
  | switchLabel _ ih =>
    exact ((Settled.margin.append (InLine.elim .fixed (fun d hd => InLine.append .fixed (ih d hd)) _)).append
      .fixed).append .newline
  | declarator hn _ ih => exact (InLine.text hn).append (.part .of_isPlain ih)
  | variableDecl _ _ _ ihh iht ihd => exact ⟨ihh, (InLine.append iht .fixed).append (.commas ihd)⟩
  | parameter hn _ _ _ ihh iht iha =>
    have hdots := InLine.annotated iha (.fixed (t := "..."))
    refine (ihh.inLine.append (.elim .empty fun d hd => ?_)).append (.text hn)
    exact (InLine.append (iht d hd) (.ite (fun _ => hdots) fun _ => .empty)).append .fixed
  | @classDecl _ _ _ _ _ members hn _ _ _ _ _ ihh iht ihb ihi ihm =>
    exact ((((((ihh.lines.append (.text (.append .of_isPlain hn))).append (InLine.angled iht _)).append
      (InLine.part .of_isPlain ihb _)).append (InLine.clause .of_isPlain ihi _)).append .fixed).append
      (inLine_memberBlock members ihm _)).append .newline
  | @interfaceDecl _ _ _ _ members hn _ _ _ _ ihh iht ihb ihm =>
    exact (((((ihh.lines.append (.text (.append .of_isPlain hn))).append (InLine.angled iht _)).append
      (InLine.clause .of_isPlain ihb _)).append .fixed).append (inLine_memberBlock members ihm _)).append .newline
  | @annotationTypeDecl _ _ members hn _ _ ihh ihm =>
    exact ((ihh.lines.append (.text ((Tame.append .of_isPlain hn).append .of_isPlain))).append
      (inLine_memberBlock members ihm _)).append .newline
  | ofField _ ih => exact ((ih.1.lines.append (ih.2 _)).append .fixed).append .newline
  | methodDecl hn _ _ _ _ _ _ ihh iht ihr ihp ihe ihb =>
    exact ((((((ihh.lines.append (InLine.angledBefore iht _)).append (ihr _)).append
      (.text (.append .of_isPlain hn))).append (InLine.parameterList ihp _)).append
      (InLine.clause .of_isPlain ihe _)).append
      (InLine.elim .fixed (fun d hd => InLine.append .fixed (ihb d hd)) _)).append .newline
  | constructorDecl hn _ _ _ _ _ ihh iht ihp ihe ihb =>
    exact ((((((ihh.lines.append (InLine.angledBefore iht _)).append (.text hn)).append
      (InLine.parameterList ihp _)).append (InLine.clause .of_isPlain ihe _)).append .fixed).append
      (ihb _)).append .newline
  | @initializerDecl _ isStatic _ ih =>
    cases isStatic <;> exact ((Settled.margin.append .fixed).append (ih _)).append .newline
  | annotationMemberDecl hn _ _ _ ihh iht ihf =>
    exact ((((ihh.lines.append (iht _)).append (.text ((Tame.append .of_isPlain hn).append .of_isPlain))).append
      (InLine.part .of_isPlain ihf _)).append .fixed).append .newline

/-! ## Files -/

variable (tried) in
/-- The same of a package. -/
def Package.Clean (p : Package) : Prop := p.annotations.Clean tried ∧ Tame p.name

variable (tried) in
/-- The same of a file. -/
structure Unit.Clean (u : Unit) : Prop where
  package : ∀ p ∈ u.package, p.Clean tried
  imports : ∀ i ∈ u.imports, Tame i.name
  types : ∀ t ∈ u.types, t.Clean tried

theorem Package.Clean.settled {p : Package} (h : p.Clean tried) : Doc.Settled true true p.print := by
  refine ((settled_concat (List.forall_mem_map.2 fun d hd => ?_)).append (.text ?_)).append .newline
  · exact (h.1.settled d hd true).append .newline
  · exact (Tame.append (.of_isPlain (by decide)) h.2).append (.of_isPlain (by decide))

theorem settled_import {i : Import} (h : Tame i.name) : Doc.Settled true true i.print := by
  refine Settled.append (.text (.append (.append (.append (.append ?_ ?_) h) ?_) ?_)) .newline
  · exact .of_isPlain (by decide)
  · cases i.isStatic <;> exact .of_isPlain (by decide)
  · cases i.onDemand <;> exact .of_isPlain (by decide)
  · exact .of_isPlain (by decide)

theorem settled_joined {separator : Text} {ds : List Doc} (hseparator : Settled true true (.text separator))
    (h : ∀ d ∈ ds, Settled true true d) : Settled true true (.joined separator ds) := by
  induction ds with
  | nil => exact .empty
  | cons d ds ih =>
    rw [List.forall_mem_cons] at h
    cases ds with
    | nil => exact h.1
    | cons e ds => exact (h.1.append hseparator).append (ih h.2)

/-- The document of a file is settled. -/
theorem Unit.Clean.settled {u : Unit} (h : u.Clean tried) : Doc.Settled true true u.print := by
  refine settled_joined (.blank (.of_isPlain (by decide)) (by decide) (by decide)) ?_
  rw [List.forall_mem_append, List.forall_mem_append]
  refine ⟨⟨List.forall_mem_map.2 fun p hp => (h.package p (Option.mem_toList.1 hp)).settled, ?_⟩,
    List.forall_mem_map.2 fun t ht => (h.types t ht).settled⟩
  split
  · exact List.forall_mem_nil _
  · exact List.forall_mem_singleton.2 (settled_concat (List.forall_mem_map.2 fun i hi =>
      settled_import (h.imports i hi)))

end Java

end KiteCompiler
