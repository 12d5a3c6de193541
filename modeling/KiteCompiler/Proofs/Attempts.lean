import KiteCompiler.Proofs.SecondBarrier
import KiteCompiler.Proofs.Wrapping.Lowered

/-!
# Try statements

A `try` that is read without errors has a part besides its block: parentheses for resources, a `catch` or a `finally`
(`attended_of_no_errors`). The parentheses may be empty, though, and nothing is emitted for them then. Every `try` of
the Java tree, at any depth, is lowered from a `try` of the source, so this is the only way in which Java gets a `try`
with nothing but its block (`emitted_try_bare_iff`).
-/

namespace KiteCompiler

namespace Cst

/-- The parts of a `try` besides its block. -/
abbrev attendants : List Kind := [.resourceSpec, .catchClause, .finallyClause]

/-- One of the trees is a part of a `try` besides its block. -/
def Attending (ts : List Cst) : Prop := ∃ part ∈ ts, part.kind ∈ attendants

/-- Between the parentheses of a `try` there is no resource, and nothing is behind its block. -/
def EmptyTry (t : Cst) : Prop :=
  ∃ spec body : Cst, t.children = [spec, body] ∧ spec.kind = .resourceSpec ∧ spec.children = []

end Cst

namespace Grammar

open Cst (Attending attendants)

/-! ## The law -/

/-- All nodes but those of `try`. -/
abbrev isNoTry : Cst.Kind → Bool
  | .tryStmt => false
  | _ => true

/-- Without errors, a `try` has a part besides its block. -/
def attendance : NodeLaw :=
  .about isNoTry (fun k => by cases k <;> decide) State.Ready Onward.ready (Attending ·.children) fun _ _ h => h

instance {k : Cst.Kind} [h : Holds (isNoTry k)] : Free attendance k := .about h.eq_true

/-- A node of whose parts something is known. -/
theorem Keeps.finishing {L : NodeLaw} {kind : Cst.Kind} {p : Parser (List Cst)} (hp : Keeps L p) (start : Position)
    (hroot : ∀ s, L.Start s → (p s).2.errors ⊆ L.errors → ∀ l : Cst.Label, l.kind = kind → L.Holds (.node l (p s).1)) :
    Keeps L (p >>= Grammar.finish kind start) :=
  ⟨fun s hs h => .of_tree (Tree.every_node.2 ⟨hroot s hs h _ rfl, (hp.obeys s hs h).every⟩)⟩

section

variable (rules : Rules) [∀ p, Forward (rules p)]

/-- The parts of a `try`, whose error stands at its start. -/
def tryParts (start : Position) : Parser (List Cst) := do
  expect .kwTry
  let resources ← optionalAt .lparen do
    node .resourceSpec do
      skip
      let resources ← separatedUntil .rparen .semicolon (resource rules)
      expect .rparen
      return resources
  let body ← block rules
  let handlers ← manyAt .kwCatch (catchClause rules)
  let cleanup ← optionalAt .kwFinally do
    node .finallyClause do
      skip
      return [← block rules]
  if resources.isEmpty && handlers.isEmpty && cleanup.isEmpty then let _ ← report .tryWithoutHandler start
  return resources ++ body :: handlers ++ cleanup

omit [∀ p, Forward (rules p)] in
theorem tryStatement_eq : tryStatement rules = (do
    let start ← here
    finish .tryStmt start (← tryParts rules start)) := rfl

set_option synthInstance.maxSize 2000 in
theorem gives_attending (start : Position) : Gives (tryParts rules start) Attending := by
  have hoptional {k : Token.Kind} {kind : Cst.Kind} (hkind : kind ∈ attendants) (p : Parser (List Cst)) [Forward p] :
      Gives (optionalAt k (node kind p)) fun ts => ∀ t ∈ ts, t.kind ∈ attendants := by
    refine .past fun _ => .choice (.seq (root_node hkind p) (fun t ht => .of_has ?_) inferInstance)
      (.of_has (List.forall_mem_nil _))
    exact List.forall_mem_singleton.2 ht
  refine .past fun _ => .seq (hoptional (by decide) _) (fun resources hresources => ?_) inferInstance
  refine .past fun body => .seq (.manyWhile_all (root_node (K := attendants) (by decide) _))
    (fun handlers hhandlers => ?_) inferInstance
  refine .seq (hoptional (by decide) _) (fun cleanup hcleanup => ?_) inferInstance
  split
  · exact (Gives.report_never inferInstance).never
  · next hsome =>
    -- all that was read besides the block attends, and something was read
    have hattends : ∀ t ∈ resources ++ (handlers ++ cleanup), Cst.kind t ∈ attendants :=
      List.forall_mem_append.2 ⟨hresources, List.forall_mem_append.2 ⟨hhandlers, hcleanup⟩⟩
    obtain ⟨part, hpart⟩ := List.exists_mem_of_ne_nil (resources ++ (handlers ++ cleanup)) (by simp_all)
    refine .of_has ⟨part, ?_, hattends part hpart⟩
    simp only [List.mem_append, List.mem_cons] at hpart ⊢
    tauto

end

set_option synthInstance.maxSize 10000 in
instance : Keeps.KeepsTry attendance := by
  refine ⟨fun rules _ _ _ => ?_⟩
  have hforward (start : Position) : Forward (tryParts rules start) := (gives_attending rules start).forward
  have hparts (start : Position) : Keeps attendance (tryParts rules start) := by unfold tryParts; infer_instance
  rw [tryStatement_eq]
  refine Keeps.seq inferInstance inferInstance fun start => ?_
  refine (hparts start.1).finishing start.1 fun s hs herrors l _ _ => ?_
  exact (gives_attending rules start.1).gives s hs (List.subset_nil.1 herrors)

instance attended_rulesUpTo (depth : Nat) (p : Production) : Keeps attendance (rulesUpTo depth p) :=
  Keeps.rulesUpTo depth p

/-- In what is read without errors, every `try` has a part besides its block. -/
theorem attended_of_no_errors {start : Rules → Parser Cst} [∀ depth, Keeps attendance (start (rulesUpTo depth))]
    {source : Text} (h : (parse start source).errors = []) {t : Cst} (ht : t ∈ (parse start source).tree.subtrees)
    (hk : t.kind = .tryStmt) :
    Attending t.children :=
  every_parse (L := attendance) (initial_ready source) h t ht (by rw [hk])

end Grammar

namespace Ast.Reading

variable {direct : Prop} {t : Branch}

/-! ## What is read off a try -/

theorem each_eq_nil {α : Type} {g : Branch → Result α} {ds : List Decorated} {as : List α} (h : each g ds = .ok as) :
    as = [] ↔ ds = [] := by
  cases mapM_ok h with
  | nil => simp
  | cons => simp

/-- A `try` is read off the parentheses with its resources, if they are there, its block, and the clauses behind it. -/
inductive Tried (place : Place) : List Cst → Ast .stmt → Prop
  | intro {spec : Option Cst} {body : Cst} {clauses : List Cst} {resources : List (Ast .resource)} {b : Ast .block}
      {handlers : List (Ast .catchClause)} {cleanup : Ast (.option .block)} (hspec : ∀ s ∈ spec, s.kind = .resourceSpec)
      (hresources : resources = [] ↔ ∀ s ∈ spec, s.children = []) (hbody : body.kind = .block)
      (hclauses : handlers = [] ∧ cleanup = .absent ↔ clauses = []) :
    Tried place (spec.toList ++ body :: clauses) (.tryStmt place (ofList resources) b (ofList handlers) cleanup)

theorem tried_tryStmt {v : Ast .stmt} (ht : t.Trusted direct) (h : tryStmt t = .ok v) :
    Tried t.place (Tree.children t.tree) v := by
  rw [t.tree_eq]
  refine Reads.whole ht.children (.optional (fun d _ hd => .result fun ds hds => .result fun rs hrs => ?_)
    (.pureBind ?_)) h
  · obtain rfl := children_eq hds
    have hspec : ∀ s ∈ some d.tree, s.kind = .resourceSpec := fun s hs => Option.some.inj hs ▸ hd
    have hresources : rs = [] ↔ ∀ s ∈ some d.tree, s.children = [] := by
      rw [each_eq_nil hrs, Decorated.tree, d.branch.tree_eq]
      simp [Tree.children]
    refine .one fun d' _ hd' => .result fun _ _ => .many fun cs _ => .result fun handlers hhandlers =>
      .optional (fun _ _ _ => .result fun _ _ => .pureBind (.pure ?_)) (.pureBind (.pure ?_))
    · exact .intro hspec hresources hd' (by simp)
    · exact .intro hspec hresources hd' (by simp [each_eq_nil hhandlers])
  · have hspec : ∀ s ∈ (none : Option Cst), s.kind = .resourceSpec := by simp
    refine .one fun d' _ hd' => .result fun _ _ => .many fun cs _ => .result fun handlers hhandlers =>
      .optional (fun _ _ _ => .result fun _ _ => .pureBind (.pure ?_)) (.pureBind (.pure ?_))
    · exact .intro hspec (by simp) hd' (by simp)
    · exact .intro hspec (by simp) hd' (by simp [each_eq_nil hhandlers])

/-- Lowering a `try` that has a part besides its block. -/
theorem Tried.lowered {place : Place} {ts : List Cst} {s : Ast .stmt} (h : Tried place ts s)
    (hattending : Cst.Attending ts) :
    ∃ resources body handlers cleanup, s.lower = [.tryStmt resources body handlers cleanup] ∧
      (resources = .nil ∧ handlers = .nil ∧ cleanup = .absent ↔
        ∃ spec body : Cst, ts = [spec, body] ∧ spec.kind = .resourceSpec ∧ spec.children = []) := by
  cases h with
  | @intro spec body clauses resources b handlers cleanup hspec hresources hbody hclauses =>
    refine ⟨_, _, _, _, rfl, ?_⟩
    have hlist {c : Java.Category} (as : List (Java c)) : Java.ofList as = .nil ↔ as = [] := by
      cases as <;> simp [Java.ofList]
    have hempty {c : Category} (as : List (Ast c)) : (ofList as).lower = [] ↔ as = [] := by
      rw [lower_ofList, List.map_eq_nil_iff]
    have hoption : Java.ofOption (cleanup.lower.map fun b => Java.block (.ofList b)) = .absent ↔ cleanup = .absent := by
      cases cleanup with
      | absent => exact iff_of_true rfl rfl
      | present b => exact iff_of_false (fun h => by cases h) (fun h => by cases h)
    rw [hlist, hlist, hoption, show _ ↔ _ from hempty resources, show _ ↔ _ from hempty handlers, hclauses, hresources]
    constructor
    · rintro ⟨hempty, rfl⟩
      cases spec with
      | none =>
        obtain ⟨part, hpart, hkind⟩ := hattending
        rw [List.mem_singleton.1 hpart, hbody] at hkind
        exact absurd hkind (by decide)
      | some spec => exact ⟨spec, body, rfl, hspec spec rfl, hempty spec rfl⟩
    · rintro ⟨spec', body', hts, hkind, hchildren⟩
      cases spec with
      | none =>
        obtain ⟨rfl, -⟩ := List.cons.inj hts
        exact absurd (hbody.symm.trans hkind) (by decide)
      | some spec =>
        obtain ⟨rfl, htail⟩ := List.cons.inj hts
        exact ⟨fun s hs => Option.some.inj hs ▸ hchildren,
          (List.cons.inj (show body :: clauses = [body'] from htail)).2⟩

end Ast.Reading

/-! ## Emitted trees -/

namespace Java

/-- A `try` with nothing but its block. -/
def BareTry (x : Java .stmt) : Prop := ∃ body, x = tryStmt .nil body .nil .absent

/-- All `try` statements of a Java tree, at any depth. -/
def tries : {c : Category} → Java c → List (Java .stmt)
  | _, nil | _, absent | _, void | _, literal _ | _, name _ | _, thisRef _ | _, superRef _ | _, emptyStmt
  | _, breakStmt _ | _, continueStmt _ => []
  | _, present a | _, primitive a _ | _, classRef a | _, intersection a | _, dim a | _, memberValue _ a | _, header a _
  | _, access a _ | _, typeExpr a | _, arrayElements a | _, ofArrayElements a | _, ofAnnotationUse a | _, blockBody a
  | _, exprBody a | _, classLiteral a | _, unary _ _ a | _, enclosed a | _, block a | _, ofBlock a | _, ofVariables a
  | _, exprStmt a | _, labeledStmt _ a | _, returnStmt a | _, throwStmt a | _, namedResource a | _, switchLabel a
  | _, declarator _ a | _, ofTypeDecl a | _, ofField a | _, initializerDecl _ a => tries a
  | _, cons a b | _, type a b | _, typeParameter a _ b | _, annotationUse _ a b | _, index a b | _, methodRef a b _
  | _, level a b | _, lambda a _ b | _, binary _ a b | _, assign _ a b | _, cast a b | _, instanceOf a b
  | _, whileStmt a b | _, doStmt a b | _, switchStmt a b | _, synchronizedStmt a b | _, assertStmt a b
  | _, switchGroup a b | _, annotationTypeDecl a _ b => tries a ++ tries b
  | _, wildcard a b c | _, segment a b _ c _ | _, call a b _ c | _, arrayCreation a b c | _, conditional a b c
  | _, ifStmt a b c | _, forEachStmt a b c | _, constructorCall _ a b c | _, declaredResource a b _ c
  | _, catchClause a b _ c | _, variableDecl a b c | _, parameter a b _ c _ | _, annotationMemberDecl a b _ c =>
    tries a ++ (tries b ++ tries c)
  | _, tryStmt a b c d => tryStmt a b c d :: (tries a ++ (tries b ++ (tries c ++ tries d)))
  | _, interfaceDecl a _ b c d => tries a ++ (tries b ++ (tries c ++ tries d))
  | _, objectCreation a b c d e | _, forStmt a b c d e | _, classDecl a _ b c d e | _, constructorDecl a b _ c d e =>
    tries a ++ (tries b ++ (tries c ++ (tries d ++ tries e)))
  | _, methodDecl a b c _ d e f => tries a ++ (tries b ++ (tries c ++ (tries d ++ (tries e ++ tries f))))

/-- All `try` statements of a file. -/
def Unit.tries (u : Unit) : List (Java .stmt) :=
  (u.package.elim [] fun p => p.annotations.tries) ++ u.types.flatMap Java.tries

theorem Clean.tries {tried : Java .stmt → Prop} {c : Category} {j : Java c} (h : j.Clean tried) :
    ∀ x ∈ j.tries, tried x := by
  induction h with
  | nil | absent | void | literal | name | thisRef | superRef | emptyStmt | breakStmt | continueStmt =>
    exact List.forall_mem_nil _
  | tryStmt htried =>
    refine List.forall_mem_cons.2 ⟨htried, ?_⟩
    repeat' first | assumption | refine List.forall_mem_append.2 ⟨?_, ?_⟩
  | _ => repeat' first | assumption | refine List.forall_mem_append.2 ⟨?_, ?_⟩

theorem Unit.Clean.tries {tried : Java .stmt → Prop} {u : Unit} (h : u.Clean tried) : ∀ x ∈ u.tries, tried x := by
  refine List.forall_mem_append.2 ⟨?_, List.forall_mem_flatMap.2 fun t ht => (h.types t ht).tries⟩
  cases hp : u.package with
  | none => exact List.forall_mem_nil _
  | some p => exact (h.package p hp).1.tries

end Java

open Ast.Reading in
/-- A `try` of a source without errors is lowered to one `try` of Java. It has neither resources nor `catch` nor
`finally` just if there are parentheses without resources and nothing behind the block. -/
theorem lowered_try {source : Text} (h : (Grammar.parseUnit source).errors = []) {t : Cst}
    (ht : t ∈ (Grammar.parseUnit source).tree.subtrees) (hk : t.kind = .tryStmt) {s : Ast .stmt}
    (hs : (decorate t).read .stmt = .ok s) : ∃ resources body handlers cleanup,
      s.lower = [.tryStmt resources body handlers cleanup] ∧
        (resources = .nil ∧ handlers = .nil ∧ cleanup = .absent ↔ Cst.EmptyTry t) := by
  have hattending : Cst.Attending t.children := Grammar.attended_of_no_errors h ht hk
  have htree : (decorate t).branch.tree = t := (Ast.Decorated.tree_branch _).trans (source_decorate t)
  have hkind : (decorate t).branch.kind = .tryStmt := (congrArg Cst.kind htree).trans hk
  have hbare : t.Every Cst.Bare := (Grammar.bare_parse Grammar.compilationUnit source).below ht
  rw [read_decorate] at hs
  have hread : tryStmt (decorate t).branch = .ok s := by rwa [readings, stmt, hkind] at hs
  have htrusted : (decorate t).Trusted False := trusted_decorate hbare False.elim
  have htried := tried_tryStmt htrusted.branch hread
  rw [htree] at htried
  exact htried.lowered hattending

/-- **When a try is emitted bare.** Each `try` of a source without errors is lowered to one `try` of Java, which is bare
just if there are parentheses without resources and nothing behind the block. All `try` statements of the Java tree, at
any depth, are such ones. -/
theorem emitted_try_bare_iff {source : Text} (h : (Grammar.parseUnit source).errors = []) :
    (∀ t ∈ (Grammar.parseUnit source).tree.subtrees, Cst.kind t = .tryStmt →
      ∀ s : Ast .stmt, (Ast.Reading.decorate t).read .stmt = .ok s →
        ∃ resources body handlers cleanup, s.lower = [.tryStmt resources body handlers cleanup] ∧
          (resources = .nil ∧ handlers = .nil ∧ cleanup = .absent ↔ Cst.EmptyTry t)) ∧
    ∀ u, CompilationUnit.ofCst (Grammar.parseUnit source).tree = .ok u → ∀ x ∈ u.lower.tries,
      ∃ t ∈ (Grammar.parseUnit source).tree.subtrees, Cst.kind t = .tryStmt ∧
        (∃ s : Ast .stmt, (Ast.Reading.decorate t).read .stmt = .ok s ∧ s.lower = [x]) ∧
        (x.BareTry ↔ Cst.EmptyTry t) := by
  refine ⟨fun t ht hk s hs => lowered_try h ht hk hs, fun u hu => ?_⟩
  have hformed := Grammar.formed_of_no_errors h
  have hstands : u.Stands True _ :=
    Ast.stands_of_ofCst (Grammar.bare_parse Grammar.compilationUnit source) (fun _ => hformed) hu
  refine (hstands.clean fun t ht => ⟨hformed t ht, fun hk s hs x hx => ⟨t, ht, hk, ?_⟩⟩).tries
  obtain ⟨resources, body, handlers, cleanup, hlower, hbare⟩ := lowered_try h ht hk hs
  rw [hlower, List.mem_singleton] at hx
  subst hx
  refine ⟨⟨s, hs, hlower⟩, Iff.trans ?_ hbare⟩
  simp [Java.BareTry]

theorem emitted_try_bare_iff_nested :
    let parsed := Grammar.parseUnit "class A\x7b\x7btry(b)\x7btry()\x7b\x7d\x7dtry\x7b\x7dfinally\x7b\x7d\x7d\x7d"
    parsed.errors = [] ∧ ∃ u, CompilationUnit.ofCst parsed.tree = .ok u ∧ u.lower.tries.length = 3 ∧
      ∀ x ∈ u.lower.tries, ∃ t ∈ parsed.tree.subtrees, Cst.kind t = .tryStmt ∧
        (∃ s : Ast .stmt, (Ast.Reading.decorate t).read .stmt = .ok s ∧ s.lower = [x]) ∧
        (x.BareTry ↔ Cst.EmptyTry t) := by
  intro parsed
  have h : parsed.errors = [] := by decide +kernel
  obtain ⟨u, hu⟩ := Ast.Result.exists_of_isOk (x := CompilationUnit.ofCst parsed.tree) (by decide +kernel)
  have hthree : (CompilationUnit.ofCst parsed.tree).toOption.any (·.lower.tries.length == 3) = true := by decide +kernel
  rw [hu] at hthree
  exact ⟨h, u, hu, beq_iff_eq.1 hthree, (emitted_try_bare_iff h).2 u hu⟩

/-- Empty parentheses are accepted, and the `try` is emitted with its block alone. -/
theorem bare_try_emitted :
    let parsed := Grammar.parseUnit "class A\x7b\x7btry()\x7b\x7d\x7d\x7d"
    parsed.errors = [] ∧ (CompilationUnit.ofCst parsed.tree).toOption.map (·.lower.types) =
      some [.classDecl (.header .nil []) "A" .nil .absent .nil (.cons (.initializerDecl false
        (.block (.cons (.tryStmt .nil (.block .nil) .nil .absent) .nil))) .nil)] :=
  ⟨by decide +kernel, rfl⟩

end KiteCompiler
