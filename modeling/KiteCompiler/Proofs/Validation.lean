import KiteCompiler.Proofs.Subterms
import KiteCompiler.Proofs.Trees
import KiteCompiler.Validation
import Mathlib.Data.List.Induction
import Mathlib.Data.List.Perm.Basic

/-!
# What validation reports

The rules go over the nodes of a file, and each of them looks for the lists that it knows. What is to be found is said
here the other way round: `findingsAt` gives what a piece of syntax itself owes for its own lists, and `expected`
collects it from all pieces. Validation reports exactly that, in the order of the source (`validate_exact`).
-/

namespace KiteCompiler.Validation

/-! ## What is to be found -/

/-- The items with the key of an earlier item. -/
def twins (items : List Item) : List Item :=
  (items.zipIdx.filter fun (item, i) => (items.take i).any (·.key == item.key)).map Prod.fst

/-- An error for every item with the key of an earlier one. -/
def twinErrors (before after : Text) (items : List Item) : List Diagnostic :=
  (twins items).map fun item => ⟨.error, before ++ item.key ++ after, item.place⟩

/-- A keyword among others. -/
def keywordItem (m : Modifier) : Item := ⟨m.keyword, m.place⟩

/-- A type among others. -/
def typeItem {c : Category} (t : Ast c) : Item := ⟨t.typeText, t.place⟩

/-- A type parameter among others. -/
def typeParameterItem : Ast .typeParameter → Item
  | .typeParameter place _ n _ => ⟨n, place⟩

/-- A parameter among others. -/
def parameterItem : Ast .parameter → Item
  | .parameter place _ _ n _ _ _ => ⟨n, place⟩

/-- The errors in a list of type parameters. -/
def typeParameterErrors (ps : Ast (.list .typeParameter)) : List Diagnostic :=
  twinErrors "duplicate type parameter " [] (ps.toList.map typeParameterItem)

/-- The errors in a list of parameters. -/
def parameterErrors (ps : Ast (.list .parameter)) : List Diagnostic :=
  twinErrors "duplicate parameter " [] (ps.toList.map parameterItem)

/-- The errors in a list of exceptions. -/
def exceptionErrors (es : Ast (.list .exception)) : List Diagnostic :=
  twinErrors "duplicate exception type " " in throws clause" (es.toList.map typeItem)

/-- The warnings about the keywords of an interface. -/
def abstractWarnings (n : Text) (h : Ast .header) : List Diagnostic :=
  (h.keywords.filter fun m => m.keyword = Text.ofString "abstract").map fun m =>
    ⟨.warning, "redundant modifier abstract on interface " ++ n, m.place⟩

/-- What is to be found at a piece of syntax because of its own lists. -/
def findingsAt : {c : Category} → Ast c → List Diagnostic
  | _, .header _ ms => twinErrors "duplicate modifier " [] (ms.map keywordItem)
  | _, .classDecl _ _ ps _ _ _ interfaces _ =>
    typeParameterErrors ps ++ twinErrors "duplicate interface " " in of clause" (interfaces.toList.map typeItem)
  | _, .interfaceDecl _ h ps n _ bases _ =>
    typeParameterErrors ps ++ (twinErrors "duplicate interface " " in extends clause" (bases.toList.map typeItem)
      ++ abstractWarnings n h)
  | _, .methodDecl _ _ _ ps _ _ parameters _ exceptions _ =>
    typeParameterErrors ps ++ (exceptionErrors exceptions ++ parameterErrors parameters)
  | _, .constructorDecl _ _ ps _ parameters exceptions _ _ =>
    typeParameterErrors ps ++ (exceptionErrors exceptions ++ parameterErrors parameters)
  | _, .lambda _ parameters _ _ => parameterErrors parameters
  | _, _ => []

/-- The error if a type is not named after its file. -/
def nameErrors (file : Text) (d : Ast.Declared) : List Diagnostic :=
  if file ≠ [] ∧ d.name ≠ Path.stem file then
    [⟨.error, "type " ++ d.name ++ " must be declared in a file named " ++ d.name ++ ".kite, not " ++ Path.base file,
      d.namePlace⟩]
  else []

/-- The errors for the keywords that the type of a file must not have. -/
def topLevelErrors (d : Ast.Declared) : List Diagnostic :=
  (d.modifiers.filter fun m =>
      m.keyword ∉ ["public", "abstract", "final", "strictfp"].map Text.ofString).map fun m =>
    ⟨.error, "modifier " ++ m.keyword ++ " not allowed on a top-level type", m.place⟩

/-- All that is to be found in a file. -/
def expected (file : Text) (u : CompilationUnit) : List Diagnostic :=
  nameErrors file u.type.declared ++ topLevelErrors u.type.declared ++ u.subterms.flatMap fun p => findingsAt p.2

/-- By line, and in the same line by column. -/
def InOrder (p q : Place) : Prop := p.line < q.line ∨ p.line = q.line ∧ p.column ≤ q.column
  deriving Decidable

/-! ## Repeated items -/

theorem twins_append (items : List Item) (item : Item) :
    twins (items ++ [item]) = twins items ++ if item.key ∈ items.map Item.key then [item] else [] := by
  have hbefore : items.zipIdx.filter (fun x => ((items ++ [item]).take x.2).any (·.key == x.1.key)) =
      items.zipIdx.filter fun x => (items.take x.2).any (·.key == x.1.key) := by
    refine List.filter_congr fun x hx => ?_
    have hlt := (List.mem_zipIdx hx).2.1
    rw [List.take_append_of_le_length (by omega)]
  rw [twins, twins, List.zipIdx_append, List.filter_append, List.map_append, hbefore]
  refine congrArg (_ ++ ·) ?_
  by_cases h : item.key ∈ items.map Item.key
  · simp_all
  · simp_all

theorem repeated_append (seen : List Text) (items : List Item) (item : Item) :
    repeated seen (items ++ [item]) =
      repeated seen items ++ if item.key ∈ seen ∨ item.key ∈ items.map Item.key then [item] else [] := by
  induction items generalizing seen with
  | nil => simp [repeated]
  | cons first items ih =>
    rw [List.cons_append, repeated, repeated]
    split
    · next h =>
      have hfirst : first.key ∈ seen := by simpa using h
      rw [ih]
      grind
    · rw [ih]
      grind

/-- The items that have been seen before are those with the key of an earlier item. -/
theorem repeated_nil (items : List Item) : repeated [] items = twins items := by
  induction items using List.reverseRecOn with
  | nil => rfl
  | append_singleton items item ih => rw [repeated_append, twins_append, ih]; simp

theorem duplicates_eq (before after : Text) (items : List Item) :
    duplicates before after items = twinErrors before after items := by
  rw [duplicates, twinErrors, repeated_nil]

/-! ## All nodes -/

/-- What all rules find at a node. -/
def foundAt (file : Text) (n : Node) : List Diagnostic := (rules file).flatMap (·.check n)

/-- The errors in the keywords of a declaration. -/
def keywordErrors (h : Ast .header) : List Diagnostic :=
  twinErrors "duplicate modifier " [] (h.keywords.map keywordItem)

/-- What is to be found at the pieces is what the rules find in the trees, and `more`. -/
def Covered (file : Text) (more : List Diagnostic) (ts : List (Tree Node)) (ps : List Ast.Piece) : Prop :=
  (ps.flatMap fun p => findingsAt p.2).Perm (more ++ (ts.flatMap Tree.preorder).flatMap (foundAt file))

namespace Covered

variable {file : Text} {more : List Diagnostic} {ts us : List (Tree Node)} {ps qs : List Ast.Piece} {c : Category}
  {a : Ast c} {h : Ast .header}

theorem nil : Covered file [] [] [] := .refl _

theorem append {more' : List Diagnostic} (hts : Covered file more ts ps) (hus : Covered file more' us qs) :
    Covered file (more ++ more') (ts ++ us) (ps ++ qs) := by
  unfold Covered at *
  simp only [List.flatMap_append]
  refine (hts.append hus).trans ?_
  rw [List.append_assoc, List.append_assoc]
  refine List.Perm.append_left _ ?_
  rw [← List.append_assoc, ← List.append_assoc]
  exact List.perm_append_comm.append_right _

theorem also (hts : Covered file more ts ps) (hus : Covered file [] us qs) :
    Covered file more (ts ++ us) (ps ++ qs) := by
  rw [← List.append_nil more]
  exact hts.append hus

theorem node (ha : foundAt file (.term a) = findingsAt a) (hts : Covered file [] ts ps) :
    Covered file [] [.node (.term a) ts] (⟨c, a⟩ :: ps) := by
  unfold Covered at *
  simp only [List.flatMap_cons, List.flatMap_nil, List.append_nil, Tree.preorder_node, ha]
  exact hts.append_left _

/-- The keywords of a declaration are looked at with the declaration. -/
theorem declaration (ha : foundAt file (.term a) = keywordErrors h ++ findingsAt a)
    (hts : Covered file (keywordErrors h) ts ps) : Covered file [] [.node (.term a) ts] (⟨c, a⟩ :: ps) := by
  unfold Covered at *
  simp only [List.flatMap_cons, List.flatMap_nil, List.append_nil, Tree.preorder_node, ha, List.nil_append]
  refine (hts.append_left _).trans ?_
  rw [← List.append_assoc]
  exact List.perm_append_comm.append_right _

/-- A piece that only stands for another one has no node. -/
theorem wrapper (ha : findingsAt a = []) (hts : Covered file more ts ps) : Covered file more ts (⟨c, a⟩ :: ps) := by
  unfold Covered at *
  rwa [List.flatMap_cons, ha]

theorem name (q : QualifiedName) (hts : Covered file [] ts ps) : Covered file [] (Ast.nameTree q :: ts) ps := by
  unfold Covered at *
  rw [List.flatMap_cons, List.flatMap_append, Ast.nameTree, Tree.preorder_node]
  exact hts

theorem header {annotations : Ast (.list .annotationUse)} {ms : List Modifier} (hts : Covered file [] ts ps) :
    Covered file (keywordErrors (.header annotations ms)) (ts ++ Ast.modifierTrees ms)
      (⟨_, .header annotations ms⟩ :: ps) := by
  have hmodifiers : ((Ast.modifierTrees ms).flatMap Tree.preorder).flatMap (foundAt file) = [] := by
    induction ms with
    | nil => rfl
    | cons m ms ih => exact ih
  unfold Covered at *
  rw [List.flatMap_append, List.flatMap_append, hmodifiers, List.append_nil]
  exact hts.append_left _

end Covered

/-- The errors in keywords that are not looked for at the piece itself, but at the declaration that it is the header
of. -/
def leftToOwner : {c : Category} → Ast c → List Diagnostic
  | _, .header annotations ms => keywordErrors (.header annotations ms)
  | _, .cons a as => leftToOwner a ++ leftToOwner as
  | _, .present a => leftToOwner a
  | _, _ => []

/-- The category of the elements of a list or of an optional part. -/
def elementCategory : Category → Category
  | .list c | .option c => elementCategory c
  | c => c

theorem leftToOwner_header (h : Ast .header) : leftToOwner h = keywordErrors h := by
  cases h
  rfl

theorem leftToOwner_eq_nil {c : Category} (a : Ast c) (hc : elementCategory c ≠ .header) : leftToOwner a = [] := by
  induction a with
  | header => exact absurd rfl hc
  | cons a as ha has =>
    change leftToOwner a ++ leftToOwner as = []
    rw [ha hc, has hc, List.append_nil]
  | present a ih => exact ih hc
  | _ => rfl

theorem covered (file : Text) {c : Category} (a : Ast c) : Covered file (leftToOwner a) a.forest a.subterms := by
  induction a with try simp +decide only [leftToOwner_header, leftToOwner_eq_nil] at *
  | nil | absent => exact .nil
  | present _ ih => exact ih.also .nil
  | cons a as ha has => exact ha.append (has.also .nil)
  | header annotations ms ih => exact .header (.also ih .nil)
  | void | literal | name | emptyStmt | breakStmt | continueStmt => exact .node rfl .nil
  | marker _ q => exact .node rfl (.name q .nil)
  | thisRef _ q | superRef _ q =>
    cases q with
    | none => exact .node rfl .nil
    | some q => exact .node rfl (.name q .nil)
  | classRef | ofReference | ofArrayElements | ofAnnotationUse | blockBody | exprBody | ofBlock | ofVariables
  | ofTypeDecl | ofField | ofConstant => exact .wrapper rfl (.also ‹_› .nil)
  | single | normal => exact .node rfl (.name _ (.also ‹_› .nil))
  | primitive | exception | dim | memberValue | typeExpr | arrayElements | typeLiteral | unary | enclosed | block
  | exprStmt | labeledStmt | returnStmt | throwStmt | switchLabel | initializerDecl => exact .node rfl (.also ‹_› .nil)
  | array | typeParameter | access | call | index | methodRef | level | binary | assign | cast | instanceOf | whileStmt
  | doStmt | switchStmt | synchronizedStmt | assertStmt | catchClause | switchGroup | declarator =>
    exact .node rfl (.also ‹_› (.also ‹_› .nil))
  | wildcard | segment | arrayCreation | conditional | ifStmt | forEachStmt | constructorCall =>
    exact .node rfl (.also ‹_› (.also ‹_› (.also ‹_› .nil)))
  | tryStmt => exact .node rfl (.also ‹_› (.also ‹_› (.also ‹_› (.also ‹_› .nil))))
  | objectCreation | forStmt =>
    exact .node rfl (.also ‹_› (.also ‹_› (.also ‹_› (.also ‹_› (.also ‹_› .nil)))))
  | lambda =>
    refine .node ?_ (.also ‹_› (.also ‹_› .nil))
    change duplicates _ _ _ ++ [] = _
    rw [duplicates_eq, List.append_nil]
    rfl
  | resource | variableDecl =>
    refine .declaration ?_ (.also ‹_› (.also ‹_› (.also ‹_› .nil)))
    change duplicates _ _ _ ++ [] = _
    rw [duplicates_eq]
    rfl
  | catchParameter | annotationTypeDecl =>
    refine .declaration ?_ (.also ‹_› (.also ‹_› .nil))
    change duplicates _ _ _ ++ [] = _
    rw [duplicates_eq]
    rfl
  | parameter | annotationMemberDecl =>
    refine .declaration ?_ (.also ‹_› (.also ‹_› (.also ‹_› (.also ‹_› .nil))))
    change duplicates _ _ _ ++ [] = _
    rw [duplicates_eq]
    rfl
  | classDecl =>
    refine .declaration ?_ (.also ‹_› (.also ‹_› (.also ‹_› (.also ‹_› (.also ‹_› .nil)))))
    change duplicates _ _ _ ++ (duplicates _ _ _ ++ (duplicates _ _ _ ++ [])) = _
    simp only [duplicates_eq, List.append_nil]
    rfl
  | interfaceDecl =>
    refine .declaration ?_ (.also ‹_› (.also ‹_› (.also ‹_› (.also ‹_› .nil))))
    change duplicates _ _ _ ++ (duplicates _ _ _ ++ (duplicates _ _ _ ++ (abstractWarnings _ _ ++ []))) = _
    simp only [duplicates_eq, List.append_nil]
    rfl
  | methodDecl =>
    refine .declaration ?_ (.also ‹_› (.also ‹_› (.also ‹_› (.also ‹_› (.also ‹_› (.also ‹_› (.also ‹_› .nil)))))))
    change duplicates _ _ _ ++ (duplicates _ _ _ ++ (duplicates _ _ _ ++ (duplicates _ _ _ ++ []))) = _
    simp only [duplicates_eq, List.append_nil]
    rfl
  | constructorDecl =>
    refine .declaration ?_ (.also ‹_› (.also ‹_› (.also ‹_› (.also ‹_› (.also ‹_› (.also ‹_› .nil))))))
    change duplicates _ _ _ ++ (duplicates _ _ _ ++ (duplicates _ _ _ ++ (duplicates _ _ _ ++ []))) = _
    simp only [duplicates_eq, List.append_nil]
    rfl

/-! ## Files -/

theorem foundAt_unit (file : Text) (u : CompilationUnit) :
    foundAt file (.unit u) = nameErrors file u.type.declared ++ topLevelErrors u.type.declared := by
  have hname : Rule.check (.typeNameMatchesFile file) (.unit u) = nameErrors file u.type.declared := by
    by_cases hfile : file = [] <;> by_cases hstem : u.type.declared.name = Path.stem file <;>
      simp [Rule.check, nameErrors, hfile, hstem]
  have htop : Rule.check .topLevelModifiers (.unit u) = topLevelErrors u.type.declared := by
    simp [Rule.check, topLevelErrors, topLevelKeywords]
  rw [← hname, ← htop]
  change _ ++ (_ ++ []) = _
  rw [List.append_nil]

/-- What the rules find in a file is what is to be found there. -/
theorem flatMap_foundAt_tree (file : Text) (u : CompilationUnit) :
    (u.tree.preorder.flatMap (foundAt file)).Perm (expected file u) := by
  have hannotations := covered file u.package.annotations
  have htype := covered file u.type
  rw [leftToOwner_eq_nil _ (by decide)] at hannotations htype
  have hnames (qs : List QualifiedName) :
      ((qs.map Ast.nameTree).flatMap Tree.preorder).flatMap (foundAt file) = [] := by
    induction qs with
    | nil => rfl
    | cons q qs ih => exact ih
  have himports :
      ((u.imports.map fun i => Tree.node (.importDecl i) [Ast.nameTree i.name]).flatMap Tree.preorder).flatMap
        (foundAt file) = [] := by
    induction u.imports with
    | nil => rfl
    | cons i is ih => exact ih
  have htree : u.tree.preorder.flatMap (foundAt file) = nameErrors file u.type.declared ++
      topLevelErrors u.type.declared ++ ((u.package.annotations.forest.flatMap Tree.preorder).flatMap (foundAt file) ++
        (u.type.forest.flatMap Tree.preorder).flatMap (foundAt file)) := by
    rw [CompilationUnit.tree, Tree.preorder_node, List.flatMap_cons, foundAt_unit]
    congr 1
    rw [List.cons_append, List.flatMap_cons, Tree.preorder_node, List.cons_append, List.flatMap_cons]
    simp only [List.flatMap_append, himports, hnames, List.append_nil, List.nil_append]
    rfl
  rw [htree, expected, CompilationUnit.subterms, List.flatMap_append]
  exact List.Perm.append_left _ (hannotations.symm.append htype.symm)

/-! ## The order of the source -/

theorem notAfter_iff {a b : Diagnostic} : notAfter a b = true ↔ InOrder a.place b.place := by
  simp only [notAfter, Place.before, InOrder, Bool.not_eq_true']
  split <;> simp <;> omega

theorem InOrder.antisymm {p q : Place} (hpq : InOrder p q) (hqp : InOrder q p) : p = q := by
  obtain ⟨line, column⟩ := p
  obtain ⟨line', column'⟩ := q
  simp only [InOrder, Place.mk.injEq] at *
  omega

theorem pairwise_apply (rs : List Rule) (t : Tree Node) : (apply rs t).Pairwise fun a b => InOrder a.place b.place := by
  have hsorted : (apply rs t).Pairwise fun a b => notAfter a b = true := by
    refine List.pairwise_mergeSort (fun a b c hab hbc => ?_) (fun a b => ?_) _
    · rw [notAfter_iff, InOrder] at *
      omega
    · rw [Bool.or_eq_true, notAfter_iff, notAfter_iff, InOrder, InOrder]
      omega
  exact hsorted.imp notAfter_iff.1

theorem apply_perm {rs rs' : List Rule} (h : rs.Perm rs') (t : Tree Node) : (apply rs t).Perm (apply rs' t) := by
  refine (List.mergeSort_perm _ _).trans (.trans ?_ (List.mergeSort_perm _ _).symm)
  exact List.Perm.flatMap_left _ fun n _ => h.flatMap_right _

/-- In another order the rules find something at the same places. -/
theorem map_place_apply {rs rs' : List Rule} (h : rs.Perm rs') (t : Tree Node) :
    (apply rs t).map (·.place) = (apply rs' t).map (·.place) :=
  List.Perm.eq_of_pairwise (fun _ _ _ _ => InOrder.antisymm) (List.pairwise_map.2 (pairwise_apply rs t))
    (List.pairwise_map.2 (pairwise_apply rs' t)) ((apply_perm h t).map _)

end KiteCompiler.Validation
