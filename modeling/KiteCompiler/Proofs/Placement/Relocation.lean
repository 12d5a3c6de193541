import KiteCompiler.Java.Lowering
import KiteCompiler.Proofs.Trees
import KiteCompiler.Validation

/-!
# Moving syntax to other places

`Ast.relocate g` moves every node of a piece of syntax by a map `g` of places. What the compiler says and writes does
not come from the places: the Java syntax stays the same (`lower_relocate`), the texts and names that are compared stay
the same, and what the rules find moves along with the nodes (`Rule.check_relocate`). What is in no source has no place
to be moved: an added `final` and the package of a file without one stay as they are. They are not told apart from other
nodes where `g` is asked to keep `Place.none`.
-/

namespace KiteCompiler

/-- The name at another place. -/
def QualifiedName.relocate (g : Place → Place) (q : QualifiedName) : QualifiedName := ⟨g q.place, q.parts⟩

/-- The keyword at another place. -/
def Modifier.relocate (g : Place → Place) (m : Modifier) : Modifier := ⟨g m.place, m.keyword⟩

/-- The keywords at other places. A `final` that was added to them is at no place and stays there. -/
def Modifier.relocateAll (g : Place → Place) (ms : List Modifier) : List Modifier :=
  if immutableByDefault ms.dropLast = ms then immutableByDefault (ms.dropLast.map (·.relocate g))
  else ms.map (·.relocate g)

/-- The message about another place. -/
def Diagnostic.relocate (g : Place → Place) (d : Diagnostic) : Diagnostic := ⟨d.severity, d.message, g d.place⟩

/-- Syntax of the category is at a place of its own. -/
def Category.hasPlace : Category → Bool
  | list _ | option _ | header => false
  | _ => true

namespace Ast

/-- The syntax with all nodes moved. -/
def relocate (g : Place → Place) : {c : Category} → Ast c → Ast c
  | _, nil => nil
  | _, cons a as => cons (a.relocate g) (as.relocate g)
  | _, absent => absent
  | _, present a => present (a.relocate g)
  | _, primitive p annotations n => primitive (g p) (annotations.relocate g) n
  | _, classRef t => classRef (t.relocate g)
  | _, array p component annotations => array (g p) (component.relocate g) (annotations.relocate g)
  | _, wildcard p annotations upper lower' =>
    wildcard (g p) (annotations.relocate g) (upper.relocate g) (lower'.relocate g)
  | _, void p => void (g p)
  | _, segment p scope annotations n arguments diamond =>
    segment (g p) (scope.relocate g) (annotations.relocate g) n (arguments.relocate g) diamond
  | _, typeParameter p annotations n bounds => typeParameter (g p) (annotations.relocate g) n (bounds.relocate g)
  | _, exception p t => exception (g p) (t.relocate g)
  | _, dim p annotations => dim (g p) (annotations.relocate g)
  | _, marker p n => marker (g p) (n.relocate g)
  | _, single p n value => single (g p) (n.relocate g) (value.relocate g)
  | _, normal p n pairs => normal (g p) (n.relocate g) (pairs.relocate g)
  | _, memberValue p n value => memberValue (g p) n (value.relocate g)
  | _, header annotations ms => header (annotations.relocate g) (Modifier.relocateAll g ms)
  | _, literal p value => literal (g p) value
  | _, name p n => name (g p) n
  | _, access p scope typeArguments n => access (g p) (scope.relocate g) (typeArguments.relocate g) n
  | _, ofReference r => ofReference (r.relocate g)
  | _, call p target arguments => call (g p) (target.relocate g) (arguments.relocate g)
  | _, index p a i => index (g p) (a.relocate g) (i.relocate g)
  | _, methodRef p scope typeArguments n => methodRef (g p) (scope.relocate g) (typeArguments.relocate g) n
  | _, typeExpr p t => typeExpr (g p) (t.relocate g)
  | _, objectCreation p scope typeArguments t arguments body =>
    objectCreation (g p) (scope.relocate g) (typeArguments.relocate g) (t.relocate g) (arguments.relocate g)
      (body.relocate g)
  | _, arrayCreation p element levels elements =>
    arrayCreation (g p) (element.relocate g) (levels.relocate g) (elements.relocate g)
  | _, level p annotations length => level (g p) (annotations.relocate g) (length.relocate g)
  | _, arrayElements p values => arrayElements (g p) (values.relocate g)
  | _, ofArrayElements elements => ofArrayElements (elements.relocate g)
  | _, ofAnnotationUse value => ofAnnotationUse (value.relocate g)
  | _, lambda p parameters parenthesized body => lambda (g p) (parameters.relocate g) parenthesized (body.relocate g)
  | _, blockBody b => blockBody (b.relocate g)
  | _, exprBody e => exprBody (e.relocate g)
  | _, thisRef p qualifier => thisRef (g p) (qualifier.map (·.relocate g))
  | _, superRef p qualifier => superRef (g p) (qualifier.map (·.relocate g))
  | _, typeLiteral p t => typeLiteral (g p) (t.relocate g)
  | _, binary p operator left right => binary (g p) operator (left.relocate g) (right.relocate g)
  | _, unary p operator behind operand => unary (g p) operator behind (operand.relocate g)
  | _, assign p operator target value => assign (g p) operator (target.relocate g) (value.relocate g)
  | _, conditional p condition yes no => conditional (g p) (condition.relocate g) (yes.relocate g) (no.relocate g)
  | _, cast p types operand => cast (g p) (types.relocate g) (operand.relocate g)
  | _, instanceOf p operand t => instanceOf (g p) (operand.relocate g) (t.relocate g)
  | _, enclosed p inner => enclosed (g p) (inner.relocate g)
  | _, block p statements => block (g p) (statements.relocate g)
  | _, ofBlock b => ofBlock (b.relocate g)
  | _, ofVariables d => ofVariables (d.relocate g)
  | _, emptyStmt p => emptyStmt (g p)
  | _, exprStmt p e => exprStmt (g p) (e.relocate g)
  | _, ifStmt p condition yes no => ifStmt (g p) (condition.relocate g) (yes.relocate g) (no.relocate g)
  | _, whileStmt p condition body => whileStmt (g p) (condition.relocate g) (body.relocate g)
  | _, doStmt p body condition => doStmt (g p) (body.relocate g) (condition.relocate g)
  | _, forStmt p d start condition step body =>
    forStmt (g p) (d.relocate g) (start.relocate g) (condition.relocate g) (step.relocate g) (body.relocate g)
  | _, forEachStmt p binder collection body =>
    forEachStmt (g p) (binder.relocate g) (collection.relocate g) (body.relocate g)
  | _, tryStmt p resources body handlers cleanup =>
    tryStmt (g p) (resources.relocate g) (body.relocate g) (handlers.relocate g) (cleanup.relocate g)
  | _, switchStmt p selector groups => switchStmt (g p) (selector.relocate g) (groups.relocate g)
  | _, synchronizedStmt p lock body => synchronizedStmt (g p) (lock.relocate g) (body.relocate g)
  | _, labeledStmt p label body => labeledStmt (g p) label (body.relocate g)
  | _, breakStmt p label => breakStmt (g p) label
  | _, continueStmt p label => continueStmt (g p) label
  | _, returnStmt p value => returnStmt (g p) (value.relocate g)
  | _, throwStmt p e => throwStmt (g p) (e.relocate g)
  | _, assertStmt p condition message => assertStmt (g p) (condition.relocate g) (message.relocate g)
  | _, resource p h t n value => resource (g p) (h.relocate g) (t.relocate g) n (value.relocate g)
  | _, catchClause p binder body => catchClause (g p) (binder.relocate g) (body.relocate g)
  | _, catchParameter p h types n => catchParameter (g p) (h.relocate g) (types.relocate g) n
  | _, switchGroup p labels statements => switchGroup (g p) (labels.relocate g) (statements.relocate g)
  | _, switchLabel p value => switchLabel (g p) (value.relocate g)
  | _, declarator p n dims value => declarator (g p) n (dims.relocate g) (value.relocate g)
  | _, variableDecl p h t declarators => variableDecl (g p) (h.relocate g) (t.relocate g) (declarators.relocate g)
  | _, parameter p h t n dims varargs varargAnnotations =>
    parameter (g p) (h.relocate g) (t.relocate g) n (dims.relocate g) varargs (varargAnnotations.relocate g)
  | _, classDecl p h typeParameters n q base interfaces members =>
    classDecl (g p) (h.relocate g) (typeParameters.relocate g) n (g q) (base.relocate g)
      (interfaces.relocate g) (members.relocate g)
  | _, interfaceDecl p h typeParameters n q bases members =>
    interfaceDecl (g p) (h.relocate g) (typeParameters.relocate g) n (g q) (bases.relocate g) (members.relocate g)
  | _, annotationTypeDecl p h n q members => annotationTypeDecl (g p) (h.relocate g) n (g q) (members.relocate g)
  | _, ofTypeDecl d => ofTypeDecl (d.relocate g)
  | _, ofField d => ofField (d.relocate g)
  | _, ofConstant d => ofConstant (d.relocate g)
  | _, methodDecl p inInterface h typeParameters result n parameters dims exceptions body =>
    methodDecl (g p) inInterface (h.relocate g) (typeParameters.relocate g) (result.relocate g) n
      (parameters.relocate g) (dims.relocate g) (exceptions.relocate g) (body.relocate g)
  | _, annotationMemberDecl p h t n dims fallback =>
    annotationMemberDecl (g p) (h.relocate g) (t.relocate g) n (dims.relocate g) (fallback.relocate g)
  | _, constructorDecl p h typeParameters n parameters exceptions other body =>
    constructorDecl (g p) (h.relocate g) (typeParameters.relocate g) n (parameters.relocate g)
      (exceptions.relocate g) (other.relocate g) (body.relocate g)
  | _, constructorCall p isThis scope typeArguments arguments =>
    constructorCall (g p) isThis (scope.relocate g) (typeArguments.relocate g) (arguments.relocate g)
  | _, initializerDecl p isStatic body => initializerDecl (g p) isStatic (body.relocate g)

end Ast

/-- The package with all nodes moved; without a name it is at no place. -/
def PackageDecl.relocate (g : Place → Place) (p : PackageDecl) : PackageDecl :=
  ⟨if p.name.isSome then g p.place else p.place, p.annotations.relocate g, p.name.map (·.relocate g)⟩

/-- The import with all nodes moved. -/
def ImportDecl.relocate (g : Place → Place) (i : ImportDecl) : ImportDecl :=
  ⟨g i.place, i.isStatic, i.name.relocate g, i.onDemand⟩

/-- The file with all nodes moved. -/
def CompilationUnit.relocate (g : Place → Place) (u : CompilationUnit) : CompilationUnit :=
  ⟨g u.place, u.package.relocate g, u.imports.map (·.relocate g), u.type.relocate g⟩

/-- The node with all nodes below it moved. -/
def Node.relocate (g : Place → Place) : Node → Node
  | unit u => unit (u.relocate g)
  | package p => package (p.relocate g)
  | importDecl i => importDecl (i.relocate g)
  | name q => name (q.relocate g)
  | modifier m => modifier (m.relocate g)
  | term t => term (t.relocate g)

section Relocation

variable {g : Place → Place}

@[simp] theorem QualifiedName.text_relocate (q : QualifiedName) : (q.relocate g).text = q.text := rfl

namespace Modifier

theorem contains_relocate (ms : List Modifier) (keyword : Text) :
    contains (ms.map (relocate g)) keyword = contains ms keyword := by
  simp [contains, relocate, List.any_map, Function.comp_def]

theorem immutableByDefault_relocate (hnone : g .none = .none) (ms : List Modifier) :
    immutableByDefault (ms.map (relocate g)) = (immutableByDefault ms).map (relocate g) := by
  simp only [immutableByDefault, contains_relocate]
  split
  · rfl
  · simp [relocate, hnone]

theorem relocateAll_eq_map (hnone : g .none = .none) (ms : List Modifier) : relocateAll g ms = ms.map (relocate g) := by
  unfold relocateAll
  split
  · rename_i h
    rw [immutableByDefault_relocate hnone, h]
  · rfl

theorem map_keyword_relocateAll (ms : List Modifier) : (relocateAll g ms).map (·.keyword) = ms.map (·.keyword) := by
  have hwritten (ms : List Modifier) : (ms.map (relocate g)).map (·.keyword) = ms.map (·.keyword) := by
    simp [relocate, Function.comp_def]
  unfold relocateAll
  split
  · rename_i h
    conv => rhs; rw [← h]
    simp only [immutableByDefault, contains_relocate]
    split
    · exact hwritten _
    · rw [List.map_append, List.map_append, hwritten]
  · exact hwritten ms

/-- Modifiers that were written. -/
def Written (ms : List Modifier) : Prop := ∀ m ∈ ms, m.place ≠ .none

/-- Nothing was added to written modifiers. -/
theorem Written.relocateAll_eq {ms : List Modifier} (h : Written ms) : relocateAll g ms = ms.map (relocate g) := by
  unfold relocateAll
  refine if_neg fun heq => ?_
  unfold immutableByDefault at heq
  split at heq
  · -- only of an empty list the last element can be left out without a change, and it has no keywords
    rename_i hcontains
    have hlength := congrArg List.length heq
    rw [List.length_dropLast] at hlength
    obtain rfl : ms = [] := List.length_eq_zero_iff.1 (by omega)
    simp [contains] at hcontains
  · exact h ⟨.none, "final"⟩ (heq ▸ by simp) rfl

theorem Written.relocateAll_immutableByDefault {ms : List Modifier} (h : Written ms) :
    relocateAll g (immutableByDefault ms) = immutableByDefault (ms.map (relocate g)) := by
  by_cases hcontains : (contains ms "final" || contains ms "mutable") = true
  · have hsame : immutableByDefault ms = ms := if_pos hcontains
    rw [hsame, h.relocateAll_eq, immutableByDefault, contains_relocate, contains_relocate, if_pos hcontains]
  · have hadded : immutableByDefault ms = ms ++ [⟨.none, "final"⟩] := if_neg hcontains
    have hlast : (immutableByDefault ms).dropLast = ms := by rw [hadded, List.dropLast_concat]
    rw [relocateAll, hlast, if_pos rfl]

end Modifier

namespace Ast

/-! ## Lists, options and types -/

@[simp] theorem toList_relocate {c : Category} :
    (as : Ast (.list c)) → (as.relocate g).toList = as.toList.map (relocate g)
  | nil => by
    change toList nil = _
    simp [toList]
  | cons a as => by
    change toList (cons (a.relocate g) (as.relocate g)) = _
    simp [toList, toList_relocate as]

@[simp] theorem isEmpty_relocate {c : Category} (as : Ast (.list c)) : (as.relocate g).isEmpty = as.isEmpty := by
  simp [isEmpty]

@[simp] theorem keywords_relocate (h : Ast .header) : (h.relocate g).keywords = Modifier.relocateAll g h.keywords := by
  cases h
  rfl

theorem declared_relocate (d : Ast .typeDecl) :
    (d.relocate g).declared =
      ⟨d.declared.name, g d.declared.namePlace, Modifier.relocateAll g d.declared.modifiers⟩ := by
  cases d <;> exact congrArg (Declared.mk _ _) (keywords_relocate _)

/-! ## Kinds, places, names and texts -/

theorem place_relocate {c : Category} (hc : c.hasPlace = true) (a : Ast c) : (a.relocate g).place = g a.place := by
  induction a with
  | nil | cons | absent | present | header => cases hc
  | classRef _ ih | ofReference _ ih | ofArrayElements _ ih | ofAnnotationUse _ ih | blockBody _ ih | exprBody _ ih
  | ofBlock _ ih | ofVariables _ ih | ofTypeDecl _ ih | ofField _ ih | ofConstant _ ih => exact ih rfl
  | _ => rfl

theorem nameParts_relocate {c : Category} (a : Ast c) : (a.relocate g).nameParts = a.nameParts := by
  induction a with
  | ofReference _ ih => exact ih
  | access _ scope typeArguments n ih =>
    cases typeArguments with
    | nil => exact congrArg (Option.map (· ++ [n])) ih
    | cons => rfl
  | _ => rfl

theorem typeTexts_relocate {c : Category} (a : Ast c) : (a.relocate g).typeTexts = a.typeTexts := by
  induction a with
  | classRef _ ih | exception _ _ ih | present _ ih => exact ih
  | segment _ _ _ _ _ _ hscope _ harguments =>
    conv => lhs; whnf
    rw [hscope, harguments, isEmpty_relocate]
    rfl
  | cons | array | wildcard | typeParameter =>
    conv => lhs; whnf
    simp only [*]
    rfl
  | _ => rfl

@[simp] theorem typeText_relocate {c : Category} (a : Ast c) : (a.relocate g).typeText = a.typeText := by
  rw [typeText, typeText, typeTexts_relocate]

/-! ## Java -/

/-- Places do not get into the Java syntax. -/
theorem lower_relocate {c : Category} (a : Ast c) : (a.relocate g).lower = a.lower := by
  induction a with
  | nil | absent | void | marker | literal | name | emptyStmt | breakStmt | continueStmt => rfl
  | thisRef _ qualifier | superRef _ qualifier => cases qualifier <;> rfl
  | header annotations ms ih =>
    have hms : Java.modifiers (Modifier.relocateAll g ms) = Java.modifiers ms := by
      rw [Java.modifiers, Modifier.map_keyword_relocateAll, Java.modifiers]
    conv => lhs; whnf
    rw [ih, hms]
    rfl
  | _ =>
    conv => lhs; whnf
    simp only [*]
    rfl

/-! ## Nodes -/

theorem modifierTrees_relocate (ms : List Modifier) :
    modifierTrees (ms.map (·.relocate g)) = (modifierTrees ms).map (Tree.map (Node.relocate g)) := by
  simp [modifierTrees, Node.relocate, Function.comp_def]

/-- What is made of moved syntax, if `h` says what moving does to it at each piece. -/
theorem fold_relocate {α : Type} {f : {c : Category} → Ast c → List α → α} {h : α → α}
    (hf : ∀ {c : Category} (t : Ast c) (xs : List α), f (t.relocate g) (xs.map h) = h (f t xs)) {c : Category}
    (a : Ast c) : fold f (a.relocate g) = h (fold f a) := by
  induction a with
  | _ =>
    refine Eq.trans ?_ (hf _ _)
    conv => lhs; whnf
    simp only [*, List.map_cons, List.map_nil]
    rfl

/-- The nodes of moved syntax are the moved nodes. -/
theorem forest_relocate (hnone : g .none = .none) {c : Category} (a : Ast c) :
    (a.relocate g).forest = a.forest.map (Tree.map (Node.relocate g)) := by
  refine fold_relocate (fun t xs => ?_) a
  cases t with
  | header annotations ms =>
    change (xs.map _).flatten ++ modifierTrees _ = (xs.flatten ++ modifierTrees ms).map _
    rw [Modifier.relocateAll_eq_map hnone, modifierTrees_relocate, List.map_append, List.map_flatten]
  | thisRef _ qualifier | superRef _ qualifier => cases qualifier <;> rfl
  | _ =>
    conv => lhs; whnf
    conv => rhs; whnf
    simp only [List.map_flatten, Tree.map_node, List.map_cons, List.map_nil] <;> rfl

end Ast

theorem CompilationUnit.tree_relocate (hnone : g .none = .none) (u : CompilationUnit) :
    (u.relocate g).tree = u.tree.map (Node.relocate g) := by
  have hname : ((u.package.name.map (·.relocate g)).toList).map Ast.nameTree =
      (u.package.name.toList.map Ast.nameTree).map (Tree.map (Node.relocate g)) := by
    cases u.package.name <;> simp [Ast.nameTree, Node.relocate]
  simp [tree, relocate, PackageDecl.relocate, ImportDecl.relocate, Ast.forest_relocate hnone, hname, Node.relocate,
    Ast.nameTree, Function.comp_def]

theorem CompilationUnit.lower_relocate (u : CompilationUnit) : (u.relocate g).lower = u.lower := by
  simp [lower, relocate, PackageDecl.relocate, ImportDecl.relocate, Ast.lower_relocate, Function.comp_def]

/-! ## Rules -/

namespace Validation

/-- The item at another place. -/
def Item.relocate (g : Place → Place) (i : Item) : Item := ⟨i.key, g i.place⟩

theorem repeated_relocate (seen : List Text) (items : List Item) :
    repeated seen (items.map (·.relocate g)) = (repeated seen items).map (·.relocate g) := by
  induction items generalizing seen with
  | nil => rfl
  | cons item items ih =>
    simp only [List.map_cons, repeated, Item.relocate]
    split
    · exact congrArg (List.cons _) (ih seen)
    · exact ih _

theorem duplicates_relocate {α : Type} (before after : Text) {item : α → Item} {move : α → α}
    (hmove : ∀ a, item (move a) = (item a).relocate g) (as : List α) :
    duplicates before after ((as.map move).map item) =
      (duplicates before after (as.map item)).map (Diagnostic.relocate g) := by
  have hitems : (as.map move).map item = (as.map item).map (·.relocate g) := by
    simp [Function.comp_def, hmove]
  rw [hitems, duplicates, repeated_relocate, duplicates, List.map_map, List.map_map]
  rfl

theorem modifiers_relocate (hnone : g .none = .none) (n : Node) :
    modifiers (n.relocate g) = (modifiers n).map (·.relocate g) := by
  cases n with
  | term t =>
    cases t with
    | classDecl | interfaceDecl | annotationTypeDecl | variableDecl | methodDecl | annotationMemberDecl
    | constructorDecl | parameter | resource | catchParameter =>
      exact (Ast.keywords_relocate _).trans (Modifier.relocateAll_eq_map hnone _)
    | _ => rfl
  | _ => rfl

theorem typeParameters_relocate (n : Node) : typeParameters (n.relocate g) = (typeParameters n).map (·.relocate g) := by
  cases n with
  | term t =>
    cases t with
    | classDecl | interfaceDecl | methodDecl | constructorDecl => exact Ast.toList_relocate _
    | _ => rfl
  | _ => rfl

theorem exceptions_relocate (n : Node) : exceptions (n.relocate g) = (exceptions n).map (·.relocate g) := by
  cases n with
  | term t =>
    cases t with
    | methodDecl | constructorDecl => exact Ast.toList_relocate _
    | _ => rfl
  | _ => rfl

theorem parameters_relocate (n : Node) : parameters (n.relocate g) = (parameters n).map (·.relocate g) := by
  cases n with
  | term t =>
    cases t with
    | methodDecl | constructorDecl | lambda => exact Ast.toList_relocate _
    | _ => rfl
  | _ => rfl

/-- What a rule finds moves along with the nodes. -/
theorem Rule.check_relocate (hnone : g .none = .none) (r : Rule) (n : Node) :
    r.check (n.relocate g) = (r.check n).map (Diagnostic.relocate g) := by
  have htype : ∀ {c : Category} (_ : c.hasPlace = true) (t : Ast c),
      (⟨(t.relocate g).typeText, (t.relocate g).place⟩ : Item) = Item.relocate g ⟨t.typeText, t.place⟩ := by
    intro c hc t
    rw [Ast.typeText_relocate, Ast.place_relocate hc]
    rfl
  cases r with
  | typeNameMatchesFile file =>
    cases n with
    | unit u =>
      simp only [check, Node.relocate, CompilationUnit.relocate, Ast.declared_relocate]
      split <;> rfl
    | _ => rfl
  | topLevelModifiers =>
    cases n with
    | unit u =>
      simp only [check, Node.relocate, CompilationUnit.relocate, Ast.declared_relocate,
        Modifier.relocateAll_eq_map hnone, List.filter_map, List.map_map]
      rfl
    | _ => rfl
  | duplicateModifiers =>
    simp only [check]
    rw [modifiers_relocate hnone]
    refine duplicates_relocate _ _ ?_ _
    exact fun _ => rfl
  | duplicateTypeParameters =>
    simp only [check]
    rw [typeParameters_relocate]
    refine duplicates_relocate _ _ (fun t => ?_) _
    cases t
    rfl
  | duplicateInterfaces =>
    cases n with
    | term t =>
      cases t with
      | classDecl _ _ _ _ _ _ types =>
        change duplicates _ _ ((types.relocate g).toList.map _) = _
        rw [Ast.toList_relocate]
        exact duplicates_relocate _ _ (htype rfl) _
      | _ => rfl
    | _ => rfl
  | duplicateSuperInterfaces =>
    cases n with
    | term t =>
      cases t with
      | interfaceDecl _ _ _ _ _ types =>
        change duplicates _ _ ((types.relocate g).toList.map _) = _
        rw [Ast.toList_relocate]
        exact duplicates_relocate _ _ (htype rfl) _
      | _ => rfl
    | _ => rfl
  | duplicateExceptions =>
    simp only [check]
    rw [exceptions_relocate]
    exact duplicates_relocate _ _ (htype rfl) _
  | duplicateParameters =>
    simp only [check]
    rw [parameters_relocate]
    refine duplicates_relocate _ _ (fun t => ?_) _
    cases t
    rfl
  | redundantInterfaceAbstract =>
    cases n with
    | term t =>
      cases t with
      | interfaceDecl _ h =>
        change ((h.relocate g).keywords.filter _).map _ = ((h.keywords.filter _).map _).map _
        rw [Ast.keywords_relocate, Modifier.relocateAll_eq_map hnone, List.filter_map, List.map_map, List.map_map]
        rfl
      | _ => rfl
    | _ => rfl

end Validation

end Relocation

end KiteCompiler
