import KiteCompiler.Proofs.SecondBarrier

/-!
# What the parser accepts can be read

The layouts of the nodes stand twice in the program: where the grammar makes them and where abstract syntax is read off
them. They agree: a tree without syntax errors can be read unless an object of a primitive type is created in it
(`unreadable_iff`), which the grammar allows and abstract syntax does not.
-/

namespace KiteCompiler.Grammar

open Ast.Reading

/-- The tree creates an object of a primitive type somewhere. -/
def CreatesPrimitives (t : Cst) : Prop := ∃ u ∈ t.subtrees, Cst.CreatesPrimitive u

instance (t : Cst) : Decidable (Cst.CreatesPrimitive t) := inferInstanceAs (Decidable (_ ∧ _))

instance (t : Cst) : Decidable (CreatesPrimitives t) :=
  inferInstanceAs (Decidable (∃ u ∈ t.subtrees, Cst.CreatesPrimitive u))

/-- Without errors, the creations of primitive objects are the only faults. -/
theorem sound_iff {start : Rules → Parser Cst} [∀ depth, Forward (start (rulesUpTo depth))]
    [∀ E depth, Records E (start (rulesUpTo depth))] {source : Text} (h : (parse start source).errors = []) :
    (parse start source).tree.Sound ↔ ¬CreatesPrimitives (parse start source).tree := by
  refine ⟨fun hsound ⟨u, hu, hcreates⟩ => hsound u hu (.inr hcreates), fun hcreates u hu => ?_⟩
  rintro (hkind | hprimitive)
  · refine ((accounted start source).clean h).1 u.label ?_ hkind
    rw [← Tree.map_label_subtrees]
    exact List.mem_map_of_mem hu
  · exact hcreates ⟨u, hu, hprimitive⟩

/-- Without errors, the tree fits the place that its reader is made for. -/
theorem fits_parse {start : Rules → Parser Cst} {X : Slot} [hstart : ∀ depth, Gives (start (rulesUpTo depth)) (Fits X)]
    {source : Text} (h : (parse start source).errors = []) : Fits X (parse start source).tree := by
  rw [tree_parse]
  exact (hstart _).gives _ (initial_ready source) ((errors_parse_nil start source).1 h)

/-- A reading that succeeds on exactly the trees without faults. -/
theorem reading_cases {α : Type} {result : Except Malformed α} {P Q : Prop} (hok : ∀ a, result = .ok a → P)
    (hread : P → ∃ a, result = .ok a) (hQ : P ↔ ¬Q) :
    ((∃ e, result = .error e) ↔ Q) ∧ ((∃ a, result = .ok a) ↔ ¬Q) := by
  cases result with
  | ok a =>
    have hnot : ¬Q := hQ.1 (hok a rfl)
    refine ⟨⟨fun ⟨e, he⟩ => ?_, fun h => absurd h hnot⟩, ⟨fun _ => hnot, fun _ => ⟨a, rfl⟩⟩⟩
    cases he
  | error e =>
    have hnot : ¬¬Q := by
      intro h
      obtain ⟨a, ha⟩ := hread (hQ.2 h)
      cases ha
    refine ⟨⟨fun _ => not_not.1 hnot, fun _ => ⟨e, rfl⟩⟩, ⟨fun ⟨a, ha⟩ => ?_, fun h => absurd h hnot⟩⟩
    cases ha

/-- **The contract between the grammar and the reader of abstract syntax.** The tree of a file or of an expression
without syntax errors is malformed exactly if it creates an object of a primitive type; otherwise it is read. -/
theorem unreadable_iff (source : Text) :
    ((parseUnit source).errors = [] →
      ((∃ e : Malformed, CompilationUnit.ofCst (parseUnit source).tree = .error e) ↔
        CreatesPrimitives (parseUnit source).tree) ∧
      ((∃ unit, CompilationUnit.ofCst (parseUnit source).tree = .ok unit) ↔
        ¬CreatesPrimitives (parseUnit source).tree)) ∧
    ((parseExpression source).errors = [] →
      ((∃ e : Malformed, Ast.exprOfCst (parseExpression source).tree = .error e) ↔
        CreatesPrimitives (parseExpression source).tree) ∧
      ((∃ e, Ast.exprOfCst (parseExpression source).tree = .ok e) ↔
        ¬CreatesPrimitives (parseExpression source).tree)) := by
  constructor
  · intro h
    refine reading_cases (fun unit hread => ?_) (fits_parse h).reads (sound_iff h)
    exact Ast.sound_of_ofCst (bare_parse compilationUnit source) hread
  · intro h
    refine reading_cases (fun e hread => ?_) (fits_parse (X := .expr) h).reads (sound_iff h)
    exact Ast.sound_of_read (bare_parse standaloneExpression source) (r := .expr) hread

theorem unreadable_iff_new_int :
    ((parseUnit "class A{}").errors = [] ∧ ∃ unit, CompilationUnit.ofCst (parseUnit "class A{}").tree = .ok unit) ∧
    ((parseExpression "a + new int()").errors = [] ∧
      ∃ e : Malformed, Ast.exprOfCst (parseExpression "a + new int()").tree = .error e) := by
  have hunit : (parseUnit "class A{}").errors = [] := by decide +kernel
  have hexpression : (parseExpression "a + new int()").errors = [] := by decide +kernel
  refine ⟨⟨hunit, ((unreadable_iff "class A{}").1 hunit).2.2 ?_⟩,
    ⟨hexpression, ((unreadable_iff "a + new int()").2 hexpression).1.2 ?_⟩⟩
  · decide +kernel
  · decide +kernel

end KiteCompiler.Grammar
