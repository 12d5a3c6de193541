import KiteCompiler.Proofs.Reading.Soundness

/-!
# A second barrier against broken input

A tree with an error node, wherever it stands, is never read as abstract syntax: neither as a file nor as an expression
(`unreadable_of_error`). Trees that the grammar makes satisfy what `sound_of_read` needs, since their nodes for one
token have no children.
-/

namespace KiteCompiler

theorem Cst.Sound.kind_ne_error {t : Cst} (h : t.Sound) : ∀ l ∈ t.preorder, l.kind ≠ .error := by
  intro l hl hkind
  rw [← Tree.map_label_subtrees, List.mem_map] at hl
  obtain ⟨u, hu, rfl⟩ := hl
  exact h u hu (.inl hkind)

namespace Grammar

/-- In a tree that the grammar makes, nodes for one token have no children. -/
theorem bare_parse (start : Rules → Parser Cst) [∀ depth, Forward (start (rulesUpTo depth))]
    [hstart : ∀ E depth, Records E (start (rulesUpTo depth))] (source : Text) :
    (parse start source).tree.Every Cst.Bare := by
  rw [tree_parse]
  have hall : AllRecorded (run start source).2.errors (run start source).1 :=
    (hstart _ _).recorded _ (List.Subset.refl _)
  exact (hall.every _ (List.mem_singleton_self _)).mono fun _ h => h.bare

/-- **The second barrier.** If there is an error node anywhere in the tree of a file or of an expression, the tree is
malformed for the reader of abstract syntax. -/
theorem unreadable_of_error (source : Text) :
    ((∃ l ∈ (parseUnit source).tree.preorder, l.kind = .error) →
      ∃ e : Malformed, CompilationUnit.ofCst (parseUnit source).tree = .error e) ∧
    ((∃ l ∈ (parseExpression source).tree.preorder, l.kind = .error) →
      ∃ e : Malformed, Ast.exprOfCst (parseExpression source).tree = .error e) := by
  constructor
  · rintro ⟨l, hl, hkind⟩
    cases hread : CompilationUnit.ofCst (parseUnit source).tree with
    | error e => exact ⟨e, rfl⟩
    | ok unit =>
      have hsound := Ast.sound_of_ofCst (bare_parse compilationUnit source) hread
      exact absurd hkind (hsound.kind_ne_error l hl)
  · rintro ⟨l, hl, hkind⟩
    cases hread : Ast.exprOfCst (parseExpression source).tree with
    | error e => exact ⟨e, rfl⟩
    | ok e =>
      have hsound := Ast.sound_of_read (bare_parse standaloneExpression source) (r := .expr) hread
      exact absurd hkind (hsound.kind_ne_error l hl)

theorem unreadable_of_missing_operand :
    (∃ l ∈ (parseExpression "f(a, [1)").tree.preorder, l.kind = .error) ∧
    ∃ e : Malformed, Ast.exprOfCst (parseExpression "f(a, [1)").tree = .error e := by
  have h : ∃ l ∈ (parseExpression "f(a, [1)").tree.preorder, l.kind = .error := by decide +kernel
  exact ⟨h, (unreadable_of_error "f(a, [1)").2 h⟩

end Grammar

end KiteCompiler
