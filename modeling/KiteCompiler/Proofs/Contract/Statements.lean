import KiteCompiler.Proofs.Contract.Productions

/-!
# What statements give
-/

namespace KiteCompiler.Grammar

open Ast.Reading

namespace Gives

section

set_option synthInstance.maxSize 10000

variable (rules : Rules) [∀ p, Forward (rules p)] [Reliable rules]

instance forEachParts : Gives (forEachParts rules) (Row [.one .formalParameter, .one .expr, .one .stmt]) := by
  unfold Grammar.forEachParts; infer_instance

instance forParts : Gives (forParts rules) (Row [.one .forInit, .opt .expr, .one .forUpdate, .one .stmt]) := by
  have hinit : Gives (Grammar.node .forInit do
      if ← check .semicolon then return []
      if ← isLocalVarDecl then return [← Grammar.localVarDecl rules]
      Grammar.expressionList rules) (Fits .forInit) := by
    have hparts : Gives (do
        if ← check .semicolon then return []
        if ← isLocalVarDecl then return [← Grammar.localVarDecl rules]
        Grammar.expressionList rules) fun ts => Row [.many .expr] ts ∨ Row [.one .localVariables] ts := by
      refine skipping fun _ => choice (of_has (.inl row_many_nil)) (skipping fun _ => choice ?_ ?_)
      · exact mono (Q := Row [.one .localVariables]) inferInstance fun _ => .inr
      · exact mono (expressionList rules) fun _ h => .inl h.many_of_some
    refine nodeOf hparts fun l ts hk hts => ?_
    rcases hts with hts | hts
    · exact Builds.forInit.fits l ts hk hts
    · exact Builds.forVariables.fits l ts hk hts
  unfold Grammar.forParts
  infer_instance

instance resource : Gives (resource rules) (Fits .resource) := by
  have hparts : Gives (do
      if ← isLocalVarDecl then
        let modifiers ← Grammar.modifiers rules
        let type ← rules .type
        let name ← Grammar.identifier
        Grammar.expect .assign
        return [modifiers, type, name, ← rules .expression]
      return [← rules .expression]) fun ts =>
        Row [.one .modifiers, .one .type, .one .identifier, .one .expr] ts ∨ Row [.one .expr] ts := by
    refine skipping fun _ => choice ?_ ?_
    · exact mono (Q := Row [.one .modifiers, .one .type, .one .identifier, .one .expr]) inferInstance fun _ => .inl
    · exact mono (Q := Row [.one .expr]) inferInstance fun _ => .inr
  refine nodeOf hparts fun l ts hk hts => ?_
  rcases hts with hts | hts
  · exact Builds.resource.fits l ts hk hts
  · exact Builds.resourceExpr.fits l ts hk hts

instance catchClause : Gives (catchClause rules) (Fits .catchClause) := by unfold Grammar.catchClause; infer_instance

instance tryStatement : Gives (tryStatement rules) (Fits .stmt) := by
  unfold Grammar.tryStatement; dsimp only; infer_instance

instance switchLabel : Gives (switchLabel rules) (Fits .switchLabel) := by
  unfold Grammar.switchLabel
  dsimp only
  refine skipping fun t => ?_
  split
  · next hcase =>
    refine seq (Q := Fits .expr) inferInstance (fun u hu => seq (Q := (· = [u])) (of_has rfl) ?_ inferInstance)
      inferInstance
    rintro _ rfl
    exact skipping fun _ => ⟨fun _ _ _ => Builds.fits_case rfl rfl hcase hu, inferInstance⟩
  · next hdefault =>
    refine seq (Q := (· = [])) (of_has rfl) ?_ inferInstance
    rintro _ rfl
    exact skipping fun _ => ⟨fun _ _ _ => Builds.fits_default rfl rfl hdefault, inferInstance⟩

/-- A group starts with a label. -/
theorem switchGroup : GivesWhen (fun s => s.current.kind ∈ [Token.Kind.kwCase, .kwDefault]) (Grammar.switchGroup rules)
    (Fits .switchGroup) := by
  have hlabels :=
    manyWhile_some (c := checkAny [.kwCase, .kwDefault]) (switchLabel rules) fun s => List.contains_iff_mem.2
  refine GivesWhen.node (hlabels.seq (fun ls hls => ?_) inferInstance) Builds.switchGroup.fits
  have hrow : Has ls (Row [.some .switchLabel]) := ⟨hls⟩
  infer_instance

instance switchStatement : Gives (switchStatement rules) (Fits .stmt) := by
  have hgroups : Gives (Grammar.repeatTurns (groupTurn rules)) (Row [.many .switchGroup]) := by
    refine repeatTurns (skipping fun _ => choice (of_has (adds_nil _)) (test (fun s => List.contains_iff_mem.1)
      (guardedTurn_when (switchGroup rules)) ?_))
    exact seq (errorNode _ _) (fun _ => False.elim) inferInstance
  unfold Grammar.switchStatement
  infer_instance

instance statement : Gives (statement rules) (Fits .stmt) := by
  have hblock : Gives (Grammar.block rules) (Fits .stmt) := mono (block rules) fun _ => Fits.stmt_of_block
  unfold Grammar.statement ifStatement whileStatement doStatement forStatement synchronizedStatement jumpStatement
    throwStatement assertStatement labeledStatement expressionStatement
  refine skipping fun t => ?_
  split
  all_goals first
    | infer_instance
    | exact (errorNode _ _).never

end

end Gives

end KiteCompiler.Grammar
