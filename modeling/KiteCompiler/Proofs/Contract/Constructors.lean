import KiteCompiler.Proofs.Contract.Angles
import KiteCompiler.Proofs.Contract.Statements

/-!
# What constructors give

A call of another constructor has a scope only before `super`. The reader does not check this: it relies on the
look-ahead that has found the call, which passes over the names of the scope and over type arguments as they are read.
-/

namespace KiteCompiler.Grammar

open Ast.Reading

/-! ## Looking for a call -/

/-- What stands behind type arguments that may start here, as looking ahead finds it, is `super` or a name. -/
def BeforeSuper (s : State) : Prop :=
  let k := if s.current.kind = .less then (skipTypeArguments s).2.current.kind else s.current.kind
  k = .kwSuper ∨ k.isName = true

/-- The search for the `super` of a call, some names far. -/
abbrev toSuperCall (n : Nat) : Parser Bool := searchUpTo (fun _ => superCallTurn) (fun _ => false) n ()

/-- The turn of this search behind the dot and the type arguments. -/
theorem superOrName {s s' : State} {b : Bool ⊕ Unit} (h : (do
    if ← check .kwSuper then return .inl (← checkAhead 1 .lparen)
    if !(← checkName) then return .inl false
    skip
    return .inr () : Parser (Bool ⊕ Unit)) s = (b, s')) (hb : b ≠ .inl false) :
    s.current.kind = .kwSuper ∨ s.current.kind.isName = true ∧ b = .inr () ∧ s' = s.advance := by
  rw [bind_run (check_run .kwSuper s)] at h
  cases hsuper : s.current.kind == .kwSuper with
  | true => exact .inl (beq_iff_eq.1 hsuper)
  | false =>
    rw [hsuper, if_neg (by decide), bind_run (show checkName s = (s.current.kind.isName, s) from rfl)] at h
    cases hname : s.current.kind.isName with
    | true =>
      rw [hname, if_neg (by decide)] at h
      exact .inr ⟨rfl, (congrArg Prod.fst h).symm, (congrArg Prod.snd h).symm⟩
    | false =>
      rw [hname] at h
      exact absurd (congrArg Prod.fst h).symm hb

/-- A turn of this search that does not find something else. -/
theorem superCallTurn_apply {s s' : State} {b : Bool ⊕ Unit} (h : superCallTurn s = (b, s')) (hb : b ≠ .inl false) :
    s.current.kind = .dot ∧ BeforeSuper s.advance ∧
      (s.advance.current.kind.isName = true → b = .inr () ∧ s' = s.advance.advance) := by
  rw [superCallTurn, bind_run (check_run .dot s)] at h
  cases hdot : s.current.kind == .dot with
  | false =>
    rw [hdot] at h
    exact absurd (congrArg Prod.fst h).symm hb
  | true =>
    rw [hdot, if_neg (by decide), bind_run (show skip s = ((), s.advance) from rfl),
      bind_run (check_run .less s.advance)] at h
    refine ⟨beq_iff_eq.1 hdot, ?_⟩
    by_cases hless : s.advance.current.kind = .less
    · rw [hless] at h
      obtain ⟨b, s₂, hskip⟩ : ∃ b s₂, skipTypeArguments s.advance = (b, s₂) := ⟨_, _, rfl⟩
      rw [if_pos (by decide), bind_run hskip] at h
      refine ⟨?_, fun hname => absurd hname (by rw [hless]; decide)⟩
      rw [BeforeSuper, if_pos hless, hskip]
      exact (superOrName h hb).imp_right And.left
    · rw [beq_eq_false_iff_ne.2 hless, if_neg (by decide)] at h
      rw [BeforeSuper, if_neg hless]
      have hnext := superOrName h hb
      refine ⟨hnext.imp_right And.left, fun hname => ?_⟩
      exact (hnext.resolve_left (by rintro hsuper; rw [hsuper] at hname; exact absurd hname (by decide))).2

/-- The names before the call of another constructor are passed over one by one. -/
theorem toSuperCall_true {n : Nat} {s : State} (h : (toSuperCall n s).1 = true) :
    s.current.kind = .dot ∧ BeforeSuper s.advance ∧
      (s.advance.current.kind.isName = true → ∃ m, (toSuperCall m s.advance.advance).1 = true) := by
  cases n with
  | zero => cases h
  | succ n =>
    obtain ⟨b, s', hturn⟩ : ∃ b s', superCallTurn s = (b, s') := ⟨_, _, rfl⟩
    rw [toSuperCall, searchUpTo, bind_run hturn] at h
    obtain ⟨hdot, hbefore, hnext⟩ := superCallTurn_apply hturn (by rintro rfl; cases h)
    refine ⟨hdot, hbefore, fun hname => ⟨n, ?_⟩⟩
    obtain ⟨rfl, rfl⟩ := hnext hname
    exact h

/-- Where a call of another constructor starts with a name, names follow up to `super`. -/
theorem isConstructorCall_name {s : State} (h : (isConstructorCall s).1 = true) (hname : s.current.kind.isName = true) :
    ∃ n, (toSuperCall n s.advance).1 = true := by
  have hless : (s.current.kind == .less) = false :=
    beq_eq_false_iff_ne.2 (by rintro hk; rw [hk] at hname; exact absurd hname (by decide))
  have hself : [Token.Kind.kwThis, .kwSuper].contains s.current.kind = false := by
    by_contra hmem
    rw [Bool.not_eq_false, List.contains_iff_mem] at hmem
    have hwords : ∀ k ∈ [Token.Kind.kwThis, .kwSuper], k.isName = false := by decide
    rw [hwords _ hmem] at hname
    cases hname
  obtain ⟨b, s', hskip⟩ : ∃ b s', toSuperCall (s.advance.remaining + 1) s.advance = (b, s') := ⟨_, _, rfl⟩
  refine ⟨_, (congrArg Prod.fst hskip).trans ?_⟩
  have hrun : (do
      if ← check .less then let _ ← skipTypeArguments
      if ← checkAny [.kwThis, .kwSuper] then return ← checkAhead 1 .lparen
      if !(← checkName) then return false
      skip
      search (fun _ => superCallTurn) (fun _ => false) () : Parser Bool) s = (b, s') := by
    rw [bind_run (check_run .less s), hless, if_neg (by decide)]
    dsimp only
    rw [bind_run (show checkAny [.kwThis, .kwSuper] s = (_, s) from rfl), hself, if_neg (by decide),
      bind_run (show checkName s = (s.current.kind.isName, s) from rfl), hname, if_neg (by decide),
      bind_run (show skip s = ((), s.advance) from rfl)]
    exact hskip
  rw [← h]
  exact (congrArg Prod.fst hrun).symm

/-- A name behind a dot. -/
def scopeMember : Parser Cst := node .fieldSuffix do
  skip
  return [← identifier]

theorem scopeMember_state {s : State} (h : s.advance.current.kind.isName = true) :
    (scopeMember s).2 = s.advance.advance := by
  have hidentifier : (identifier s.advance).2 = s.advance.advance := by
    unfold identifier
    rw [bind_run (show checkName s.advance = (s.advance.current.kind.isName, s.advance) from rfl), h, if_pos rfl]
    rfl
  rw [scopeMember, node_state, bind_run (show skip s = ((), s.advance) from rfl)]
  exact hidentifier

/-- Reading further names of a scope and the dot behind them leads before `super`. -/
theorem beforeSuper_scopeMembers {n m : Nat} {s : State} (hs : s.Ready) (h : (toSuperCall n s).1 = true) :
    BeforeSuper (repeatUpTo (fun _ => whileTurn (check .dot <&&> checkNameAhead) scopeMember) m () s).2.advance := by
  induction m generalizing n s with
  | zero => exact (toSuperCall_true h).2.1
  | succ m ih =>
    obtain ⟨hdot, hbefore, hnext⟩ := toSuperCall_true h
    have hahead : (s.ahead 1).kind = s.advance.current.kind := by
      rw [hs.ahead_one, ← hs.input_advance, hs.advance.headKind_input]
    have hc : (check .dot <&&> checkNameAhead) s = (s.advance.current.kind.isName, s) := by
      rw [and_run, check_run, hdot, ← hahead]
      rfl
    cases hname : s.advance.current.kind.isName with
    | true =>
      obtain ⟨t, s', ht⟩ : ∃ t s', scopeMember s = (t, s') := ⟨_, _, rfl⟩
      obtain ⟨k, hk⟩ := hnext hname
      have hstate := scopeMember_state hname
      rw [ht] at hstate
      have hturn : whileTurn (check .dot <&&> checkNameAhead) scopeMember s = (.more [t] (), s') := by
        rw [whileTurn, bind_run hc, hname, if_pos rfl, bind_run ht]
        rfl
      rw [repeatUpTo_more hturn]
      obtain rfl : s' = s.advance.advance := hstate
      exact ih hs.advance.advance hk
    | false =>
      have hturn : whileTurn (check .dot <&&> checkNameAhead) scopeMember s = (.last [], s) := by
        rw [whileTurn, bind_run hc, hname]
        rfl
      rw [repeatUpTo_last hturn]
      exact hbefore

theorem constructorScope_state (s : State) :
    (constructorScope s).2 = (manyWhile (check .dot <&&> checkNameAhead) scopeMember s.advance).2 := by
  obtain ⟨ts, s', hts⟩ : ∃ ts s', manyWhile (check .dot <&&> checkNameAhead) scopeMember s.advance = (ts, s') :=
    ⟨_, _, rfl⟩
  unfold scopeMember at hts ⊢
  unfold constructorScope
  rw [bind_run (show leaf .simpleName s = (_, s.advance) from rfl), bind_run hts, hts]
  split <;> rfl

/-- Reading a scope and the dot behind it leads before `super`. -/
theorem beforeSuper_constructorScope {s : State} (hs : s.Ready) (h : (isConstructorCall s).1 = true)
    (hname : s.current.kind.isName = true) : BeforeSuper (constructorScope s).2.advance := by
  obtain ⟨n, hn⟩ := isConstructorCall_name h hname
  rw [constructorScope_state]
  exact beforeSuper_scopeMembers hs.advance hn

/-! ## Reading it -/

namespace Gives

section

variable (rules : Rules) [∀ p, Forward (rules p)] [Reliable rules] [Passing (rules .type)]

omit [∀ p, Forward (rules p)] [Reliable rules] [Passing (rules .type)] in
instance constructorScope : Gives constructorScope (Fits .constructorScope) := by
  have hmembers : Gives (Grammar.manyWhile (check .dot <&&> checkNameAhead) do
      Grammar.node .fieldSuffix do
        skip
        return [← Grammar.identifier]) fun ts => ∀ t ∈ ts, t.kind = .fieldSuffix ∧ Row [.one .identifier] t.children :=
    manyWhile_all (nodeRow inferInstance)
  unfold Grammar.constructorScope
  refine seq (leaf .simpleName) (fun first hfirst => seq hmembers (fun ts hts => choice ?_ ?_) inferInstance)
    inferInstance
  · exact of_has (Fits.constructorScope_of_simpleName hfirst)
  · refine ⟨fun _ _ _ => Fits.constructorScope_of_expr ?_ rfl, inferInstance⟩
    exact fits_suffixed rfl (Fits.expr_of_simpleName hfirst) (chain_of_names hts _)

/-- What follows the scope of a call of another constructor. -/
def constructorCallTail (scope : List Cst) : Parser (List Cst) := do
  let typeArguments ← Grammar.optionalAt .less (Grammar.typeArguments rules)
  let target ←
    if ← check .kwThis then Grammar.leaf .thisRef
    else if ← check .kwSuper then Grammar.leaf .superRef
    else Grammar.errorNode .selfOrSuper [.lparen]
  let arguments ← Grammar.arguments rules
  Grammar.expect .semicolon
  return scope ++ typeArguments ++ [target, arguments]

omit [∀ p, Forward (rules p)] [Reliable rules] [Passing (rules .type)] in
theorem constructorCall_eq : Grammar.constructorCall rules = Grammar.node .explicitConstructorInvocation (do
    let scope ← Grammar.optionalIf checkName do
      let scope ← Grammar.constructorScope
      Grammar.expect .dot
      return scope
    constructorCallTail rules scope) := rfl

set_option synthInstance.maxSize 2000 in
instance (scope : List Cst) : Forward (constructorCallTail rules scope) := by
  unfold constructorCallTail
  dsimp only
  infer_instance

omit [Passing (rules .type)] in
set_option synthInstance.maxSize 2000 in
theorem constructorCallTail_plain :
    Gives (constructorCallTail rules []) (Row [.opt .typeArguments, .one .selfWord, .one .arguments]) := by
  have hthis : Gives (Grammar.leaf .thisRef) (Fits .selfWord) := mono (leaf .thisRef) fun _ => Fits.selfWord_of_thisRef
  have hsuper : Gives (Grammar.leaf .superRef) (Fits .selfWord) :=
    mono (leaf .superRef) fun _ => Fits.selfWord_of_superRef
  have hend (as : List Cst) (has : Row [.opt .typeArguments] as) (t : Cst) (ht : Fits .selfWord t) : Gives (do
      let arguments ← Grammar.arguments rules
      Grammar.expect .semicolon
      return [] ++ as ++ [t, arguments]) (Row [.opt .typeArguments, .one .selfWord, .one .arguments]) := by
    have hrow : Has as (Row [.opt .typeArguments]) := ⟨has⟩
    have hword : Has t (Fits .selfWord) := ⟨ht⟩
    infer_instance
  unfold constructorCallTail
  dsimp only
  refine seq (Q := Row [.opt .typeArguments]) inferInstance (fun as has => skipping fun _ => skipping fun _ =>
    ?_) inferInstance
  refine choice (seq hthis (hend as has) inferInstance) (choice (seq hsuper (hend as has) inferInstance) ?_)
  exact seq (errorNode _ _) (fun _ => False.elim) inferInstance

omit [Reliable rules] in
/-- Reading the type arguments does not lead to `this`. -/
theorem typeArguments_before_super {s : State} (hs : s.Ready) (hC : BeforeSuper s)
    (h : (Grammar.optionalAt .less (Grammar.typeArguments rules) s).2.errors = []) :
    (Grammar.optionalAt .less (Grammar.typeArguments rules) s).2.current.kind ≠ .kwThis := by
  have hkinds {k : Token.Kind} (hk : k = .kwSuper ∨ k.isName = true) : k ≠ .kwThis := by
    rintro rfl
    exact absurd hk (by decide)
  unfold Grammar.optionalAt Grammar.optionalIf at h ⊢
  rw [bind_run (check_run .less s)] at h ⊢
  by_cases hless : s.current.kind = .less
  · rw [BeforeSuper, if_pos hless] at hC
    rw [if_pos (beq_iff_eq.2 hless)] at h ⊢
    have herrors : (Grammar.typeArguments rules s).2.errors = [] := h
    have hready : (skipTypeArguments s).2.Ready := ((inferInstance : Forward skipTypeArguments).onward s).ready hs
    have hready' : (Grammar.typeArguments rules s).2.Ready :=
      ((inferInstance : Forward (Grammar.typeArguments rules)).onward s).ready hs
    change (Grammar.typeArguments rules s).2.current.kind ≠ .kwThis
    rcases Passing.input_skipTypeArguments rules hs hless herrors with hstop | heq | hrest
    · rw [hready.headKind_input] at hstop
      rw [hstop] at hC
      exact absurd hC (by decide)
    · rw [← hready'.headKind_input, ← heq, hready.headKind_input]
      exact hkinds hC
    · intro hthis
      rw [hthis] at hrest
      exact absurd hrest (by decide)
  · rw [BeforeSuper, if_neg hless] at hC
    rw [if_neg (by simpa using hless)]
    exact hkinds hC

set_option synthInstance.maxSize 2000 in
/-- Behind a scope only the constructor of the base class can be called. -/
theorem constructorCallTail_super {e : Cst} (he : Fits .constructorScope e) :
    GivesWhen BeforeSuper (constructorCallTail rules [e])
      (Row [.one .constructorScope, .opt .typeArguments, .one (.token .superRef), .one .arguments]) := by
  have hend (as : List Cst) (has : Row [.opt .typeArguments] as) (t : Cst) (ht : Fits (.token .superRef) t) : Gives (do
      let arguments ← Grammar.arguments rules
      Grammar.expect .semicolon
      return [e] ++ as ++ [t, arguments])
      (Row [.one .constructorScope, .opt .typeArguments, .one (.token .superRef), .one .arguments]) := by
    have hscope : Has e (Fits .constructorScope) := ⟨he⟩
    have hrow : Has as (Row [.opt .typeArguments]) := ⟨has⟩
    have hword : Has t (Fits (.token .superRef)) := ⟨ht⟩
    infer_instance
  have harguments : Gives (Grammar.optionalAt .less (Grammar.typeArguments rules)) (Row [.opt .typeArguments]) :=
    inferInstance
  refine ⟨fun s hs hC h => ?_, inferInstance⟩
  unfold constructorCallTail at h ⊢
  dsimp only at h ⊢
  have hrow := harguments.gives s hs
  have hready := (harguments.forward.onward s).ready hs
  have hnot := typeArguments_before_super rules hs hC
  obtain ⟨as, s₂, has⟩ : ∃ as s₂, Grammar.optionalAt .less (Grammar.typeArguments rules) s = (as, s₂) := ⟨_, _, rfl⟩
  rw [bind_run has] at h ⊢
  rw [has] at hrow hready hnot
  have hbefore : s₂.errors = [] := Forward.errors inferInstance h
  rw [bind_run (check_run .kwThis s₂), beq_eq_false_iff_ne.2 (hnot hbefore)] at h ⊢
  rw [bind_run (check_run .kwSuper s₂), if_neg Bool.false_ne_true] at h ⊢
  refine @Gives.gives _ _ _ (choice (seq (leaf .superRef) (hend as (hrow hbefore)) inferInstance) ?_) s₂ hready h
  exact seq (errorNode _ _) (fun _ => False.elim) inferInstance

theorem constructorCall : GivesWhen (fun s => (isConstructorCall s).1 = true) (Grammar.constructorCall rules)
    (Fits .constructorCall) := by
  rw [constructorCall_eq]
  refine GivesWhen.node (Q := fun ts => Row [.opt .typeArguments, .one .selfWord, .one .arguments] ts ∨
    Row [.one .constructorScope, .opt .typeArguments, .one (.token .superRef), .one .arguments] ts)
    ⟨fun s hs hC h => ?_, inferInstance⟩ fun l ts hk hts => ?_
  · unfold Grammar.optionalIf at h ⊢
    simp only [bind_assoc] at h ⊢
    rw [bind_run (show checkName s = (s.current.kind.isName, s) from rfl)] at h ⊢
    cases hname : s.current.kind.isName with
    | false =>
      rw [hname] at h
      exact .inl ((constructorCallTail_plain rules).gives s hs h)
    | true =>
      obtain ⟨e, s₁, he⟩ : ∃ e s₁, Grammar.constructorScope s = (e, s₁) := ⟨_, _, rfl⟩
      rw [hname] at h
      simp only [if_true, bind_assoc, pure_bind] at h ⊢
      rw [bind_run he] at h ⊢
      obtain ⟨s₂, hs₂⟩ : ∃ s₂, Grammar.expect .dot s₁ = ((), s₂) := ⟨_, rfl⟩
      rw [bind_run hs₂] at h ⊢
      have hbefore₂ : s₂.errors = [] := Forward.errors inferInstance h
      obtain ⟨hdot, hrun⟩ := expect_run (k := .dot) (s := s₁) (by rw [hs₂]; exact hbefore₂)
      obtain rfl : s₂ = s₁.advance := congrArg Prod.snd (hs₂.symm.trans hrun)
      have hsuper := beforeSuper_constructorScope hs hC hname
      have hready := ((inferInstance : Forward Grammar.constructorScope).onward s).ready hs
      have hfits := constructorScope.gives s hs
      rw [he] at hsuper hready hfits
      rw [State.errors_advance] at hbefore₂
      exact .inr ((constructorCallTail_super rules (hfits hbefore₂)).gives _ hready.advance hsuper h)
  · rcases hts with hts | hts
    · exact Builds.constructorCall.fits l ts hk hts
    · exact Builds.scopedConstructorCall.fits l ts hk hts

set_option synthInstance.maxSize 2000 in
instance constructorBody : Gives (constructorBody rules) (Fits .constructorBody) := by
  have hcall : Gives (Grammar.optionalIf isConstructorCall (Grammar.constructorCall rules))
      (Row [.opt .constructorCall]) :=
    optionalIf_when (constructorCall rules)
  unfold Grammar.constructorBody
  infer_instance

end

end Gives

end KiteCompiler.Grammar
