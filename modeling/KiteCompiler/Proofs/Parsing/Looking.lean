import KiteCompiler.Proofs.Parsing.Forward

/-!
# Looking changes nothing

Passing over tokens leaves the tokens as they are. So a question that goes back to where it was asked leaves the state
as it is, unless it records an error (`Looks`).
-/

namespace KiteCompiler.Grammar

variable {α β σ : Type}

/-! ## Tests -/

theorem and_run (p q : Parser Bool) (s : State) :
    (p <&&> q) s = if (p s).1 = true then q (p s).2 else (false, (p s).2) := by
  change (match (p s).1 with | true => q | false => pure (p s).1 : Parser Bool) (p s).2 = _
  cases h : (p s).1 <;> rfl

theorem and_left {p q : Parser Bool} {s : State} (h : ((p <&&> q) s).1 = true) : (p s).1 = true := by
  rw [and_run] at h
  by_contra hp
  simp [hp] at h

theorem or_run (p q : Parser Bool) (s : State) :
    (p <||> q) s = if (p s).1 = true then (true, (p s).2) else q (p s).2 := by
  change (match (p s).1 with | true => pure (p s).1 | false => q : Parser Bool) (p s).2 = _
  cases h : (p s).1 <;> rfl

theorem check_run (k : Token.Kind) (s : State) : check k s = (s.current.kind == k, s) := rfl

theorem checkAhead_run (n : Nat) (k : Token.Kind) (s : State) : checkAhead n k s = ((s.ahead n).kind == k, s) := rfl

theorem expect_of_kind {k : Token.Kind} {s : State} (h : s.current.kind = k) : expect k s = ((), s.advance) := by
  unfold expect
  rw [bind_run (check_run k s), h, beq_self_eq_true]
  rfl

theorem skipAnnotations_of_ne {s : State} (h : s.current.kind ≠ .atSign) : skipAnnotations s = ((), s) := by
  have hpart : annotationPart s = (false, s) := by
    unfold annotationPart
    rw [bind_run (check_run .atSign s), if_neg (by simpa using h)]
    rfl
  change whileUpTo annotationPart (s.remaining + 1) s = _
  rw [whileUpTo, bind_run hpart]
  rfl

/-- Without an error, the token that is expected is taken. -/
theorem expect_run {k : Token.Kind} {s : State} (h : (expect k s).2.errors = []) :
    s.current.kind = k ∧ expect k s = ((), s.advance) := by
  have hrun : expect k s = if (s.current.kind == k) = true then ((), s.advance)
      else ((), s.record ⟨.missing k s.current, s.current.span.first⟩) := by
    change (if (s.current.kind == k) = true then _ else _ : Parser Unit) s = _
    split <;> rfl
  rw [hrun] at h ⊢
  split at h
  · next hk => exact ⟨beq_iff_eq.1 hk, if_pos hk⟩
  · exact absurd h (State.errors_record_ne_nil _ _)

/-- An error node stands for an error. -/
theorem errors_errorNode_ne_nil (construct : Construct) (recovery : List Token.Kind) (s : State) :
    (errorNode construct recovery s).2.errors ≠ [] := by
  intro h
  have hforward : Forward (recover recovery) := inferInstance
  have hbefore : (s.record ⟨.missingConstruct construct s.current, s.current.span.first⟩).errors = [] :=
    hforward.errors h
  exact s.errors_record_ne_nil _ hbefore

/-! ## Questions -/

/-- Two runs that are in the same state, with the given tokens. -/
def sameWith (tokens : Array Token) : Frame := same {
  Holds := (·.tokens = tokens)
  advance := fun h => (State.tokens_advance _).trans h
  rewind := fun _ ht => ht
  record := fun e h => (State.tokens_record _ e).trans h }

/-- Without an error, the state is left as it is. -/
class Looks (c : Parser α) : Prop where
  stays {s : State} : (c s).2.errors = [] → (c s).2 = s

namespace Looks

instance pure (a : α) : Looks (pure a : Parser α) := ⟨fun _ => rfl⟩

instance (priority := low) asks {p : Parser α} [hp : Asks p] : Looks p := ⟨fun _ => hp.same _⟩

instance bind {p : Parser α} {f : α → Parser β} [hp : Looks p] [hf : ∀ a, Looks (f a)] [hf' : ∀ a, Forward (f a)] :
    Looks (p >>= f) := by
  refine ⟨fun {s} h => ?_⟩
  have hstate : (p s).2 = s := hp.stays ((hf' _).errors h)
  exact ((hf _).stays h).trans hstate

/-- A test whose outcomes look. -/
theorem test {p : Parser Bool} {f : Bool → Parser β} (hp : Looks p) (hyes : Looks (f true)) (hno : Looks (f false))
    (hyes' : Forward (f true)) (hno' : Forward (f false)) : Looks (p >>= f) :=
  @bind _ _ _ _ hp (fun b => by cases b <;> assumption) (fun b => by cases b <;> assumption)

instance map {p : Parser α} {f : α → β} [hp : Looks p] : Looks (f <$> p) := ⟨fun h => hp.stays h⟩

instance ite {c : Prop} [Decidable c] {p q : Parser α} [hp : Looks p] [hq : Looks q] :
    Looks (if c then p else q) := by
  split <;> assumption

instance and {p q : Parser Bool} [hp : Looks p] [hq : Looks q] [hq' : Forward q] : Looks (p <&&> q) :=
  test hp hq (pure false) hq' (Forward.pure false)

instance or {p q : Parser Bool} [hp : Looks p] [hq : Looks q] [hq' : Forward q] : Looks (p <||> q) :=
  test hp (pure true) hq (Forward.pure true) hq'

/-- Going back undoes what a part has done that leaves the tokens as they are. -/
instance lookAhead [∀ F : Frame, Relates F α] {p : Parser α} [hp : ∀ tokens, (sameWith tokens).Parallel p p]
    [hp' : Forward p] : Looks (lookAhead p) := by
  refine ⟨fun {s} h => ?_⟩
  have htokens : (p s).2.tokens = s.tokens := ((hp s.tokens).alike s s ⟨rfl, rfl⟩).2.2
  have herrors : (p s).2.errors = [] := h
  change State.mk (p s).2.tokens s.pos (p s).2.errors = s
  rw [htokens, herrors, ← hp'.errors herrors]

instance (k : Token.Kind) : Looks (annotationsPrecede k) := by unfold annotationsPrecede; infer_instance

instance (k : Token.Kind) : Looks (checkAnnotated k) := by unfold checkAnnotated; infer_instance

instance : Looks isAnnotatedPackage := by unfold isAnnotatedPackage; infer_instance

set_option synthInstance.maxSize 2000 in
instance : Looks isLambda := by unfold isLambda; infer_instance

set_option synthInstance.maxSize 2000 in
instance : Looks isCast := by unfold isCast; dsimp only; infer_instance

instance : Looks isLocalVarDecl := by unfold isLocalVarDecl; infer_instance

set_option synthInstance.maxSize 2000 in
instance : Looks isEnhancedFor := by unfold isEnhancedFor; infer_instance

set_option synthInstance.maxSize 2000 in
instance : Looks isConstructorCall := by unfold isConstructorCall; dsimp only; infer_instance

instance : Looks isGenericReference := by unfold isGenericReference; infer_instance

instance : Looks startsDimExpr := by unfold startsDimExpr; infer_instance

instance : Looks startsDim := by unfold startsDim; infer_instance

instance : Looks isTypedParameter := by unfold isTypedParameter; infer_instance

instance : Looks startsType := by unfold startsType; infer_instance

instance isModifier : Looks isModifier :=
  @bind _ _ _ _ inferInstance (fun t => by split <;> infer_instance) (fun t => by split <;> infer_instance)

/-- What happens after a question. -/
theorem run {c : Parser α} [hc : Looks c] {f : α → Parser β} (hf : ∀ a, Forward (f a)) {s : State}
    (h : ((c >>= f) s).2.errors = []) : (c >>= f) s = f (c s).1 s := by
  have hstate : (c s).2 = s := hc.stays ((hf _).errors h)
  exact bind_run (Prod.ext rfl hstate)

end Looks

end KiteCompiler.Grammar
