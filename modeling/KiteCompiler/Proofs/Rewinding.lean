import KiteCompiler.Proofs.Termination.Agreement

/-!
# Reading the same tokens again

Behind a primitive type, array dimensions are read twice: whether a class literal or a reference to a constructor
follows is known only when they have been read once. Going back restores the position, but neither the tokens nor the
errors. The second time gives the same as the first one if no token was split in between (`dims_again_of_unsplit`): what
is read does not depend on the errors so far, and an error is only kept again if it was kept before or stands at the
place of the last error before that. A token that was split stays so, and then the second time fails
(`dims_again_of_split`).
-/

namespace KiteCompiler.Grammar

/-- The place of the last error. -/
def lastOffset? (errors : List SyntaxError) : Option Nat := errors.head?.map (·.pos.offset)

theorem State.record_eq (s : State) (e : SyntaxError) :
    s.record e = if lastOffset? s.errors = some e.pos.offset then s else { s with errors := e :: s.errors } := by
  obtain ⟨tokens, pos, errors⟩ := s
  cases errors with
  | nil => rfl
  | cons last errors => simp only [State.record, lastOffset?, List.head?_cons, Option.map_some, Option.some.injEq]

/-- The errors of two runs over the same tokens, one from the errors `before` and one from the errors `later`. Behind
the first error that they meet, both runs keep the same ones. -/
inductive Follows (before later : List SyntaxError) : List SyntaxError → List SyntaxError → Prop
  | start : Follows before later before later
  | going {errors errors' : List SyntaxError} (hlast : lastOffset? errors = lastOffset? errors')
      (hkept : ∀ e ∈ errors', e ∈ later ∨ e ∈ errors ∨ lastOffset? before = some e.pos.offset) :
      Follows before later errors errors'

theorem Follows.mem {before later errors errors' : List SyntaxError} (h : Follows before later errors errors')
    {e : SyntaxError} (he : e ∈ errors') : e ∈ later ∨ e ∈ errors ∨ lastOffset? before = some e.pos.offset := by
  cases h with
  | start => exact .inl he
  | going _ hkept => exact hkept e he

/-- The errors after one more of them. -/
def keepError (errors : List SyntaxError) (e : SyntaxError) : List SyntaxError :=
  if lastOffset? errors = some e.pos.offset then errors else e :: errors

theorem State.errors_record_eq (s : State) (e : SyntaxError) : (s.record e).errors = keepError s.errors e := by
  rw [State.record_eq, keepError]
  split <;> rfl

theorem lastOffset?_keepError (errors : List SyntaxError) (e : SyntaxError) :
    lastOffset? (keepError errors e) = some e.pos.offset := by
  unfold keepError
  split
  · assumption
  · rfl

theorem subset_keepError (errors : List SyntaxError) (e : SyntaxError) : errors ⊆ keepError errors e := by
  unfold keepError
  split
  · exact List.Subset.refl _
  · exact List.subset_cons_self _ _

theorem mem_keepError_self {errors : List SyntaxError} {e : SyntaxError} (h : lastOffset? errors ≠ some e.pos.offset) :
    e ∈ keepError errors e := by
  rw [keepError, if_neg h]
  exact List.mem_cons_self

theorem Follows.keepError {before later errors errors' : List SyntaxError} (h : Follows before later errors errors')
    (e : SyntaxError) : Follows before later (keepError errors e) (keepError errors' e) := by
  refine .going (by rw [lastOffset?_keepError, lastOffset?_keepError]) fun e' he' => ?_
  have hmem : e' ∈ errors' ∨ e' = e ∧ lastOffset? errors' ≠ some e.pos.offset := by
    unfold Grammar.keepError at he'
    split at he'
    · exact .inl he'
    · rename_i hlast
      exact (List.mem_cons.1 he').symm.imp_right fun heq => ⟨heq, hlast⟩
  rcases hmem with hmem | ⟨rfl, hlast⟩
  · exact (h.mem hmem).imp_right (Or.imp_left fun h => subset_keepError _ _ h)
  · cases h with
    | start =>
      by_cases hbefore : lastOffset? before = some e'.pos.offset
      · exact .inr (.inr hbefore)
      · exact .inr (.inl (mem_keepError_self hbefore))
    | going hsame _ => exact .inr (.inl (mem_keepError_self (hsame ▸ hlast)))

/-- Two runs over the same tokens, one from the errors `before` and one from the errors `later`. -/
def twice (before later : List SyntaxError) : Frame :=
  { sameFrom default with
    state s s' := s.tokens = s'.tokens ∧ s.pos = s'.pos ∧ Follows before later s.errors s'.errors
    current h := by rw [State.current, State.current, h.1, h.2.1]; rfl
    ahead n h := by rw [State.ahead, State.ahead, State.current, State.current, h.1, h.2.1]
    pos_eq h := h.2.1
    remaining_eq h := by rw [State.remaining, State.remaining, h.1, h.2.1]
    lastEnd h hp := by rw [State.lastEnd, State.lastEnd, h.1, h.2.1, hp]; rfl
    advance := by
      rintro ⟨tokens, pos, errors⟩ ⟨_, _, errors'⟩ ⟨rfl, rfl, herrors⟩
      have hcurrent : State.current ⟨tokens, pos, errors⟩ = State.current ⟨tokens, pos, errors'⟩ := rfl
      unfold State.advance
      rw [hcurrent]
      dsimp only
      split <;> exact ⟨rfl, rfl, herrors⟩
    rewind hs ht := ⟨ht.1, hs.2.1, ht.2.2⟩
    record hs hc hp := by
      refine ⟨by simpa using hs.1, by simpa using hs.2.1, ?_⟩
      rw [State.errors_record_eq, State.errors_record_eq, hc.eq, hp]
      exact hs.2.2.keepError _ }

variable {before later : List SyntaxError}

instance : (twice before later).Splits := by
  refine ⟨?_⟩
  rintro ⟨tokens, pos, errors⟩ ⟨_, _, errors'⟩ k ⟨rfl, rfl, herrors⟩ -
  exact ⟨rfl, rfl, herrors⟩

theorem eq_of_tree_twice {t t' : Cst} (h : (twice before later).tree t t') : t = t' :=
  Tree.Rel.eq
  (fun l l' h => eq_of_label (show (sameFrom default).label l l' from ⟨h.kind, h.first, h.last, h.token, h.error⟩)) h

/-! ## Dimensions behind a primitive type -/

/-- The first reading of the dimensions behind the current token. -/
def dimsOnce (rules : Rules) (s : State) : Option Cst × State := dims rules s.advance

/-- The state after going back from the first reading. -/
def rewound (rules : Rules) (s : State) : State := { (dimsOnce rules s).2 with pos := s.pos }

/-- The second reading. -/
def dimsAgain (rules : Rules) (s : State) : Option Cst × State := dims rules (rewound rules s).advance

theorem get_apply (s : State) : (get : Parser State) s = (s, s) := rfl

theorem children_node (kind : Cst.Kind) (parts : Parser (List Cst)) (s : State) :
    (node kind parts s).1.children = (parts s).1 := rfl

/-- What follows the dimensions of a class literal adds nothing to it. -/
theorem fst_before_class (parts : List Cst) (s : State) :
    ((do expect .dot; expect .kwClass; return parts : Parser (List Cst)) s).1 = parts := rfl

/-- The node for a primitive type has the dimensions of the second reading. -/
theorem children_primitiveTypeExpression {rules : Rules} {s t t' : State} {once again : Option Cst}
    (h : s.current.kind.isPrimitive = true) (honce : dimsOnce rules s = (once, t))
    (hagain : dimsAgain rules s = (again, t')) :
    (primitiveTypeExpression rules s).1.children =
      if t.current.kind = .colonColon then [(rules .type (rewound rules s)).1]
      else (leaf .primitiveType (rewound rules s)).1 :: if once.isSome then again.toList else [] := by
  have hcheck : check .kwVoid s = (false, s) := by
    have hvoid : s.current.kind ≠ .kwVoid := fun hvoid => by
      rw [hvoid] at h
      exact absurd h (by decide)
    rw [← beq_eq_false_iff_ne.2 hvoid]
    rfl
  have hskip : skip s = ((), s.advance) := rfl
  have hafter : check .colonColon t = (t.current.kind == .colonColon, t) := rfl
  have hback : (modify fun t => { t with pos := s.pos } : Parser Unit) t = ((), rewound rules s) := by
    rw [rewound, honce]
    rfl
  have honce : dims rules s.advance = (once, t) := honce
  have hagain : dims rules (rewound rules s).advance = (again, t') := hagain
  rw [primitiveTypeExpression, bind_run hcheck, if_neg Bool.false_ne_true, bind_run (get_apply s), bind_run hskip,
    bind_run honce, bind_run hafter, bind_run hback]
  by_cases hreference : t.current.kind = .colonColon
  · rw [if_pos (by simpa using hreference), if_pos hreference]
    rfl
  · have hleaf : leaf .primitiveType (rewound rules s) =
        ((leaf .primitiveType (rewound rules s)).1, (rewound rules s).advance) := rfl
    rw [if_neg (by simpa using hreference), if_neg hreference, children_node, bind_run hleaf]
    dsimp only
    cases once with
    | none =>
      rw [if_neg (by decide), if_neg (by decide), pure_bind]
      exact fst_before_class _ _
    | some d =>
      rw [if_pos Option.isSome_some, if_pos Option.isSome_some, bind_run hagain, pure_bind]
      exact fst_before_class _ _

/-- What is read does not depend on the errors so far. -/
theorem dims_twice (depth : Nat) {s s' : State} (htokens : s.tokens = s'.tokens) (hpos : s.pos = s'.pos) :
    (dims (rulesUpTo depth) s').1 = (dims (rulesUpTo depth) s).1 ∧
    (dims (rulesUpTo depth) s').2.pos = (dims (rulesUpTo depth) s).2.pos ∧
    (dims (rulesUpTo depth) s').2.tokens = (dims (rulesUpTo depth) s).2.tokens ∧
    Follows s.errors s'.errors (dims (rulesUpTo depth) s).2.errors (dims (rulesUpTo depth) s').2.errors := by
  have hstart : (twice s.errors s'.errors).state s s' := ⟨htokens, hpos, .start⟩
  have hdims : (twice s.errors s'.errors).Parallel (dims (rulesUpTo depth)) (dims (rulesUpTo depth)) := inferInstance
  obtain ⟨htree, htokens, hpos, herrors⟩ := hdims.alike s s' hstart
  refine ⟨?_, hpos.symm, htokens.symm, herrors⟩
  generalize (dims (rulesUpTo depth) s).1 = d, (dims (rulesUpTo depth) s').1 = d' at htree
  cases htree with
  | some h => exact congrArg some (eq_of_tree_twice h).symm
  | none => rfl

theorem advance_rewound {rules : Rules} {s : State} (h : (dimsOnce rules s).2.tokens = s.tokens) :
    s.advance.tokens = (rewound rules s).advance.tokens ∧ s.advance.pos = (rewound rules s).advance.pos ∧
    (rewound rules s).advance.errors = (dimsOnce rules s).2.errors := by
  have hstate : (twice s.errors (rewound rules s).errors).state s (rewound rules s) := ⟨h.symm, rfl, .start⟩
  obtain ⟨htokens, hpos, -⟩ := (twice _ _).advance hstate
  exact ⟨htokens, hpos, State.errors_advance _⟩

theorem dimsAgain_eq {depth : Nat} {s : State} (h : (dimsOnce (rulesUpTo depth) s).2.tokens = s.tokens) :
    (dimsAgain (rulesUpTo depth) s).1 = (dimsOnce (rulesUpTo depth) s).1 ∧
    (dimsAgain (rulesUpTo depth) s).2.pos = (dimsOnce (rulesUpTo depth) s).2.pos ∧
    (dimsAgain (rulesUpTo depth) s).2.tokens = s.tokens ∧
    ∀ e ∈ (dimsAgain (rulesUpTo depth) s).2.errors,
      e ∈ (dimsOnce (rulesUpTo depth) s).2.errors ∨ lastOffset? s.errors = some e.pos.offset := by
  obtain ⟨htokens, hpos, herrors⟩ := advance_rewound h
  obtain ⟨htree, hend, hkept, hfollows⟩ := dims_twice depth htokens hpos
  rw [State.errors_advance, herrors] at hfollows
  unfold dimsAgain dimsOnce
  exact ⟨htree, hend, hkept.trans h, fun e he => (hfollows.mem he).elim .inl id⟩

/-- **Going back restores the reading** of dimensions behind a primitive type, if the first reading has split no token.
Then the second one gives the same node, ends at the same place and leaves the same tokens, so that a class literal has
the dimensions that were read first. The errors that are kept the second time are those of the first time, but for an
error at the place of the last one before both, which only the first reading passed over. -/
theorem dims_again_of_unsplit (depth : Nat) (s : State) (h : (dimsOnce (rulesUpTo depth) s).2.tokens = s.tokens) :
    (dimsAgain (rulesUpTo depth) s).1 = (dimsOnce (rulesUpTo depth) s).1 ∧
    (dimsAgain (rulesUpTo depth) s).2.pos = (dimsOnce (rulesUpTo depth) s).2.pos ∧
    (dimsAgain (rulesUpTo depth) s).2.tokens = s.tokens ∧
    (∀ e ∈ (dimsAgain (rulesUpTo depth) s).2.errors,
      e ∈ (dimsOnce (rulesUpTo depth) s).2.errors ∨ lastOffset? s.errors = some e.pos.offset) ∧
    (s.current.kind.isPrimitive = true → (dimsOnce (rulesUpTo depth) s).2.current.kind ≠ .colonColon →
      (primitiveTypeExpression (rulesUpTo depth) s).1.children =
        (leaf .primitiveType (rewound (rulesUpTo depth) s)).1 :: (dimsOnce (rulesUpTo depth) s).1.toList) := by
  obtain ⟨htree, hpos, htokens, herrors⟩ := dimsAgain_eq h
  refine ⟨htree, hpos, htokens, herrors, fun hprimitive hliteral => ?_⟩
  rw [children_primitiveTypeExpression hprimitive Prod.mk.eta.symm Prod.mk.eta.symm, if_neg hliteral, htree]
  cases (dimsOnce (rulesUpTo depth) s).1 <;> rfl

/-- `int @A((L<S>) x)[]::new`, with a cast whose type ends in one angle bracket. -/
theorem dims_again_of_unsplit_cast :
    let s := initial (Token.lex "int @A((L<S>) x)[]::new")
    (dimsOnce (rulesUpTo 100) s).2.tokens = s.tokens ∧
    (dimsAgain (rulesUpTo 100) s).1 = (dimsOnce (rulesUpTo 100) s).1 ∧
    (dimsOnce (rulesUpTo 100) s).1.isSome = true := by
  intro s
  have hkept : (dimsOnce (rulesUpTo 100) s).2.tokens = s.tokens := by decide +kernel
  have hsome : (dimsOnce (rulesUpTo 100) s).1.isSome = true := by decide +kernel
  exact ⟨hkept, (dims_again_of_unsplit 100 s hkept).1, hsome⟩

/-- `int @A((L<L<S>>) x)[]::new`: the first time, the angle brackets at the end of the type of the cast are split and
there is no error; the second time, one of them is gone, and the cast is none. -/
theorem dims_again_of_split :
    let rules := rulesUpTo 100
    let s := initial (Token.lex "int @A((L<L<S>>) x)[]::new")
    s.errors.length = 0 ∧ s.current.kind.isPrimitive = true ∧
    (dimsOnce rules s).2.errors.length = 0 ∧ (dimsOnce rules s).2.pos = 16 ∧
    (dimsAgain rules s).2.errors.length = 2 ∧ (dimsAgain rules s).2.pos = 12 := by
  decide +kernel

end KiteCompiler.Grammar
