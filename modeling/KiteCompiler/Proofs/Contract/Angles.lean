import KiteCompiler.Proofs.Parsing.Start

/-!
# Type arguments are passed over as they are read

The look-ahead counts the angle brackets of type arguments that it passes over (`passArguments`, on what is left to be
read). Reading a type leaves this count as it was, unless the look-ahead stops at a parenthesis of an annotation. So
the look-ahead and the reader come to the same place.

Type arguments that are read without errors are closed by an angle bracket of their own. For type parameters nobody
asks: they are closed just if a bracket stands behind the last one, and nothing is reported if it does not. So it is
with all nodes of what is read without errors (`angle_lists_end`).
-/

namespace KiteCompiler.Grammar

open Token (Lexeme)

variable {α β σ : Type}

/-- What is left when type arguments of which `depth` levels are open have been passed over. -/
def passArguments : List Lexeme → Int → List Lexeme
  | [], _ => []
  | l :: r, depth =>
    if depth ≤ 0 then l :: r
    else if l.1 ∈ argumentStops then l :: r
    else passArguments r (depth + nesting l.1)

theorem passArguments_of_le {r : List Lexeme} {depth : Int} (h : depth ≤ 0) : passArguments r depth = r := by
  cases r with
  | nil => rfl
  | cons l r => rw [passArguments, if_pos h]

theorem search_typeArguments_run (n : Nat) (depth : Int) (s : State) :
    searchUpTo typeArgumentsTurn (· ≤ 0) (n + 1) depth s = if depth ≤ 0 then (true, s)
    else if s.current.kind ∈ Token.Kind.eof :: argumentStops then (false, s)
    else searchUpTo typeArgumentsTurn (· ≤ 0) n (depth + nesting s.current.kind) s.advance := by
  rw [searchUpTo, typeArgumentsTurn]
  split
  · rfl
  · rw [bind_assoc, bind_run (show peek s = (s.current, s) from rfl)]
    dsimp only
    split <;> rfl

theorem input_search_typeArguments {s : State} (hs : s.Ready) {n : Nat} (hn : s.input.length ≤ n) (depth : Int) :
    (searchUpTo typeArgumentsTurn (· ≤ 0) n depth s).2.input = passArguments s.input depth := by
  induction n generalizing s depth with
  | zero =>
    rw [List.length_eq_zero_iff.1 (Nat.le_zero.1 hn)]
    exact List.length_eq_zero_iff.1 (Nat.le_zero.1 hn)
  | succ n ih =>
    rw [search_typeArguments_run]
    by_cases heof : s.current.kind = .eof
    · have hinput : s.input = [] := hs.input_nil_iff.2 heof
      rw [if_pos (show s.current.kind ∈ Token.Kind.eof :: argumentStops by rw [heof]; decide), hinput]
      split <;> exact hinput
    · have hinput := hs.input_cons heof
      have hmem : s.current.kind ∈ Token.Kind.eof :: argumentStops ↔ s.current.kind ∈ argumentStops := by simp [heof]
      rw [hinput, List.length_cons] at hn
      have hkind : s.current.lexeme.1 = s.current.kind := rfl
      simp only [hinput, passArguments, hmem, hkind]
      split
      · exact hinput
      · split
        · exact hinput
        · exact ih hs.advance (Nat.le_of_succ_le_succ hn) _

/-! ## Reading -/

/-- What may be left of a longer token, and no type can go on with. -/
def spoilingKinds : List Token.Kind := [.assign, .greaterEqual, .shiftRightAssign]

/-- Such a token is current. -/
def Spoiled (s : State) : Prop := s.current.kind ∈ spoilingKinds

/-- Passing over the type arguments that are open comes to the same from both states, if there are `n - m` more of them
in the second one. -/
structure Passes (m n : Int) (s s' : State) : Prop where
  spoiled (h : Spoiled s) : Spoiled s'
  same : Spoiled s' ∨ ∀ depth : Int, 1 ≤ depth → headKind (passArguments s.input (depth + m)) = .lparen ∨
    passArguments s.input (depth + m) = passArguments s'.input (depth + n)

/-- Tokens that do not count. -/
def Neutral (k : Token.Kind) : Prop := k ∉ Token.Kind.eof :: argumentStops ∧ nesting k = 0 ∧ k ∉ spoilingKinds

instance (k : Token.Kind) : Decidable (Neutral k) := inferInstanceAs (Decidable (_ ∧ _))

theorem passArguments_cons {l : Lexeme} {r : List Lexeme} {depth : Int} (hdepth : 1 ≤ depth)
    (hl : l.1 ∉ argumentStops) : passArguments (l :: r) depth = passArguments r (depth + nesting l.1) := by
  rw [passArguments, if_neg (by omega), if_neg hl]

namespace Passes

variable {k m n : Int} {s s₁ s' : State}

theorem refl (m : Int) (s : State) : Passes m m s s := ⟨id, .inr fun _ _ => .inr rfl⟩

theorem trans (h : Passes m n s s₁) (h' : Passes n k s₁ s') : Passes m k s s' := by
  refine ⟨fun hs => h'.spoiled (h.spoiled hs), ?_⟩
  rcases h'.same with hspoiled | hsame'
  · exact .inl hspoiled
  · rcases h.same with hspoiled | hsame
    · exact .inl (h'.spoiled hspoiled)
    · refine .inr fun depth hdepth => ?_
      rcases hsame depth hdepth with hstop | heq
      · exact .inl hstop
      · rw [heq]
        exact hsame' depth hdepth

/-- What holds at every level holds at the levels further in. -/
theorem inner (h : Passes 0 0 s s') : Passes 1 1 s s' := by
  refine ⟨h.spoiled, h.same.imp_right fun hsame depth hdepth => ?_⟩
  have := hsame (depth + 1) (by omega)
  simpa only [Int.add_zero] using this

/-- Nothing is passed over at a parenthesis. -/
theorem of_lparen (hs : s.Ready) (h : s.current.kind = .lparen) (s' : State) : Passes 0 n s s' := by
  refine ⟨fun hspoiled => absurd hspoiled (by rw [Spoiled, h]; decide), .inr fun depth hdepth => .inl ?_⟩
  have heof : s.current.kind ≠ .eof := by rw [h]; decide
  have hstop : s.current.lexeme.1 ∈ argumentStops := by rw [show s.current.lexeme.1 = _ from h]; decide
  rw [hs.input_cons heof, passArguments, if_neg (by omega), if_pos hstop]
  exact h

theorem advance (hs : s.Ready) (hstop : s.current.kind ∉ Token.Kind.eof :: argumentStops) (hspoiled : ¬Spoiled s) :
    Passes 0 (nesting s.current.kind) s s.advance := by
  rw [List.mem_cons, not_or] at hstop
  refine ⟨fun h => absurd h hspoiled, .inr fun depth hdepth => .inr ?_⟩
  rw [Int.add_zero, hs.input_cons hstop.1, passArguments_cons hdepth hstop.2]
  rfl

theorem neutral (hs : s.Ready) (h : Neutral s.current.kind) : Passes 0 0 s s.advance := by
  obtain ⟨hstop, hcount, hspoiled⟩ := h
  have hpasses := advance hs hstop hspoiled
  rwa [hcount] at hpasses

end Passes

/-- Without an error, reading passes over what it reads. -/
class Passing (p : Parser α) : Prop where
  passes (s : State) (hs : s.Ready) (h : (p s).2.errors = []) : Passes 0 0 s (p s).2
  forward : Forward p

/-- The same of a reader that starts where a condition holds. -/
structure PassingWhen (C : State → Prop) (p : Parser α) : Prop where
  passes (s : State) (hs : s.Ready) (hC : C s) (h : (p s).2.errors = []) : Passes 0 0 s (p s).2
  forward : Forward p

namespace Passing

variable {C : State → Prop}

theorem when {p : Parser α} (hp : Passing p) : PassingWhen C p := ⟨fun s hs _ h => hp.passes s hs h, hp.forward⟩

instance looks {p : Parser α} [hp : Looks p] [hp' : Forward p] : Passing p :=
  ⟨fun s _ h => by rw [hp.stays h]; exact .refl 0 s, hp'⟩

instance bind {p : Parser α} {f : α → Parser β} [hp : Passing p] [hf : ∀ a, Passing (f a)] : Passing (p >>= f) := by
  have hp' := hp.forward
  have hf' := fun a => (hf a).forward
  refine ⟨fun s hs h => ?_, inferInstance⟩
  exact (hp.passes s hs ((hf' _).errors h)).trans ((hf _).passes _ ((hp'.onward s).ready hs) h)

/-- A part that is followed by something else. -/
theorem after {p : Parser α} {f : α → Parser β} (hp : PassingWhen C p) (hf : ∀ a, Passing (f a)) :
    PassingWhen C (p >>= f) := by
  have hp' := hp.forward
  have hf' := fun a => (hf a).forward
  refine ⟨fun s hs hC h => ?_, inferInstance⟩
  exact (hp.passes s hs hC ((hf' _).errors h)).trans ((hf _).passes _ ((hp'.onward s).ready hs) h)

/-- A question whose answer tells something of the state. -/
theorem asking {c : Parser Bool} [Looks c] [Forward c] {f : Bool → Parser β}
    (hyes : PassingWhen (fun s => (c s).1 = true) (f true)) (hno : Passing (f false)) : Passing (c >>= f) := by
  have hf : ∀ b, Forward (f b) := fun b => by cases b <;> [exact hno.forward; exact hyes.forward]
  refine ⟨fun s hs h => ?_, inferInstance⟩
  have hrun := Looks.run hf h
  rw [hrun] at h ⊢
  cases hb : (c s).1 with
  | true => exact hyes.passes s hs hb (by rw [← hb]; exact h)
  | false => exact hno.passes s hs (by rw [← hb]; exact h)

theorem test {c : Parser Bool} [Looks c] [Forward c] {p q : Parser β} (hp : PassingWhen (fun s => (c s).1 = true) p)
    (hq : Passing q) : Passing (do if ← c then p else q) := asking hp hq

theorem peeked {f : Token → Parser α} (hf : ∀ t, PassingWhen (fun s => s.current = t) (f t)) :
    Passing (peek >>= f) := by
  have hf' := fun t => (hf t).forward
  exact ⟨fun s hs h => (hf s.current).passes s hs rfl h, inferInstance⟩

instance ite {c : Prop} [Decidable c] {p q : Parser α} [hp : Passing p] [hq : Passing q] :
    Passing (if c then p else q) := by
  split <;> assumption

theorem skip (hC : ∀ s, C s → Neutral s.current.kind) : PassingWhen C Grammar.skip :=
  ⟨fun _ hs h _ => .neutral hs (hC _ h), inferInstance⟩

theorem leaf {k : Cst.Kind} (hC : ∀ s, C s → Neutral s.current.kind) : PassingWhen C (Grammar.leaf k) :=
  ⟨fun _ hs h _ => .neutral hs (hC _ h), inferInstance⟩

/-- An error is recorded. -/
theorem failing {p : Parser α} (hp : Forward p) (h : ∀ s, (p s).2.errors ≠ []) : Passing p :=
  ⟨fun s _ herrors => absurd herrors (h s), hp⟩

theorem expect (k : Token.Kind) (hk : Neutral k) : Passing (Grammar.expect k) := by
  refine asking ⟨fun s hs hcheck _ => ?_, inferInstance⟩ (failing inferInstance fun s => ?_)
  · exact .neutral hs (by rw [beq_iff_eq.1 hcheck]; exact hk)
  · exact State.errors_record_ne_nil _ _

instance errorNode (construct : Construct) (recovery : List Token.Kind) : Passing (errorNode construct recovery) :=
  failing inferInstance (errors_errorNode_ne_nil construct recovery)

theorem neutral_of_isName {k : Token.Kind} (h : k.isName = true) : Neutral k := by
  revert h
  cases k <;> decide

theorem neutral_of_isPrimitive {k : Token.Kind} (h : k.isPrimitive = true) : Neutral k := by
  revert h
  cases k <;> decide

instance identifier : Passing identifier :=
  asking (leaf fun _ h => neutral_of_isName h) (failing inferInstance fun _ => State.errors_record_ne_nil _ _)

instance finish (k : Cst.Kind) (start : Position) (ts : List Cst) : Passing (finish k start ts) :=
  ⟨fun s _ _ => .refl 0 s, inferInstance⟩

instance {k : Cst.Kind} {p : Parser (List Cst)} [hp : Passing p] : Passing (node k p) := by unfold node; infer_instance

/-! ## Loops -/

theorem repeatUpTo {turn : Parser (Turn Unit)} (h : Passing turn) (n : Nat) :
    Passing (Grammar.repeatUpTo (fun _ => turn) n ()) := by
  induction n with
  | zero => exact (inferInstance : Passing (pure []))
  | succ n ih =>
    refine @bind _ _ _ _ h fun t => ?_
    split <;> infer_instance

theorem repeatTurns {turn : Parser (Turn Unit)} (h : Passing turn) : Passing (Grammar.repeatTurns turn) :=
  @bind _ _ _ _ inferInstance fun _ => repeatUpTo h _

theorem manyWhile {c : Parser Bool} [Looks c] [Forward c] {item : Parser Cst}
    (h : PassingWhen (fun s => (c s).1 = true) item) :
    Passing (manyWhile c item) :=
  repeatTurns (test (after h inferInstance) inferInstance)

theorem separated {k : Token.Kind} {item : Parser Cst} (hk : Neutral k) (hitem : Passing item) :
    Passing (separated k item) := by
  refine repeatTurns (@bind _ _ _ _ hitem fun t => test (after (skip fun s h => ?_) inferInstance) inferInstance)
  rw [beq_iff_eq.1 h]
  exact hk

theorem optionalIf {c : Parser Bool} [Looks c] [Forward c] {item : Parser Cst}
    (h : PassingWhen (fun s => (c s).1 = true) item) :
    Passing (optionalIf c item) := test (after h inferInstance) inferInstance

/-- A dot before something that goes on with it. -/
theorem dotted {p : Parser α} {c : Parser Bool} (hp : Passing p) :
    PassingWhen (fun s => ((check .dot <&&> c) s).1 = true) (do Grammar.skip; p) := by
  refine after (skip fun s h => ?_) fun _ => hp
  rw [beq_iff_eq.1 (and_left h)]
  decide

instance qualifiedName : Passing qualifiedName := by
  have hmore : Passing (Grammar.manyWhile (check .dot <&&> checkNameAhead) do Grammar.skip; Grammar.identifier) :=
    manyWhile (dotted inferInstance)
  unfold Grammar.qualifiedName
  infer_instance

section

variable (rules : Rules) [∀ p, Forward (rules p)] [hrule : Passing (rules .type)]

set_option synthInstance.maxSize 2000 in
instance annotationUse : Passing (annotationUse rules) := by
  have hat := expect .atSign (by decide)
  have hparts (name : Cst) : Passing (do
      if !(← check .lparen) then return [name]
      Grammar.skip
      let values ←
        if ← checkName <&&> checkAhead 1 .assign then Grammar.separated .comma (elementValuePair rules)
        else Grammar.optionalIf (not <$> check .rparen) (rules .elementValue)
      Grammar.expect .rparen
      return name :: values) := by
    refine asking ⟨fun s hs hC _ => .of_lparen hs (beq_iff_eq.1 hC) _, ?_⟩ (inferInstanceAs (Passing (pure [name])))
    dsimp only
    infer_instance
  unfold Grammar.annotationUse
  infer_instance

instance annotations : Passing (annotations rules) := manyWhile (annotationUse rules).when

instance wildcard : Passing (wildcard rules) := by
  have hquestion := expect .question (by decide)
  have hbound (as : List Cst) : Passing (do
      if ← checkAny [.kwExtends, .kwSuper] then
        let operator ← Grammar.leaf .operator
        return as ++ [operator, ← rules .type]
      return as) := by
    have hwords : ∀ k ∈ [Token.Kind.kwExtends, .kwSuper], Neutral k := by decide
    exact test (after (leaf fun s h => hwords _ (List.contains_iff_mem.1 h)) inferInstance) inferInstance
  unfold Grammar.wildcard
  infer_instance

instance : Passing (typeArgument rules) := by unfold typeArgument; infer_instance

omit [∀ p, Forward (rules p)] hrule in
/-- What is left of a token counts as one level less, unless nothing can go on with it. -/
theorem nesting_afterAngle {k k' : Token.Kind} (h : afterAngle k = some k') :
    k' ∈ spoilingKinds ∨ nesting k + 1 = nesting k' ∧ k ∉ argumentStops ∧ k' ∉ argumentStops ∧ k ∉ spoilingKinds := by
  unfold afterAngle at h
  split at h <;> cases h <;> decide

omit [∀ p, Forward (rules p)] hrule in
theorem mem_of_afterAngle {k k' : Token.Kind} (h : afterAngle k = some k') :
    k' ∈ Token.Kind.greater :: .shiftRight :: spoilingKinds := by
  unfold afterAngle at h
  split at h <;> cases h <;> decide

omit [∀ p, Forward (rules p)] hrule in
theorem passes_closeAngle {s : State} (hs : s.Ready) (h : (closeAngle s).1 = true) : Passes 1 0 s (closeAngle s).2 := by
  rw [closeAngle_apply] at h ⊢
  split
  · next hk =>
    have hpasses := Passes.advance hs (by rw [hk]; decide) (by rw [Spoiled, hk]; decide)
    rw [hk] at hpasses
    refine ⟨hpasses.spoiled, hpasses.same.imp_right fun hsame depth hdepth => ?_⟩
    have := hsame (depth + 1) (by omega)
    rwa [Int.add_zero, show depth + 1 + nesting .greater = depth + 0 by simp only [nesting]; omega] at this
  · cases hk : afterAngle s.current.kind with
    | none => rw [if_neg ‹_›, hk] at h; cases h
    | some k' =>
      dsimp only
      have hkind : (s.splitCurrent k').current.kind = k' := congrArg Prod.fst (hs.current_splitCurrent k')
      rcases nesting_afterAngle hk with hspoiled | ⟨hcount, hstop, hstop', hspoiled⟩
      · have hspoiled : Spoiled (s.splitCurrent k') := by rw [Spoiled, hkind]; exact hspoiled
        exact ⟨fun _ => hspoiled, .inl hspoiled⟩
      · refine ⟨fun hs => absurd hs hspoiled, .inr fun depth hdepth => .inr ?_⟩
        rw [hs.input_splitCurrent hk, hs.input_cons (State.afterAngle_ne_eof hk).1, List.tail_cons,
          passArguments_cons (by omega) hstop, passArguments_cons (by omega) hstop']
        congr 1
        change depth + 1 + nesting s.current.kind = depth + 0 + nesting k'
        omega

omit [∀ p, Forward (rules p)] hrule in
theorem closeAngle_of_false {s : State} (h : (closeAngle s).1 = false) : closeAngle s = (false, s) := by
  rw [closeAngle_apply] at h ⊢
  split
  · next hk => rw [if_pos hk] at h; cases h
  · next hk =>
    rw [if_neg hk] at h
    cases hafter : afterAngle s.current.kind with
    | none => rfl
    | some k' => rw [hafter] at h; cases h

/-- What is left of type arguments after the angle bracket that opens them. -/
def argumentsTail : Parser (List Cst) := do
  if ← closeAngle then return []
  let arguments ← Grammar.separated .comma (typeArgument rules)
  if !(← closeAngle) then let _ ← reportHere (.missing .greater)
  return arguments

omit [∀ p, Forward (rules p)] hrule in
theorem typeArguments_eq :
    Grammar.typeArguments rules = node .typeArguments (do Grammar.expect .less; argumentsTail rules) := rfl

omit hrule in
instance : Forward (argumentsTail rules) := by unfold argumentsTail; dsimp only; infer_instance

/-- Where the closing bracket of type arguments is looked for: at once, and then behind the arguments. -/
def argumentsEnd (s : State) : State :=
  if (closeAngle s).1 = true then s else (Grammar.separated .comma (typeArgument rules) s).2

omit [∀ p, Forward (rules p)] hrule in
/-- Without errors, the bracket is where it is looked for. -/
theorem closeAngle_argumentsEnd {s : State} (h : (argumentsTail rules s).2.errors = []) :
    closeAngle (argumentsEnd rules s) = (true, (argumentsTail rules s).2) := by
  unfold argumentsTail at h ⊢
  unfold argumentsEnd
  cases hclose : (closeAngle s).1 with
  | true =>
    obtain ⟨s', hs'⟩ : ∃ s', closeAngle s = (true, s') := ⟨_, Prod.ext hclose rfl⟩
    rw [if_pos rfl, bind_run hs', hs']
    rfl
  | false =>
    rw [if_neg Bool.false_ne_true]
    rw [bind_run (closeAngle_of_false hclose), if_neg Bool.false_ne_true] at h ⊢
    obtain ⟨as, s₁, has⟩ : ∃ as s₁, Grammar.separated .comma (typeArgument rules) s = (as, s₁) := ⟨_, _, rfl⟩
    rw [bind_run has] at h ⊢
    rw [has]
    cases hclose₁ : (closeAngle s₁).1 with
    | true =>
      obtain ⟨s', hs'⟩ : ∃ s', closeAngle s₁ = (true, s') := ⟨_, Prod.ext hclose₁ rfl⟩
      rw [bind_run hs', hs']
      rfl
    | false =>
      rw [bind_run (closeAngle_of_false hclose₁)] at h
      exact absurd h (State.errors_record_ne_nil _ _)

/-- Type arguments are closed by an angle bracket, which is reached by reading them. -/
theorem argumentsTail_closes {s : State} (hs : s.Ready) (h : (argumentsTail rules s).2.errors = []) :
    ∃ s₁, s₁.Ready ∧ Passes 0 0 s s₁ ∧ (closeAngle s₁).1 = true ∧ (argumentsTail rules s).2 = (closeAngle s₁).2 := by
  have harguments : Passing (Grammar.separated .comma (typeArgument rules)) := separated (by decide) inferInstance
  have hforward : Forward closeAngle := inferInstance
  have hclose := closeAngle_argumentsEnd rules h
  have herrors : (argumentsEnd rules s).errors = [] := hforward.errors (by rw [hclose]; exact h)
  have hend : (argumentsEnd rules s).Ready ∧ Passes 0 0 s (argumentsEnd rules s) := by
    unfold argumentsEnd at herrors ⊢
    split
    · exact ⟨hs, .refl 0 s⟩
    · next hopen =>
      rw [if_neg hopen] at herrors
      exact ⟨(harguments.forward.onward s).ready hs, harguments.passes s hs herrors⟩
  exact ⟨_, hend.1, hend.2, by rw [hclose], by rw [hclose]⟩

omit [∀ p, Forward (rules p)] hrule in
theorem typeArguments_state {s : State} (hless : s.current.kind = .less) :
    (Grammar.typeArguments rules s).2 = (argumentsTail rules s.advance).2 := by
  rw [typeArguments_eq, node_state, bind_run (expect_of_kind hless)]

instance typeArguments : Passing (typeArguments rules) := by
  have hparts : Passing (do Grammar.expect .less; argumentsTail rules) := by
    refine ⟨fun s hs h => ?_, inferInstance⟩
    have hforward : Forward (argumentsTail rules) := inferInstance
    obtain ⟨s₀, hs₀⟩ : ∃ s₀, Grammar.expect .less s = ((), s₀) := ⟨_, rfl⟩
    rw [bind_run hs₀] at h ⊢
    obtain ⟨hless, hrun⟩ := expect_run (k := .less) (by rw [hs₀]; exact hforward.errors h)
    obtain rfl : s₀ = s.advance := congrArg Prod.snd (hs₀.symm.trans hrun)
    obtain ⟨s₁, hready, hpasses, hclose, hend⟩ := argumentsTail_closes rules hs.advance h
    have hopen := Passes.advance hs (by rw [hless]; decide) (by rw [Spoiled, hless]; decide)
    rw [hless] at hopen
    rw [hend]
    exact (hopen.trans hpasses.inner).trans (passes_closeAngle hready hclose)
  rw [typeArguments_eq]
  infer_instance

instance classTypeElement : Passing (classTypeElement rules) := by
  have harguments : Passing (Grammar.optionalAt .less (Grammar.typeArguments rules)) :=
    optionalIf (typeArguments rules).when
  unfold Grammar.classTypeElement
  infer_instance

instance classType : Passing (classType rules) := by
  have hparts : Passing (Grammar.repeatTurns (segmentTurn rules)) :=
    repeatTurns (@bind _ _ _ _ inferInstance fun t => test (dotted inferInstance) inferInstance)
  unfold Grammar.classType
  infer_instance

instance dim : Passing (dim rules) := by
  have hopen := expect .lbracket (by decide)
  have hclose := expect .rbracket (by decide)
  unfold Grammar.dim
  infer_instance

instance dims : Passing (dims rules) := by
  have hdims : Passing (Grammar.manyWhile startsDim (Grammar.dim rules)) := manyWhile (dim rules).when
  unfold Grammar.dims
  infer_instance

instance type : Passing (type rules) := by
  have hdims : Passing (dimsHere rules) := test (inferInstance : Passing _).when inferInstance
  unfold Grammar.type elementType
  refine @bind _ _ _ _ inferInstance fun start => @bind _ _ _ _ inferInstance fun as => peeked fun t => ?_
  dsimp only
  split
  · next h => exact after (leaf fun s hs => neutral_of_isPrimitive (hs ▸ h)) inferInstance
  · split
    · exact (inferInstance : Passing _).when
    · exact (errorNode _ _).when

/-- Where type arguments have been read, passing over them comes to the same place: unless it stops earlier at a
parenthesis, or what is left begins with a part of a longer token. -/
theorem input_skipTypeArguments {s : State} (hs : s.Ready) (hless : s.current.kind = .less)
    (h : (Grammar.typeArguments rules s).2.errors = []) :
    headKind (skipTypeArguments s).2.input = .lparen ∨ (skipTypeArguments s).2.input =
    (Grammar.typeArguments rules s).2.input ∨
      (Grammar.typeArguments rules s).2.current.kind ∈ Token.Kind.greater :: .shiftRight :: spoilingKinds := by
  have hskip : skipTypeArguments s = searchUpTo typeArgumentsTurn (· ≤ 0) (s.advance.remaining + 1) 1 s.advance := by
    unfold skipTypeArguments
    rw [bind_run (check_run .less s), hless]
    rfl
  have hinput : (skipTypeArguments s).2.input = passArguments s.advance.input 1 := by
    rw [hskip]
    exact input_search_typeArguments hs.advance (by have := hs.advance.length_input; omega) 1
  rw [typeArguments_state rules hless] at h ⊢
  obtain ⟨s₁, hready, hpasses, hclose, hend⟩ := argumentsTail_closes rules hs.advance h
  rw [hinput, hend]
  have hcloses := passes_closeAngle hready hclose
  rcases hpasses.same with hspoiled | hsame
  · exact .inr (.inr (List.mem_cons_of_mem _ (List.mem_cons_of_mem _ (hcloses.spoiled hspoiled))))
  rcases hsame 1 (Int.le_refl 1) with hstop | heq
  · exact .inl hstop
  · refine .inr ?_
    rw [Int.add_zero] at heq
    rw [heq]
    rw [closeAngle_apply] at hclose ⊢
    split
    · next hk =>
      left
      rw [hready.input_cons (by rw [hk]; decide), passArguments_cons (Int.le_refl 1)
        (by rw [show s₁.current.lexeme.1 = _ from hk]; decide)]
      exact passArguments_of_le (by rw [show s₁.current.lexeme.1 = _ from hk]; decide)
    · next hk =>
      right
      rw [if_neg hk] at hclose
      cases hafter : afterAngle s₁.current.kind with
      | none => rw [hafter] at hclose; cases hclose
      | some k' =>
        have hkind : (s₁.splitCurrent k').current.kind = k' := congrArg Prod.fst (hready.current_splitCurrent k')
        dsimp only
        rw [hkind]
        exact mem_of_afterAngle hafter

end

end Passing

/-! ## Closing brackets -/

section

variable (rules : Rules)

/-- Where the closing bracket of type parameters is looked for. -/
def parametersEnd (s : State) : State := (separated .comma (typeParameter rules) s).2

theorem typeParameters_state {s : State} (hless : s.current.kind = .less) :
    (typeParameters rules s).2 = (closeAngle (parametersEnd rules s.advance)).2 := by
  unfold typeParameters parametersEnd
  cases hs₁ : separated .comma (typeParameter rules) s.advance with
  | mk ts s₁ =>
    rw [node_state, bind_run (expect_of_kind hless), bind_run hs₁]
    rfl

/-- The list ends behind a bracket of its own. -/
def ClosedArguments (s : State) : Prop :=
  closeAngle (Passing.argumentsEnd rules s.advance) = (true, (typeArguments rules s).2)

/-- The list ends behind the bracket if it is there. If it is not, it ends behind the last parameter, with the errors
that there were. -/
def EndedParameters (s : State) : Prop :=
  closeAngle (parametersEnd rules s.advance) = (true, (typeParameters rules s).2) ∨
    (closeAngle (parametersEnd rules s.advance)).1 = false ∧ (typeParameters rules s).2 = parametersEnd rules s.advance

variable {s : State} (hless : s.current.kind = .less)

include hless

theorem closed_typeArguments (h : (typeArguments rules s).2.errors = []) : ClosedArguments rules s := by
  rw [Passing.typeArguments_state rules hless] at h
  rw [ClosedArguments, Passing.typeArguments_state rules hless]
  exact Passing.closeAngle_argumentsEnd rules h

theorem ended_typeParameters : EndedParameters rules s := by
  rw [EndedParameters, typeParameters_state rules hless]
  generalize parametersEnd rules s.advance = s₁
  cases hclose : (closeAngle s₁).1 with
  | true => exact .inl (Prod.ext hclose rfl)
  | false => exact .inr ⟨rfl, by rw [Passing.closeAngle_of_false hclose]⟩

end

/-- The node is read by `list` from a state on to which reading the source leads, at an opening bracket, and the list
ends as `Ends` says. -/
def ListRead (source : Text) (list : Rules → Parser Cst) (Ends : Rules → State → Prop) (t : Cst) : Prop :=
  ∃ depth s, Reaches (initial (Token.lex source)) s ∧ s.current.kind = .less ∧ t.span.first = s.current.span.first ∧
    t.children = (list (rulesUpTo depth) s).1.children ∧ Ends (rulesUpTo depth) s

/-- All nodes but those of lists between angle brackets. -/
abbrev isNoAngleList : Cst.Kind → Bool
  | .typeArguments | .typeParameters => false
  | _ => true

/-- Without errors, lists between angle brackets end as they should. -/
def bracketing (source : Text) : NodeLaw :=
  .about isNoAngleList (fun k => by cases k <;> decide) (Reaches (initial (Token.lex source)))
    (fun h hs => hs.trans h.reaches) (fun t =>
    (t.kind = .typeArguments → ListRead source typeArguments ClosedArguments t) ∧
      (t.kind = .typeParameters → ListRead source typeParameters EndedParameters t)) fun _ _ h => h

section

variable {source : Text}

instance {k : Cst.Kind} [h : Holds (isNoAngleList k)] : Free (bracketing source) k := .about h.eq_true

/-- Nodes that begin with a token that is expected. -/
theorem kind_of_expected {k : Token.Kind} {kind : Cst.Kind} {p : Parser (List Cst)} [hp : Forward p] {s : State}
    (h : (node kind (do expect k; p) s).2.errors = []) : s.current.kind = k := by
  rw [node_state] at h
  exact (expect_run (hp.errors h)).1

theorem root_node_run (kind : Cst.Kind) (p : Parser (List Cst)) (s : State) :
    Cst.kind (node kind p s).1 = kind ∧ (node kind p s).1.span.first = s.current.span.first := ⟨rfl, rfl⟩

instance (depth : Nat) : Keeps.Bracketed (bracketing source) (rulesUpTo depth) where
  arguments s hs h _ := by
    have herrors := List.subset_nil.1 h
    have hless : s.current.kind = .less := by
      rw [Passing.typeArguments_eq] at herrors
      exact kind_of_expected herrors
    obtain ⟨hkind, hfirst⟩ : Cst.kind (typeArguments (rulesUpTo depth) s).1 = .typeArguments ∧ _ := root_node_run _ _ s
    refine ⟨fun _ => ⟨depth, s, hs, hless, hfirst, rfl, closed_typeArguments _ hless herrors⟩, fun hk => ?_⟩
    cases hkind.symm.trans hk
  parameters s hs h _ := by
    have hless : s.current.kind = .less := by
      have herrors := List.subset_nil.1 h
      unfold typeParameters at herrors
      exact kind_of_expected herrors
    obtain ⟨hkind, hfirst⟩ : Cst.kind (typeParameters (rulesUpTo depth) s).1 = .typeParameters ∧ _ :=
      root_node_run _ _ s
    refine ⟨fun hk => ?_, fun _ => ⟨depth, s, hs, hless, hfirst, rfl, ended_typeParameters _ hless⟩⟩
    cases hkind.symm.trans hk

instance (depth : Nat) (p : Production) : Keeps (bracketing source) (rulesUpTo depth p) := Keeps.rulesUpTo depth p

/-- **Closing angle brackets.** In a source without errors, all type arguments end behind a bracket of their own. Type
parameters end behind the bracket if it is there. If it is not, they end behind the last parameter, without an error. -/
theorem angle_lists_end (h : (parseUnit source).errors = []) : ∀ t ∈ (parseUnit source).tree.subtrees,
    (Cst.kind t = .typeArguments → ListRead source typeArguments ClosedArguments t) ∧
      (Cst.kind t = .typeParameters → ListRead source typeParameters EndedParameters t) := by
  intro t ht
  have hevery := every_parse (L := bracketing source) .refl h t ht
  exact ⟨fun hk => (hevery (by rw [hk])).1 hk, fun hk => (hevery (by rw [hk])).2 hk⟩

end

theorem angle_lists_end_nested :
    let parsed := parseUnit "class A<T\x7bB<C<T>>b;\x7d"
    parsed.errors = [] ∧ (parsed.tree.subtrees.filter fun t => !isNoAngleList (Cst.kind t)).length = 3 ∧
      ∀ t ∈ parsed.tree.subtrees,
        (Cst.kind t = .typeArguments → ListRead "class A<T\x7bB<C<T>>b;\x7d" typeArguments ClosedArguments t) ∧
          (Cst.kind t = .typeParameters → ListRead "class A<T\x7bB<C<T>>b;\x7d" typeParameters EndedParameters t) := by
  have h : (parseUnit "class A<T\x7bB<C<T>>b;\x7d").errors = [] := by decide +kernel
  exact ⟨h, by decide +kernel, angle_lists_end h⟩

/-- Type parameters are accepted in a source that has no closing bracket at all. -/
theorem unclosed_typeParameters_accepted :
    let source : Text := "class A<T\x7b\x7d"
    (parseUnit source).errors = [] ∧ Text.byte '>' ∉ source := by
  decide +kernel

end KiteCompiler.Grammar
