import KiteCompiler.Proofs.Termination.Unread

/-!
# Every turn of a loop gets on

All loops of the grammar have one form (`Loop`): turns are taken until one says that it is the last. Each turn after
which the loop goes on has moved to a later token (`IsLoop.getsOn`). So no loop takes more turns than there are tokens
left, and the bound on its turns is never the reason for which it ends (`Loop.run_eq`).
-/

namespace KiteCompiler.Grammar

variable {α β σ : Type}

/-! ## Loops -/

/-- What a turn says about going on: the value from which the next turn starts, if there is one. -/
class Ongoing (β : Type) (σ : outParam Type) where
  next : β → Option σ

instance : Ongoing (Turn σ) σ := ⟨Turn.next⟩

instance : Ongoing (Option σ) σ := ⟨id⟩

instance : Ongoing Bool Unit := ⟨fun b => if b then some () else none⟩

/-- A turn either ends a loop with a result or goes on. -/
instance : Ongoing (α ⊕ σ) σ := ⟨Sum.getRight?⟩

/-- A loop of the grammar: `run` takes turns, at most as many as its bound, until one is the last. Then `leave` is what
results, and `add` puts what a turn has found to the result of the turns behind it. -/
structure Loop (σ α β : Type) [Ongoing β σ] where
  run : Nat → σ → Parser α
  turn : σ → Parser β
  leave : σ → β → α
  add : β → α → α
  run_succ : ∀ bound a, run (bound + 1) a =
    turn a >>= fun b => (Ongoing.next b).elim (pure (leave a b)) fun a => add b <$> run bound a

namespace Loop

variable [Ongoing β σ]

/-- Each turn is the last one or moves on. -/
def GetsOn (L : Loop σ α β) : Prop :=
  ∀ a s, s.Ready → (Ongoing.next (L.turn a s).1).isSome = true → Moves (L.turn a) s

/-- The loop with these turns, whose results are put one behind the other. -/
def turns (turn : σ → Parser (Turn σ)) : Loop σ (List Cst) (Turn σ) where
  run := repeatUpTo turn
  turn := turn
  leave _ t := t.added
  add t ts := t.added ++ ts
  run_succ bound a := by
    refine bind_congr fun t => ?_
    change _ = t.next.elim _ _
    cases t.next <;> rfl

/-- The loop that rebuilds a tree. -/
def growing (turn : Cst → Parser (Option Cst)) : Loop Cst Cst (Option Cst) where
  run := growUpTo turn
  turn := turn
  leave t _ := t
  add _ t := t
  run_succ bound t := bind_congr fun u => by cases u <;> rfl

/-- The loop without a result. -/
def running (part : Parser Bool) : Loop Unit Unit Bool where
  run bound _ := whileUpTo part bound
  turn _ := part
  leave _ _ := ()
  add _ _ := ()
  run_succ bound _ := bind_congr fun b => by cases b <;> rfl

/-- The loop whose last turn has the result. -/
def searching (turn : σ → Parser (α ⊕ σ)) (otherwise : σ → α) : Loop σ α (α ⊕ σ) where
  run := searchUpTo turn otherwise
  turn := turn
  leave a b := b.getLeft?.getD (otherwise a)
  add _ r := r
  run_succ bound a := bind_congr fun b => by cases b <;> rfl

/-- The bound is never the reason for which a loop ends. -/
theorem run_eq {L : Loop σ α β} [hforward : ∀ a, Forward (L.turn a)] (hL : L.GetsOn) {n n' : Nat} {s : State}
    (hs : s.Ready) (hn : s.remaining ≤ n) (hn' : s.remaining ≤ n') (a : σ) : L.run n a s = L.run n' a s := by
  have hlt := hs.pos_lt
  induction n generalizing n' a s with
  | zero =>
    unfold State.remaining at hn
    omega
  | succ n ih =>
    obtain ⟨n', rfl⟩ := Nat.exists_eq_succ_of_ne_zero (show n' ≠ 0 by unfold State.remaining at hn'; omega)
    have hturn : L.turn a s = ((L.turn a s).1, (L.turn a s).2) := rfl
    rw [L.run_succ, L.run_succ, bind_run hturn, bind_run hturn]
    cases hnext : (Ongoing.next (L.turn a s).1 : Option σ) with
    | none => rfl
    | some b =>
      have honward := (hforward a).onward s
      have hmoves : s.pos < (L.turn a s).2.pos := hL a s hs (by rw [hnext]; rfl)
      have hready := honward.ready hs
      have hsize := honward.size
      have hrest : L.run n b (L.turn a s).2 = L.run n' b (L.turn a s).2 := by
        unfold State.remaining at hn hn'
        refine ih hready ?_ ?_ b hready.pos_lt <;> unfold State.remaining <;> omega
      exact congrArg (fun r : α × State => (L.add (L.turn a s).1 r.1, r.2)) hrest

end Loop

/-! ## Turns that get on -/

/-- Started at a token with the property `C`, a turn after which the loop goes on takes a token. -/
class Paced (C : Token.Kind → Bool) {β σ : Type} [Ongoing β σ] (p : Parser β) : Prop where
  moves {s : State} (hs : s.Ready) (hC : C s.current.kind = true) (h : (Ongoing.next (p s).1).isSome = true) : Moves p s

namespace Paced

variable {C C' : Token.Kind → Bool} [Ongoing β σ]

instance (priority := low) takes {p : Parser β} [hp : Takes C p] : Paced C p := ⟨fun hs hC _ => hp.moves hs hC⟩

/-- The last turn. -/
theorem ended {b : β} (h : Ongoing.next b = none) : Paced C (pure b : Parser β) :=
  ⟨fun _ _ hnext => absurd (show (Ongoing.next b).isSome = true from hnext) (by rw [h]; exact Bool.false_ne_true)⟩

instance last (ts : List Cst) : Paced C (pure (Turn.last ts) : Parser (Turn σ)) := ended rfl

instance none : Paced C (pure (Option.none : Option σ)) := ended rfl

instance stop : Paced C (pure false : Parser Bool) := ended rfl

instance found (r : α) : Paced C (pure (Sum.inl r) : Parser (α ⊕ σ)) := ended rfl

instance ite {c : Prop} [Decidable c] {p q : Parser β} [hp : Paced C p] [hq : Paced C q] :
    Paced C (if c then p else q) := by
  split <;> assumption

/-- What comes behind a reader moves on from where that has come to. -/
theorem afterAny {p : Parser α} {f : α → Parser β} [hp : Forward p] (hf : ∀ a, Paced anything (f a)) :
    Paced C (p >>= f) :=
  ⟨fun {s} hs _ h => Moves.after ((hf _).moves ((hp.onward s).ready hs) rfl h)⟩

instance after {p : Parser α} {f : α → Parser β} [Forward p] [hf : ∀ a, Paced anything (f a)] : Paced C (p >>= f) :=
  afterAny hf

/-- The answer to a question tells something about the token from which the turn goes on. -/
theorem choose {c : Parser Bool} {f : Bool → Parser β} [hc : Forward c] [htells : Tells c C'] [hlasting : Lasting C']
    [hforward : ∀ b, Forward (f b)] (hyes : Paced C' (f true)) (hno : Paced anything (f false)) :
    Paced C (c >>= f) := by
  refine ⟨fun {s} hs _ h => ?_⟩
  have honward := hc.onward s
  have hready := honward.ready hs
  rcases Nat.lt_or_eq_of_le honward.pos with hlt | heq
  · exact Moves.bind hlt
  refine Moves.after ?_
  change (Ongoing.next (f (c s).1 (c s).2).1).isSome = true at h
  cases hanswer : (c s).1 with
  | true =>
    rw [hanswer] at h
    exact hyes.moves hready (hlasting.remains (honward.remains_current hs heq.symm) (htells.holds hanswer)) h
  | false =>
    rw [hanswer] at h
    exact hno.moves hready rfl h

instance test {c : Parser Bool} {p q : Parser β} [Forward c] [Tells c C'] [Lasting C'] [hp' : Forward p]
    [hq' : Forward q] [hp : Paced C' p] [hq : Paced anything q] : Paced C (c >>= fun b => if b = true then p else q) :=
  @choose _ _ _ _ _ c (fun b => if b = true then p else q) _ _ _ (fun _ => inferInstance) hp hq

instance testNot {c : Parser Bool} {p q : Parser β} [Forward c] [Tells c C'] [Lasting C'] [hp' : Forward p]
    [hq' : Forward q] [hp : Paced anything q] [hq : Paced C' p] :
    Paced C (c >>= fun b => if (!b) = true then q else p) :=
  @choose _ _ _ _ _ c (fun b => if (!b) = true then q else p) _ _ _ (fun _ => inferInstance) hq hp

end Paced

/-! ## Sequences -/

section

variable {condition : Parser Bool} {item : Parser Cst} {C C' : Token.Kind → Bool}

instance [Forward condition] [Tells condition C'] [Lasting C'] [Takes C' item] [Forward item] :
    Paced C (whileTurn condition item) := by unfold whileTurn; infer_instance

instance Paced.itemTurn (k : Token.Kind) [Unsplit [k]] [Forward item] : Paced C (itemTurn k item) := by
  unfold Grammar.itemTurn; infer_instance

instance Paced.untilTurn (stop k : Token.Kind) [Unsplit [k]] [Forward item] :
    Paced anything (untilTurn stop k item) := by
  unfold Grammar.untilTurn; infer_instance

/-- If a guarded part says that it has taken a token, it has. -/
theorem moves_guarded {p : Parser α} [hp : Forward p] {s : State} (h : (guarded p s).1.2 = true) :
    Moves (guarded p) s := by
  have honward := (hp.onward s).pos
  rcases Nat.lt_or_eq_of_le honward with hlt | heq
  · exact Moves.behind (p := get) rfl (Moves.bind hlt)
  · have hfalse : (guarded p s).1.2 = false := by
      change ((if (p s).2.pos = s.pos then _ else _ : Parser (α × Bool)) (p s).2).1.2 = false
      rw [if_pos heq.symm]
      change ((if ((p s).2.current.kind == .eof) = true then _ else _ : Parser (α × Bool)) (p s).2).1.2 = false
      split <;> rfl
    exact absurd (h.symm.trans hfalse) (by decide)

/-- A turn that is the last one unless its guarded part has taken a token. -/
theorem Paced.guardedMore {p : Parser α} [Forward p] {f : α × Bool → Parser (Turn σ)} [∀ a, Forward (f a)]
    (hf : ∀ a s, (f (a, false) s).1.next = Option.none) : Paced C (guarded p >>= f) := by
  refine ⟨fun {s} hs _ h => Moves.bind (moves_guarded ?_)⟩
  change (f (guarded p s).1 (guarded p s).2).1.next.isSome = true at h
  cases hmoved : (guarded p s).1.2 with
  | true => rfl
  | false =>
    rw [show (guarded p s).1 = ((guarded p s).1.1, false) from Prod.ext rfl hmoved, hf] at h
    exact absurd h Bool.false_ne_true

instance Paced.guardedTurn [Forward item] : Paced C (guardedTurn item) := guardedMore fun _ _ => rfl

instance (stops : List Token.Kind) [Forward item] : Paced anything (guardedUntilTurn stops item) := by
  unfold guardedUntilTurn; infer_instance

instance (stops : List Token.Kind) [Forward item] : Paced anything (declarationTurn stops item) := by
  unfold declarationTurn; infer_instance

end

/-! ## Annotations, types and names -/

section

variable (rules : Rules) [∀ p, Forward (rules p)]

set_option synthInstance.maxSize 2000 in
instance : Takes (oneOf [.atSign]) (annotationUse rules) := by unfold annotationUse; infer_instance

instance : Paced anything (modifierTurn rules) := by unfold modifierTurn; infer_instance

instance : Paced anything (segmentTurn rules) := by unfold segmentTurn; infer_instance

instance Takes.manyAt (k : Token.Kind) {item : Parser Cst} [hitem : Takes (oneOf [k]) item] [Forward item] :
    Takes (oneOf [k]) (manyAt k item) := by
  refine ⟨fun {s} hs h => moves_repeatFrom (Moves.behind (p := check k) rfl ?_)⟩
  have hcheck : (check k s).1 = true := beq_iff_eq.2 (List.mem_singleton.1 (List.contains_iff_mem.1 h))
  rw [hcheck]
  exact Moves.bind (hitem.moves hs h)

instance : Takes (oneOf [.atSign]) (annotations rules) := by unfold annotations; infer_instance

theorem Takes.either {k k' : Token.Kind} {p : Parser α} (h : Takes (oneOf [k]) p) (h' : Takes (oneOf [k']) p) :
    Takes (oneOf [k, k']) p := by
  refine ⟨fun hs hC => ?_⟩
  rcases List.mem_cons.1 (List.contains_iff_mem.1 hC) with hk | hk
  · exact h.moves hs (List.contains_iff_mem.2 (List.mem_singleton.2 hk))
  · exact h'.moves hs (List.contains_iff_mem.2 hk)

/-- A bracket, perhaps after annotations, is read by going over the annotations or by taking the bracket. -/
instance Takes.bracket {f : List Cst → Parser β} [∀ ts, Forward (f ts)] [hf : ∀ ts, Takes (oneOf [.lbracket]) (f ts)] :
    Takes (oneOf [.lbracket, .atSign]) (Grammar.annotations rules >>= f) := either (after hf) inferInstance

omit [∀ p, Forward (rules p)] in
theorem check_and_apply {k : Token.Kind} {c : Parser Bool} {s : State} (h : s.current.kind ≠ k) :
    (check k <&&> c) s = (false, s) := by
  change (pure (s.current.kind == k) <&&> c : Parser Bool) s = _
  rw [beq_eq_false_iff_ne.2 h]
  rfl

omit [∀ p, Forward (rules p)] in
theorem emptyBrackets_apply (s : State) : (check .lbracket <&&> checkAhead 1 .rbracket) s =
    (decide (s.current.kind = .lbracket ∧ (s.ahead 1).kind = .rbracket), s) := by
  by_cases h : s.current.kind = .lbracket
  · rw [show (check .lbracket <&&> checkAhead 1 .rbracket) s =
      (pure (s.current.kind == .lbracket) <&&> checkAhead 1 .rbracket : Parser Bool) s from rfl, h]
    simp only [true_and]
    rfl
  · rw [check_and_apply h]
    simp only [h, false_and, decide_false]

instance Tells.startsDim : Tells startsDim (oneOf [.lbracket, .atSign]) := by
  refine ⟨fun {s} h => ?_⟩
  by_contra hC
  simp only [oneOf, List.contains_iff_mem, List.mem_cons, List.not_mem_nil, or_false, not_or] at hC
  have hfalse : Grammar.startsDim s = (false, s) :=
    (bind_run (check_and_apply hC.1)).trans (check_and_apply hC.2)
  rw [hfalse] at h
  exact Bool.false_ne_true h

instance Takes.dim : Takes (oneOf [.lbracket, .atSign]) (dim rules) := by unfold Grammar.dim; infer_instance

instance : Takes (oneOf [.lbracket, .atSign]) (dimExpr rules) := by unfold dimExpr; infer_instance

instance Tells.startsDimExpr : Tells startsDimExpr (oneOf [.lbracket, .atSign]) := by
  refine ⟨fun {s} h => ?_⟩
  by_contra hC
  simp only [oneOf, List.contains_iff_mem, List.mem_cons, List.not_mem_nil, or_false, not_or] at hC
  have hskip := skipAnnotations_of_ne hC.2
  have hfalse : (do skipAnnotations; Grammar.check .lbracket <&&> (not <$> Grammar.checkAhead 1 .rbracket)) s =
      (false, s) :=
    (bind_run hskip).trans (check_and_apply hC.1)
  have hanswer : (Grammar.startsDimExpr s).1 = false := congrArg Prod.fst hfalse
  exact Bool.false_ne_true (hanswer.symm.trans h)

/-! ## Statements and files -/

set_option synthInstance.maxSize 2000 in
instance : Takes (oneOf [.kwCase, .kwDefault]) (switchLabel rules) := by unfold switchLabel; infer_instance

instance : Takes (oneOf [.kwCatch]) (catchClause rules) := by unfold catchClause; infer_instance

omit [∀ p, Forward (rules p)] in
set_option synthInstance.maxSize 2000 in
instance : Takes (oneOf [.kwImport]) importDecl := by unfold importDecl; infer_instance

instance Paced.groupTurn : Paced anything (groupTurn rules) := by
  refine ⟨fun {s} hs _ h => ?_⟩
  have hend := checkAny_apply [.rbrace, .eof] s
  have hlabel := checkAny_apply [.kwCase, .kwDefault] s
  unfold Moves
  unfold Grammar.groupTurn at h ⊢
  rw [bind_run hend] at h ⊢
  by_cases hstop : [Token.Kind.rbrace, .eof].contains s.current.kind = true
  · rw [if_pos hstop] at h
    exact absurd h Bool.false_ne_true
  rw [if_neg hstop, bind_run hlabel] at h ⊢
  by_cases hgroup : [Token.Kind.kwCase, .kwDefault].contains s.current.kind = true
  · rw [if_pos hgroup] at h ⊢
    exact (Paced.guardedTurn (C := anything)).moves hs rfl h
  · -- neither an end nor a label is current, so that at least this token is passed over
    rw [if_neg hgroup]
    refine Moves.bind (moves_errorNode hs fun hmem => ?_)
    rw [List.contains_iff_mem] at hstop hgroup
    simp only [List.mem_cons, List.not_mem_nil, or_false] at hmem hstop hgroup
    tauto

instance Paced.typeTurn (seen : Nat) : Paced anything (typeTurn rules seen) := by
  unfold Grammar.typeTurn
  refine afterAny fun atEnd => ?_
  cases atEnd with
  | true => exact last []
  | false => exact @test _ _ _ _ _ _ _ _ _ _ _ _ _ _ (guardedMore fun _ _ => rfl)

/-! ## Expressions -/

instance Takes.nodeFrom {C : Token.Kind → Bool} (kind : Cst.Kind) (t : Cst) {p : Parser (List Cst)} [hp : Takes C p] :
    Takes C (nodeFrom kind t p) := ⟨hp.moves⟩

theorem Paced.operatorTurn {level : List Token.Kind} (hlevel : Token.Kind.eof ∉ level) (operand : Parser Cst)
    [Forward operand] (t : Cst) : Paced anything (operatorTurn rules level operand t) := by
  refine ⟨fun {s} hs _ h => ?_⟩
  have hlevels := checkAny_apply level s
  unfold Moves
  unfold Grammar.operatorTurn at h ⊢
  rw [bind_run hlevels] at h ⊢
  by_cases hmem : (!level.contains s.current.kind) = true
  · rw [if_pos hmem] at h
    exact absurd h Bool.false_ne_true
  have heof : s.current.kind ≠ .eof := by
    intro heof
    rw [heof] at hmem
    exact hmem (by simpa using hlevel)
  rw [if_neg hmem] at h ⊢
  refine Moves.behind (p := check .kwInstanceof) rfl ?_
  split
  · exact Moves.bind (Moves.bind (Moves.bind (moves_skip hs heof)))
  · exact Moves.bind (Moves.bind (Moves.bind (moves_leaf hs heof)))

instance Takes.ite {C : Token.Kind → Bool} {c : Prop} [Decidable c] {p q : Parser α} [hp : Takes C p] [hq : Takes C q] :
    Takes C (if c then p else q) := by
  split <;> assumption

instance Takes.dotSuffix : Takes (oneOf [.dot]) (dotSuffix rules) := by
  unfold Grammar.dotSuffix
  refine behind (fun _ => rfl) fun dot => behind (fun _ => rfl) fun s => ?_
  dsimp only
  split <;> infer_instance

/-- Dimensions are read where an opening bracket and a closing one are next. -/
theorem moves_dims {s : State} (hs : s.Ready) (hbracket : s.current.kind = .lbracket)
    (hahead : (s.ahead 1).kind = .rbracket) : Moves (dims rules) s := by
  have hstarts : startsDim s = (true, s) := by
    rw [startsDim, show ((check .lbracket <&&> checkAhead 1 .rbracket) <||>
      (check .atSign <&&> annotationsPrecede .lbracket)) s = _ from bind_run (emptyBrackets_apply s),
      decide_eq_true ⟨hbracket, hahead⟩]
    rfl
  refine Moves.behind (p := here) rfl (Moves.bind (moves_repeatFrom ?_))
  refine Moves.behind (congrArg Prod.snd hstarts) ?_
  rw [hstarts]
  exact Moves.bind ((Takes.dim rules).moves hs (by rw [hbracket]; decide))

instance : Takes (oneOf [.lparen]) (arguments rules) := by unfold arguments; infer_instance

set_option synthInstance.maxSize 2000 in
instance : Takes (oneOf [.colonColon]) (methodRefSuffix rules none) := by unfold methodRefSuffix; infer_instance

/-- The current token is looked at. -/
theorem Paced.peeked {C : Token.Kind → Bool} [Ongoing β σ] {f : Token → Parser β}
    (hf : ∀ t, Paced (oneOf [t.kind]) (f t)) :
    Paced C (peek >>= f) :=
  ⟨fun {_} hs _ h => (hf _).moves hs (List.contains_iff_mem.2 (List.mem_singleton_self _)) h⟩

instance Paced.suffix : Paced anything (suffix rules) := by
  unfold Grammar.suffix
  refine peeked fun t => ?_
  generalize t.kind = k
  split
  · infer_instance
  · -- of the two readers behind a bracket, the one for dimensions knows that a closing bracket follows
    refine ⟨fun {s} hs hC _ => Moves.behind (p := checkAhead 1 .rbracket) rfl ?_⟩
    have hbracket : s.current.kind = .lbracket := List.mem_singleton.1 (List.contains_iff_mem.1 hC)
    split
    · rename_i hahead
      exact Moves.bind (Moves.behind (p := here) rfl (Moves.bind (moves_dims rules hs hbracket (beq_iff_eq.1 hahead))))
    · exact Moves.bind ((Takes.node _ (p := do skip; _)).moves hs hC)
  all_goals infer_instance

instance Paced.suffixTurn (r : Receiver) : Paced anything (suffixTurn rules r) := by
  refine ⟨fun {s} hs _ h => @Moves.bind _ _ (Grammar.suffix rules) _ s (fun o => by cases o <;> infer_instance) ?_⟩
  refine (Paced.suffix rules).moves hs rfl ?_
  cases hsuffix : (Grammar.suffix rules s).1 with
  | some t => rfl
  | none =>
    have hrun : Grammar.suffixTurn rules r s = (.last [], (Grammar.suffix rules s).2) :=
      bind_run (show Grammar.suffix rules s = (.none, (Grammar.suffix rules s).2) from Prod.ext hsuffix rfl)
    rw [hrun] at h
    exact absurd h Bool.false_ne_true

end

/-! ## Looking ahead -/

instance : Takes (oneOf [.atSign]) skipAnnotationUse := by unfold skipAnnotationUse; infer_instance

instance : Paced anything annotationPart := by unfold annotationPart; infer_instance

instance : Paced anything bracketsPart := by unfold bracketsPart; infer_instance

instance Paced.dimPart : Paced anything dimPart := by
  unfold Grammar.dimPart
  refine afterAny fun s => afterAny fun _ => ?_
  refine ⟨fun {t} ht _ h => ?_⟩
  by_cases hpair : t.current.kind = .lbracket ∧ (t.ahead 1).kind = .rbracket
  · refine Moves.behind (congrArg Prod.snd (emptyBrackets_apply t)) ?_
    rw [emptyBrackets_apply, decide_eq_true hpair]
    exact Moves.bind (moves_skip ht (by rw [hpair.1]; decide))
  · rw [bind_run (emptyBrackets_apply t), decide_eq_false hpair] at h
    exact absurd h Bool.false_ne_true

instance : Paced anything packageAnnotationPart := by unfold packageAnnotationPart; infer_instance

instance : Paced anything variableModifierPart := by unfold variableModifierPart; infer_instance

theorem real_oneOf {k : Token.Kind} (h : k ≠ .eof) : Real (oneOf [k]) :=
  ⟨fun hk => List.mem_singleton.1 (List.contains_iff_mem.1 hk) ▸ h⟩

instance Paced.recoverTurn (ks : List Token.Kind) : Paced anything (recoverTurn ks) := by
  simp only [Grammar.recoverTurn, checkAny, bind_assoc, pure_bind]
  refine peeked fun t => ?_
  split
  · infer_instance
  · rename_i hstop
    have : Real (oneOf [t.kind]) := real_oneOf fun heof => hstop (by rw [heof]; rfl)
    infer_instance

instance Paced.balancedTurn (opening closing : Token.Kind) (depth : Int) :
    Paced anything (balancedTurn opening closing depth) := by
  refine peeked fun t => ?_
  dsimp only
  split
  · infer_instance
  · have : Real (oneOf [t.kind]) := real_oneOf ‹_›
    infer_instance

instance Paced.typeArgumentsTurn (depth : Int) : Paced anything (typeArgumentsTurn depth) := by
  refine @Paced.ite _ _ _ _ _ _ _ _ inferInstance (peeked fun t => ?_)
  dsimp only
  split
  · infer_instance
  · rename_i hinside
    have : Real (oneOf [t.kind]) := real_oneOf fun heof => hinside (by rw [heof]; decide)
    infer_instance

set_option synthInstance.maxSize 2000 in
instance : Paced anything classTypeTurn := by unfold classTypeTurn; dsimp only; infer_instance

instance : Paced anything boundTurn := by unfold boundTurn; infer_instance

set_option synthInstance.maxSize 2000 in
instance : Paced anything superCallTurn := by unfold superCallTurn; dsimp only; infer_instance

set_option synthInstance.maxSize 2000 in
instance : Paced anything genericReferenceTurn := by unfold genericReferenceTurn; dsimp only; infer_instance

/-! ## All loops -/

/-- The loops of the grammar. -/
inductive IsLoop (rules : Rules) : {σ α β : Type} → [Ongoing β σ] → Loop σ α β → Prop
  | separated {separator : Token.Kind} {item : Parser Cst}
      (hseparator : separator ∈ [.comma, .semicolon, .ampersand, .bar]) (hitem : Forward item) : IsLoop rules
      (.turns fun _ => itemTurn separator item)
  | separatedUntil {stop separator : Token.Kind} {item : Parser Cst}
      (hseparator : separator ∈ [.comma, .semicolon, .ampersand, .bar]) (hitem : Forward item) : IsLoop rules
      (.turns fun _ => untilTurn stop separator item)
  | guardedUntil {stops : List Token.Kind} {item : Parser Cst} (hitem : Forward item) :
      IsLoop rules (.turns fun _ => guardedUntilTurn stops item)
  | declarationsUntil {stops : List Token.Kind} {item : Parser Cst} (hitem : Forward item) :
      IsLoop rules (.turns fun _ => declarationTurn stops item)
  | annotations : IsLoop rules (.turns fun _ => whileTurn (check .atSign) (annotationUse rules))
  | modifiers : IsLoop rules (.turns fun _ => modifierTurn rules)
  | segments : IsLoop rules (.turns fun _ => segmentTurn rules)
  | dims : IsLoop rules (.turns fun _ => whileTurn startsDim (dim rules))
  | lengths : IsLoop rules (.turns fun _ => whileTurn startsDimExpr (dimExpr rules))
  | qualifiedName : IsLoop rules (.turns fun _ => whileTurn (check .dot <&&> checkNameAhead) do skip; identifier)
  | importedName : IsLoop rules (.turns fun _ => whileTurn (check .dot <&&> (not <$> checkAhead 1 .star))
      do skip; identifier)
  | constructorScope : IsLoop rules (.turns fun _ => whileTurn (check .dot <&&> checkNameAhead) do
      node .fieldSuffix do
        skip
        return [← identifier])
  | suffixes : IsLoop rules (.turns (suffixTurn rules))
  | operators {level : List Token.Kind} {tighter : List (List Token.Kind)} (h : level :: tighter <:+ binaryLevels) :
      IsLoop rules (.growing (operatorTurn rules level (binary rules tighter)))
  | switchLabels : IsLoop rules (.turns fun _ => whileTurn (checkAny [.kwCase, .kwDefault]) (switchLabel rules))
  | switchGroups : IsLoop rules (.turns fun _ => groupTurn rules)
  | catchClauses : IsLoop rules (.turns fun _ => whileTurn (check .kwCatch) (catchClause rules))
  | imports : IsLoop rules (.turns fun _ => whileTurn (check .kwImport) importDecl)
  | topLevelTypes : IsLoop rules (.turns (typeTurn rules))
  | skipAnnotations : IsLoop rules (.running annotationPart)
  | skipBrackets : IsLoop rules (.running bracketsPart)
  | skipDims : IsLoop rules (.running dimPart)
  | packageAnnotations : IsLoop rules (.running packageAnnotationPart)
  | variableModifiers : IsLoop rules (.running variableModifierPart)
  | recover {ks : List Token.Kind} : IsLoop rules (.searching (fun _ => recoverTurn ks) id)
  | skipBalanced {opening closing : Token.Kind} : IsLoop rules (.searching (balancedTurn opening closing) fun _ => ())
  | skipTypeArguments : IsLoop rules (.searching typeArgumentsTurn (· ≤ 0))
  | skipClassType : IsLoop rules (.searching (fun _ => classTypeTurn) fun _ => false)
  | skipBounds : IsLoop rules (.searching (fun _ => boundTurn) fun _ => true)
  | skipToSuperCall : IsLoop rules (.searching (fun _ => superCallTurn) fun _ => false)
  | isGenericReference : IsLoop rules (.searching (fun _ => genericReferenceTurn) fun _ => false)

namespace IsLoop

variable {rules : Rules} [∀ p, Forward (rules p)] [Ongoing β σ] {L : Loop σ α β}

theorem unsplit_separator {k : Token.Kind} (h : k ∈ [Token.Kind.comma, .semicolon, .ampersand, .bar]) :
    Unsplit [k] := by
  simp only [List.mem_cons, List.not_mem_nil, or_false] at h
  rcases h with rfl | rfl | rfl | rfl <;> infer_instance

theorem forward (h : IsLoop rules L) (a : σ) : Forward (L.turn a) := by
  cases h <;> (dsimp only [Loop.turns, Loop.growing, Loop.running, Loop.searching]; infer_instance)

theorem paced (h : IsLoop rules L) (a : σ) : Paced anything (L.turn a) := by
  cases h with
  | separated hseparator hitem =>
    have := unsplit_separator hseparator
    exact Paced.itemTurn _
  | separatedUntil hseparator hitem =>
    have := unsplit_separator hseparator
    exact Paced.untilTurn _ _
  | operators h =>
    have hend : ∀ level ∈ binaryLevels, Token.Kind.eof ∉ level := by decide
    exact Paced.operatorTurn rules (hend _ (h.subset List.mem_cons_self)) _ a
  | _ => dsimp only [Loop.turns, Loop.growing, Loop.running, Loop.searching]; infer_instance

theorem getsOn (h : IsLoop rules L) : L.GetsOn := fun a _ hs hnext => (h.paced a).moves hs rfl hnext

end IsLoop

end KiteCompiler.Grammar
