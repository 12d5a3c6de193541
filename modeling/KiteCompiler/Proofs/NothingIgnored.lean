import KiteCompiler.Proofs.Parsing.Start

/-!
# Nothing is ignored

Reading a file always ends at the end of file: whatever is current at the top of a file, a turn of the loop over its
types takes a token (`moves_topLevelType`), so the loop goes on up to the end. What could not be read is an error node,
and it stands where an error is recorded; so without errors there is no error node.
-/

namespace KiteCompiler.Grammar

variable {α β σ : Type}

/-! ## Getting on -/

/-- The reader takes a token. -/
def Moves (p : Parser α) (s : State) : Prop := s.pos < (p s).2.pos

section

variable {p : Parser α} {f : α → Parser β} {s : State}

theorem Moves.bind [hf : ∀ a, Forward (f a)] (h : Moves p s) : Moves (p >>= f) s :=
  Nat.lt_of_lt_of_le h ((hf _).onward _).pos

theorem Moves.after [hp : Forward p] (h : Moves (f (p s).1) (p s).2) : Moves (p >>= f) s :=
  Nat.lt_of_le_of_lt (hp.onward s).pos h

/-- A reader that takes a token behind one that only looks. -/
theorem Moves.behind (hstate : (p s).2 = s) (h : Moves (f (p s).1) s) : Moves (p >>= f) s := by
  change s.pos < (f (p s).1 (p s).2).2.pos
  rw [hstate]
  exact h

theorem moves_skip (hs : s.Ready) (h : s.current.kind ≠ .eof) : Moves skip s := by
  change s.pos < s.advance.pos
  rw [hs.advance_eq, if_neg h]
  exact Nat.lt_succ_self _

theorem moves_leaf {kind : Cst.Kind} (hs : s.Ready) (h : s.current.kind ≠ .eof) : Moves (leaf kind) s := moves_skip hs h

theorem check_apply (k : Token.Kind) (s : State) : check k s = (s.current.kind == k, s) := rfl

theorem checkAny_apply (ks : List Token.Kind) (s : State) : checkAny ks s = (ks.contains s.current.kind, s) := rfl

theorem moves_expect {k : Token.Kind} (hs : s.Ready) (h : s.current.kind = k) (hk : k ≠ .eof) : Moves (expect k) s := by
  refine Moves.after (p := check k) ?_
  rw [check_apply, h, beq_self_eq_true]
  exact moves_skip hs (h ▸ hk)

theorem moves_recover {ks : List Token.Kind} (hs : s.Ready) (h : s.current.kind ∉ .eof :: ks) :
    Moves (recover ks) s := by
  have hforward (n : Nat) (b : Unit ⊕ Unit) :
      Forward (Sum.elim pure (searchUpTo (fun _ => recoverTurn ks) id n) b) := by
    cases b <;> (dsimp only [Sum.elim]; infer_instance)
  refine Moves.behind (p := get) rfl (Moves.bind (Moves.after (p := checkAny (.eof :: ks)) ?_))
  rw [checkAny_apply, List.contains_iff_mem.not.2 h |> Bool.eq_false_iff.2]
  exact (moves_skip hs fun heof => h (heof ▸ List.mem_cons_self)).bind

theorem moves_errorNode {construct : Construct} {recovery : List Token.Kind} (hs : s.Ready)
    (h : s.current.kind ∉ .eof :: recovery) : Moves (errorNode construct recovery) s := by
  have hready := (Onward.record s ⟨.missingConstruct construct s.current, s.current.span.first⟩).ready hs
  refine Moves.after (p := peek) (Moves.after (p := reportHere _) (Moves.bind ?_))
  refine moves_recover hready ?_
  change (s.record _).current.kind ∉ _
  rw [State.current_record]
  exact h

end

/-- The first turn of a loop. -/
theorem repeatUpTo_run (turn : σ → Parser (Turn σ)) (n : Nat) (a : σ) (s : State) :
    repeatUpTo turn (n + 1) a s = (match (turn a s).1.next with
      | some b => do return (turn a s).1.added ++ (← repeatUpTo turn n b)
      | none => pure (turn a s).1.added : Parser (List Cst)) (turn a s).2 := rfl

/-- A loop each of whose turns takes a token or is the last one, which comes to its end. -/
theorem ends_repeatUpTo {turn : σ → Parser (Turn σ)} [hforward : ∀ a, Forward (turn a)] {E : State → Prop}
    (hturn : ∀ a s, s.Ready →
      (turn a s).1.next = none ∧ E (turn a s).2 ∨ (turn a s).1.next.isSome = true ∧ Moves (turn a) s)
    (n : Nat) (a : σ) {s : State} (hs : s.Ready) (hn : s.remaining < n) : E (repeatUpTo turn n a s).2 := by
  induction n generalizing a s with
  | zero => exact absurd hn (Nat.not_lt_zero _)
  | succ n ih =>
    have honward := (hforward a).onward s
    rcases hturn a s hs with ⟨hnone, hend⟩ | ⟨hsome, hmoves⟩
    · rw [repeatUpTo_run, hnone]
      exact hend
    · obtain ⟨b, hb⟩ := Option.isSome_iff_exists.1 hsome
      rw [repeatUpTo_run, hb]
      refine ih b (honward.ready hs) ?_
      have hsize := honward.size
      have hlt := hs.pos_lt
      have hpos : s.pos < (turn a s).2.pos := hmoves
      unfold State.remaining at hn ⊢
      omega

theorem moves_repeatFrom {turn : σ → Parser (Turn σ)} [hforward : ∀ a, Forward (turn a)] {a : σ} {s : State}
    (h : Moves (turn a) s) : Moves (repeatFrom a turn) s :=
  Moves.after (p := get) (@Moves.bind _ _ (turn a) _ _ (fun t => by split <;> infer_instance) h)

/-- A loop whose first turn is the last one. -/
theorem repeatFrom_last {turn : σ → Parser (Turn σ)} {a : σ} {ts : List Cst} {s s' : State}
    (h : turn a s = (.last ts, s')) : repeatFrom a turn s = (ts, s') := by
  change repeatUpTo turn (s.remaining + 1) a s = _
  rw [repeatUpTo_run, h]
  rfl

theorem repeatTurns_last {turn : Parser (Turn Unit)} {ts : List Cst} {s s' : State} (h : turn s = (.last ts, s')) :
    repeatTurns turn s = (ts, s') := @repeatFrom_last _ (fun _ => turn) _ _ _ _ h

/-! ## The types of a file -/

variable {rules : Rules} [∀ p, Forward (rules p)] {s : State}

theorem annotates_apply (s : State) : (check .atSign <&&> (not <$> checkAhead 1 .kwInterface)) s =
    (s.current.kind == .atSign && !((s.ahead 1).kind == .kwInterface), s) := by
  change (pure (s.current.kind == .atSign) <&&> (not <$> checkAhead 1 .kwInterface) : Parser Bool) s = _
  cases s.current.kind == .atSign <;> rfl

theorem declaresAnnotation_apply (s : State) : (check .atSign <&&> checkAhead 1 .kwInterface) s =
    (s.current.kind == .atSign && (s.ahead 1).kind == .kwInterface, s) := by
  change (pure (s.current.kind == .atSign) <&&> checkAhead 1 .kwInterface : Parser Bool) s = _
  cases s.current.kind == .atSign <;> rfl

set_option synthInstance.maxSize 2000 in
/-- Modifiers take a token unless none starts here. -/
theorem modifiers_cases (hs : s.Ready) (heof : s.current.kind ≠ .eof) : Moves (modifiers rules) s ∨
    (modifiers rules s).2 = s ∧ (isModifier s).1 = false ∧
      (s.current.kind == .atSign && !((s.ahead 1).kind == .kwInterface)) = false := by
  -- the first turn decides: either it takes a token, or it is the last one
  cases hannotates : s.current.kind == .atSign && !((s.ahead 1).kind == .kwInterface) with
  | true =>
    refine .inl (Moves.behind (p := here) rfl
      (Moves.bind (moves_repeatFrom (Moves.behind (by rw [annotates_apply]) ?_))))
    rw [annotates_apply, hannotates]
    have hat : s.current.kind = .atSign := by simp_all
    exact Moves.bind (Moves.behind (p := here) rfl (Moves.bind (Moves.bind (moves_expect hs hat (by decide)))))
  | false =>
    cases hmodifier : (isModifier s).1 with
    | true =>
      refine .inl (Moves.behind (p := here) rfl
        (Moves.bind (moves_repeatFrom (Moves.behind (by rw [annotates_apply]) ?_))))
      rw [annotates_apply, hannotates]
      refine Moves.behind (p := isModifier) (by rw [isModifier_apply]) ?_
      rw [hmodifier]
      exact Moves.bind (moves_leaf hs heof)
    | false =>
      refine .inr ⟨?_, rfl, rfl⟩
      have hstate : (isModifier s).2 = s := by rw [isModifier_apply]
      have hturn : modifierTurn rules s = (.last [], s) := by
        rw [modifierTurn, bind_run (annotates_apply s), hannotates, if_neg (by decide),
          bind_run (Prod.ext hmodifier hstate)]
        rfl
      rw [modifiers, bind_run (p := here) rfl, bind_run (repeatTurns_last hturn)]
      rfl

theorem moves_declaration {kind : Cst.Kind} {modifiers : Cst} {parts : Parser (List Cst)} [Forward parts]
    (h : Moves parts s) : Moves (declaration kind modifiers parts) s := by
  unfold declaration
  split
  · exact Moves.behind (p := here) rfl h.bind
  · exact Moves.behind (p := pure _) rfl h.bind

set_option synthInstance.maxSize 2000 in
/-- A type declaration, if one starts here, takes its keyword. -/
theorem typeDecl?_cases (hs : s.Ready) (modifiers : Cst) : Moves (typeDecl? rules modifiers) s ∨
    typeDecl? rules modifiers s = (none, s) ∧ s.current.kind ≠ .kwClass ∧ s.current.kind ≠ .kwInterface ∧
      (s.current.kind == .atSign && (s.ahead 1).kind == .kwInterface) = false := by
  have hclass := check_apply .kwClass s
  have hinterface := check_apply .kwInterface s
  have hat := declaresAnnotation_apply s
  unfold typeDecl?
  by_cases h₁ : s.current.kind = .kwClass
  · refine .inl (Moves.behind (p := check .kwClass) rfl ?_)
    rw [hclass, h₁, if_pos (beq_self_eq_true _)]
    exact Moves.bind (moves_declaration (Moves.bind (moves_expect hs h₁ (by decide))))
  by_cases h₂ : s.current.kind = .kwInterface
  · refine .inl (Moves.behind (p := check .kwClass) rfl ?_)
    rw [hclass, if_neg (by simpa using h₁)]
    refine Moves.behind (p := check .kwInterface) rfl ?_
    rw [hinterface, h₂, if_pos (beq_self_eq_true _)]
    exact Moves.bind (moves_declaration (Moves.bind (moves_expect hs h₂ (by decide))))
  rw [bind_run hclass, if_neg (by simpa using h₁), bind_run hinterface, if_neg (by simpa using h₂), bind_run hat]
  cases h₃ : s.current.kind == .atSign && (s.ahead 1).kind == .kwInterface with
  | true =>
    have hsign : s.current.kind = .atSign := by simp_all
    refine .inl (Moves.behind (p := check .kwClass) rfl ?_)
    rw [hclass, if_neg (by simpa using h₁)]
    refine Moves.behind (p := check .kwInterface) rfl ?_
    rw [hinterface, if_neg (by simpa using h₂)]
    refine Moves.behind (by rw [hat]) ?_
    rw [hat, h₃, if_pos rfl]
    exact Moves.bind (moves_declaration (Moves.bind (moves_expect hs hsign (by decide))))
  | false => exact .inr ⟨rfl, h₁, h₂, rfl⟩

/-- What follows the search for a type declaration goes forward. -/
theorem forward_topLevelEnd (o : Option Cst) : Forward (match o with
    | some declaration => pure declaration
    | none => errorNode .typeDeclaration [.kwClass, .kwInterface, .atSign, .kwPublic, .kwAbstract, .kwFinal]) := by
  cases o with
  | some declaration => exact .pure declaration
  | none => infer_instance

/-- Whatever is current, reading a type at the top of a file takes a token. -/
theorem moves_topLevelType (hs : s.Ready) (heof : s.current.kind ≠ .eof) : Moves (topLevelType rules) s := by
  have hmodifiers : Moves (modifiers rules) s ∨ _ := modifiers_cases hs heof
  rcases hmodifiers with hmoves | ⟨hstate, hmodifier, hannotates⟩
  · exact @Moves.bind _ _ (modifiers rules) _ s (fun m => .seq inferInstance forward_topLevelEnd) hmoves
  refine Moves.behind hstate ?_
  have hdeclaration : Moves (typeDecl? rules _) s ∨ _ := typeDecl?_cases hs (modifiers rules s).1
  rcases hdeclaration with hmoves | ⟨hnone, hclass, hinterface, hdeclares⟩
  · exact @Moves.bind _ _ (typeDecl? rules _) _ s forward_topLevelEnd hmoves
  refine Moves.behind (by rw [hnone]) ?_
  rw [hnone]
  refine moves_errorNode hs fun hmem => ?_
  -- the kinds at which reading goes on would have been read as modifiers, annotations or declarations
  have hwords : s.current.kind ∈ [Token.Kind.kwPublic, .kwAbstract, .kwFinal] → (isModifier s).1 = true := by
    rw [isModifier_apply]
    intro h
    simp only [List.mem_cons, List.not_mem_nil, or_false] at h
    rcases h with h | h | h <;> rw [h] <;> rfl
  simp only [List.mem_cons, List.not_mem_nil, or_false] at hmem hwords
  rcases hmem with h | h | h | h | h
  · exact heof h
  · exact hclass h
  · exact hinterface h
  · simp [h] at hannotates hdeclares
    exact hdeclares hannotates
  · exact absurd (hwords h) (by rw [hmodifier]; decide)

theorem guarded_of_moves {p : Parser α} (h : Moves p s) : guarded p s = (((p s).1, true), (p s).2) := by
  have hne : (p s).2.pos ≠ s.pos := Nat.ne_of_gt h
  change (if (p s).2.pos = s.pos then _ else _ : Parser (α × Bool)) (p s).2 = _
  rw [if_neg hne]
  rfl

theorem ends_topLevelTypes (hs : s.Ready) : (topLevelTypes rules s).2.current.kind = .eof := by
  refine ends_repeatUpTo (E := fun s => s.current.kind = .eof) (fun seen s hs => ?_) _ 0 hs (Nat.lt_succ_self _)
  have hend := check_apply .eof s
  have hsemicolon := check_apply .semicolon s
  unfold typeTurn
  by_cases h₁ : s.current.kind = .eof
  · rw [bind_run hend, if_pos (by simpa using h₁)]
    exact .inl ⟨rfl, h₁⟩
  refine .inr ?_
  by_cases h₂ : s.current.kind = .semicolon
  · refine ⟨?_, ?_⟩
    · rw [bind_run hend, if_neg (by simpa using h₁), bind_run hsemicolon, if_pos (by simpa using h₂)]
      rfl
    · refine Moves.behind (p := check .eof) rfl ?_
      rw [hend, if_neg (by simpa using h₁)]
      refine Moves.behind (p := check .semicolon) rfl ?_
      rw [hsemicolon, if_pos (by simpa using h₂)]
      exact (moves_skip hs h₁).bind
  · have hpart : Moves (countedType rules seen) s := Moves.behind (p := peek) rfl (moves_topLevelType hs h₁).bind
    have hguarded := guarded_of_moves hpart
    refine ⟨?_, ?_⟩
    · rw [bind_run hend, if_neg (by simpa using h₁), bind_run hsemicolon, if_neg (by simpa using h₂), bind_run hguarded]
      rfl
    · refine Moves.behind (p := check .eof) rfl ?_
      rw [hend, if_neg (by simpa using h₁)]
      refine Moves.behind (p := check .semicolon) rfl ?_
      rw [hsemicolon, if_neg (by simpa using h₂)]
      refine Moves.bind ?_
      unfold Moves
      rw [hguarded]
      exact hpart

/-- What the rest of a sequence comes to from every state. -/
theorem ends_bind {p : Parser α} {f : α → Parser β} [hp : Forward p] {E : State → Prop} (hs : s.Ready)
    (h : ∀ a s', s'.Ready → E (f a s').2) : E ((p >>= f) s).2 := h _ _ ((hp.onward s).ready hs)

theorem ends_compilationUnit (hs : s.Ready) : (compilationUnit rules s).2.current.kind = .eof := by
  rw [compilationUnit, node_state]
  refine ends_bind (E := fun s => s.current.kind = .eof) hs fun _ s hs => ?_
  refine ends_bind (E := fun s => s.current.kind = .eof) hs fun _ s hs => ?_
  have hend : (topLevelTypes rules s).2.current.kind = .eof := ends_topLevelTypes hs
  change ((if (topLevelTypes rules s).1.all _ = true then _ else _ : Parser (List Cst)) _).2.current.kind = .eof
  split
  · change (State.record _ _).current.kind = .eof
    rw [State.current_record]
    exact hend
  · exact hend

/-! ## All that was read, and all that was not -/

/-- What could not be read shows in the errors: there is one where an error node starts, and without errors there is
neither an error node nor a token that the lexer could not make sense of. -/
structure Accounted (source : Text) (p : Parsed) : Prop where
  error_of_node : ∀ l ∈ p.tree.preorder, l.kind = .error → ∃ e ∈ p.errors, e.pos.offset = l.span.first.offset
  error_of_token : ∀ t ∈ Token.lex source, t.kind = .error → ∃ e ∈ p.errors, e.pos.offset = t.span.first.offset
  clean : p.errors = [] → (∀ l ∈ p.tree.preorder, l.kind ≠ .error) ∧ ∀ t ∈ Token.lex source, t.kind ≠ .error

theorem accounted (start : Rules → Parser Cst) [∀ depth, Forward (start (rulesUpTo depth))]
    [hstart : ∀ E depth, Records E (start (rulesUpTo depth))] (source : Text) :
    Accounted source (parse start source) := by
  have hnode : ∀ l ∈ (parse start source).tree.preorder, l.kind = .error →
      ∃ e ∈ (parse start source).errors, e.pos.offset = l.span.first.offset := by
    intro l hl hkind
    rw [tree_parse, ← Tree.map_label_subtrees, List.mem_map] at hl
    obtain ⟨t, ht, rfl⟩ := hl
    have hall : AllRecorded (run start source).2.errors (run start source).1 :=
      (hstart _ _).recorded _ (List.Subset.refl _)
    obtain ⟨e, he, hoffset⟩ := (hall.every _ (List.mem_singleton_self _) t ht).error hkind
    exact ⟨e, (mem_errors_parse start source e).2 he, hoffset⟩
  have htoken : ∀ t ∈ Token.lex source, t.kind = .error →
      ∃ e ∈ (parse start source).errors, e.pos.offset = t.span.first.offset := by
    intro t ht hkind
    obtain ⟨e, he, hoffset⟩ := error_of_invalid ht hkind
    exact ⟨e, (mem_errors_parse start source e).2 ((onward_run start source).errors.subset he), hoffset⟩
  refine ⟨hnode, htoken, fun hnone => ⟨fun l hl hkind => ?_, fun t ht hkind => ?_⟩⟩
  · obtain ⟨e, he, -⟩ := hnode l hl hkind
    exact absurd he (by rw [hnone]; exact List.not_mem_nil)
  · obtain ⟨e, he, -⟩ := htoken t ht hkind
    exact absurd he (by rw [hnone]; exact List.not_mem_nil)

omit [∀ p, Forward (rules p)] in
theorem ends_standaloneExpression (h : (standaloneExpression rules s).2.errors = []) :
    (standaloneExpression rules s).2.current.kind = .eof := by
  have hrun : standaloneExpression rules s = (do
      if !(← check .eof) then let _ ← reportHere .unexpectedAfterExpression
      return (rules .expression s).1) (rules .expression s).2 := rfl
  rw [hrun, bind_run (check_apply .eof _)] at h ⊢
  by_cases hend : (rules .expression s).2.current.kind = .eof
  · rw [if_neg (by simp [hend])]
    exact hend
  · rw [if_pos (by simp [hend])] at h
    exact absurd h (State.errors_record_ne_nil _ _)

/-- **Nothing is silently ignored.** A file is read up to its end, whatever is in it, and an expression is unless there
are errors; every error node and every invalid token is accounted for. -/
theorem nothing_ignored (source : Text) :
    ((run compilationUnit source).2.current.kind = .eof ∧ Accounted source (parseUnit source)) ∧
    ((parseExpression source).errors = [] → (run standaloneExpression source).2.current.kind = .eof) ∧
    Accounted source (parseExpression source) := by
  have hready := initial_ready source
  refine ⟨⟨?_, accounted compilationUnit source⟩, fun h => ?_, accounted standaloneExpression source⟩
  · rw [run]
    exact ends_compilationUnit hready
  · have herrors := (errors_parse_nil standaloneExpression source).1 h
    rw [run] at herrors ⊢
    exact ends_standaloneExpression herrors

theorem nothing_ignored_sum : (parseExpression "a + 1").errors = [] ∧
    (run standaloneExpression "a + 1").2.current.kind = .eof := by
  have h : (parseExpression "a + 1").errors = [] := by decide +kernel
  exact ⟨h, (nothing_ignored "a + 1").2.1 h⟩

end KiteCompiler.Grammar
