import KiteCompiler.Proofs.Nesting.Brackets

/-!
# What is read has its brackets nested

No production changes the awaited brackets (`Nests.rulesUpTo`), and a file is read up to its end. So the brackets of a
file that is read without an error are nested.
-/

namespace KiteCompiler.Grammar

variable {α β σ : Type}

namespace Nests

variable {C C' : Token.Kind → Bool} {awaited : List Token.Kind}

instance : Balanced C qualifiedName awaited := by unfold qualifiedName; infer_instance

section

variable (rules : Rules) [hrules : ∀ C awaited p, Balanced C (rules p) awaited]

/-! ## Annotations, modifiers and types -/

set_option synthInstance.maxSize 2000 in
instance : Balanced C (annotationUse rules) awaited := by unfold annotationUse elementValuePair; infer_instance

instance : Balanced C (annotations rules) awaited := by unfold annotations; infer_instance

instance : Balanced C (elementValue rules) awaited := by unfold elementValue; infer_instance

instance : Balanced C (modifiers rules) awaited := by unfold modifiers modifierTurn; infer_instance

instance closeAngle : Balanced C closeAngle awaited := by
  refine ⟨fun {s} hs _ _ => ?_, inferInstance⟩
  rw [closeAngle_apply]
  split
  · rename_i hk
    exact .advance hs (by rw [hk, Steps.pass_of_isPlain rfl])
  split
  · exact .stay (.splitCurrent ‹_›) rfl
  · exact .refl _ _

set_option synthInstance.maxSize 2000 in
instance : Balanced C (typeArguments rules) awaited := by unfold typeArguments typeArgument wildcard; infer_instance

instance : Balanced C (classType rules) awaited := by unfold classType segmentTurn classTypeElement; infer_instance

instance : Balanced C (dims rules) awaited := by unfold dims dim; infer_instance

instance : Balanced C (dimsHere rules) awaited := by unfold dimsHere; infer_instance

instance elementType {otherwise : Parser Cst} {more : Parser (List Cst)}
    [hotherwise : Balanced anything otherwise awaited] [Balanced anything more awaited] :
    Balanced C (elementType rules otherwise more) awaited := by
  unfold Grammar.elementType
  refine ask fun start => seq inferInstance fun ts => peeked fun t => ?_
  generalize t.kind = k
  dsimp only
  split
  · have : Holds (Steps.isPlain k) := ⟨Steps.isPlain_of_isPrimitive ‹_›⟩
    infer_instance
  · have : Balanced (oneOf [k]) otherwise awaited := everywhere hotherwise
    infer_instance

instance : Balanced C (type rules) awaited := by unfold type; infer_instance

set_option synthInstance.maxSize 2000 in
instance : Balanced C (typeParameters rules) awaited := by unfold typeParameters typeParameter; infer_instance

instance : Balanced C (typeList rules) awaited := by unfold typeList; infer_instance

/-! ## Variables and blocks -/

instance : Balanced C (variableInitializer rules) awaited := by unfold variableInitializer; infer_instance

instance : Balanced C (arrayInitializer rules) awaited := by unfold arrayInitializer; infer_instance

instance : Balanced C (variableDeclarators rules) awaited := by
  unfold variableDeclarators variableDeclarator
  infer_instance

instance : Balanced C (localVarDecl rules) awaited := by unfold localVarDecl; infer_instance

instance : Balanced C (formalParameter rules) awaited := by unfold formalParameter varargs; infer_instance

instance : Balanced C (formalParameters rules) awaited := by unfold formalParameters; infer_instance

instance : Balanced C (blockStatement rules) awaited := by unfold blockStatement; infer_instance

instance : Balanced C (block rules) awaited := by unfold block; infer_instance

/-! ## Expressions -/

instance : Balanced C (expressionList rules) awaited := by unfold expressionList; infer_instance

instance : Balanced C (parenthesized rules) awaited := by unfold parenthesized; infer_instance

instance : Balanced C (arguments rules) awaited := by unfold arguments; infer_instance

set_option synthInstance.maxSize 2000 in
instance : Balanced C (lambda rules) awaited := by unfold lambda lambdaParameters; infer_instance

instance expression : Balanced C (expression rules) awaited := by
  unfold Grammar.expression assignmentOperators; infer_instance

set_option synthInstance.maxSize 2000 in
theorem binary {levels : List (List Token.Kind)} (h : ∀ level ∈ levels, ∀ k ∈ level, Steps.isPlain k = true) :
    Balanced C (binary rules levels) awaited := by
  induction levels generalizing C with
  | nil => unfold Grammar.binary; infer_instance
  | cons level tighter ih =>
    obtain ⟨hlevel, htighter⟩ := List.forall_mem_cons.1 h
    have hplain : Steps.Plain level := ⟨hlevel _⟩
    have htighter : ∀ C, Balanced C (Grammar.binary rules tighter) awaited := fun C => ih htighter
    unfold Grammar.binary operatorTurn
    infer_instance

set_option synthInstance.maxSize 2000 in
instance conditional : Balanced C (conditional rules) awaited := by
  have hbinary : ∀ C, Balanced C (Grammar.binary rules binaryLevels) awaited := fun C =>
    binary rules (by decide)
  unfold Grammar.conditional
  infer_instance

instance : Balanced C (createdType rules) awaited := by unfold createdType; infer_instance

instance : Balanced C (creationTail rules) awaited := by unfold creationTail; infer_instance

set_option synthInstance.maxSize 2000 in
instance : Balanced C (creation rules) awaited := by unfold creation arrayCreationTail dimExpr; infer_instance

set_option synthInstance.maxSize 2000 in
instance methodRefSuffix (dimensions : Option Cst) : Balanced C (methodRefSuffix rules dimensions) awaited := by
  unfold Grammar.methodRefSuffix
  split <;> infer_instance

set_option synthInstance.maxSize 2000 in
instance : Balanced C (arrayTypeSuffix rules) awaited := by unfold arrayTypeSuffix; infer_instance

instance after (r : Receiver) (t : Cst) : Balanced C (r.after t) awaited := by
  unfold Receiver.after
  dsimp only
  repeat' split
  all_goals infer_instance

set_option synthInstance.maxSize 2000 in
theorem primitiveTypeExpression {k : Token.Kind} (hk : (k.isPrimitive || k = .kwVoid) = true) :
    Balanced (oneOf [k]) (primitiveTypeExpression rules) awaited := by
  have hplain : ∀ k' : Token.Kind, oneOf [k] k' = true → Steps.isPlain k' = true := by
    intro k' hk'
    obtain rfl := List.mem_singleton.1 (List.contains_iff_mem.1 hk')
    revert hk
    cases k' <;> decide
  have hforward : ∀ p, Forward (rules p) := fun p => (hrules anything [] p).forward
  rw [primitiveTypeExpression_eq]
  refine branch inferInstance (lookingAhead hplain inferInstance fun answer => ?_)
  dsimp only
  infer_instance

instance primary : Balanced C (primary rules) awaited := by
  refine peeked fun t => ?_
  generalize t.kind = k
  split
  case h_12 =>
    split
    · exact primitiveTypeExpression rules ‹_›
    split
    · have : Holds (Steps.isPlain k) := ⟨Steps.isPlain_of_isName ‹_›⟩
      infer_instance
    · infer_instance
  all_goals infer_instance

instance dotSuffix : Balanced (oneOf [.dot]) (dotSuffix rules) awaited := by
  have hforward : ∀ p, Forward (rules p) := fun p => (hrules anything [] p).forward
  refine starting (inferInstanceAs (Forward (Grammar.dotSuffix rules))) fun s hs hC => ?_
  have hdot : Steps.isPlain s.current.kind = true := by
    rw [List.mem_singleton.1 (List.contains_iff_mem.1 hC)]
  generalize hk : (s.ahead 1).kind = k
  split
  · exact leads hs hC
  · exact .node (.skip hs hdot hk inferInstance)
  · exact .node (.skip hs hdot hk inferInstance)
  · exact .node (.skip hs hdot hk inferInstance)
  · exact leads hs hC
  · exact leads hs hC

instance suffix : Balanced C (suffix rules) awaited := by
  refine peeked fun t => ?_
  generalize t.kind = k
  split <;> infer_instance

instance suffixed : Balanced C (suffixed rules) awaited := by
  have hturn : ∀ r : Receiver, Balanced anything (suffixTurn rules r) awaited := fun r => by
    refine seq inferInstance fun t => ?_
    split <;> infer_instance
  unfold Grammar.suffixed
  dsimp only
  infer_instance

set_option synthInstance.maxSize 2000 in
instance : Balanced C (cast rules) awaited := by unfold cast; infer_instance

instance unary : Balanced C (unary rules) awaited := by
  refine peeked fun t => ?_
  generalize t.kind = k
  split <;> infer_instance

/-! ## Statements -/

set_option synthInstance.maxSize 2000 in
instance : Balanced (oneOf [.kwCase, .kwDefault]) (switchLabel rules) awaited := by unfold switchLabel; infer_instance

instance (kind : Cst.Kind) {operand : Parser Cst} [Steps C awaited awaited]
    [Balanced anything operand awaited] : Balanced C (jumpStatement kind operand) awaited := by
  unfold jumpStatement; infer_instance

set_option synthInstance.maxSize 2000 in
instance statement : Balanced C (statement rules) awaited := by
  unfold Grammar.statement ifStatement whileStatement doStatement forStatement forEachParts forParts switchStatement
    groupTurn switchGroup synchronizedStatement throwStatement assertStatement labeledStatement expressionStatement
    tryStatement resource catchClause
  refine peeked fun t => ?_
  generalize t.kind = k
  split <;> infer_instance

/-! ## Declarations -/

instance (kind : Cst.Kind) (modifiers : Cst) {parts : Parser (List Cst)} [Balanced C parts awaited] :
    Balanced C (declaration kind modifiers parts) awaited := by unfold declaration; infer_instance

set_option synthInstance.maxSize 2000 in
instance (modifiers : Cst) : Balanced C (typeDecl? rules modifiers) awaited := by
  unfold typeDecl? classDecl interfaceDecl annotationTypeDecl; infer_instance

instance : Balanced C (throwsClause rules) awaited := by unfold throwsClause; infer_instance

instance : Balanced C (returnType rules) awaited := by unfold returnType; infer_instance

instance (kind : Cst.Kind) (modifiers : Cst) (typeParameters : List Cst) (returnType : Cst) :
    Balanced C (methodDecl rules kind modifiers typeParameters returnType) awaited := by
  unfold methodDecl
  infer_instance

instance (kind : Cst.Kind) (modifiers type : Cst) :
    Balanced C (fieldDecl rules kind modifiers type) awaited := by unfold fieldDecl; infer_instance

instance : Balanced Token.Kind.isName constructorScope awaited := by unfold constructorScope; infer_instance

instance constructorCall : Balanced C (constructorCall rules) awaited := by
  unfold Grammar.constructorCall
  refine inNode _ (seq inferInstance fun scope => seq inferInstance fun arguments => choose ?_ ?_)
  · refine ask fun isSuper => ?_
    dsimp only
    infer_instance
  · simp only [Bool.false_eq_true, if_false]
    infer_instance

instance (modifiers : Cst) (typeParameters : List Cst) :
    Balanced C (constructorDecl rules modifiers typeParameters) awaited := by
  unfold constructorDecl constructorBody; infer_instance

instance (method field : Cst.Kind) (construct : Construct) (modifiers : Cst) (typeParameters : List Cst) :
    Balanced C (methodOrField rules method field construct modifiers typeParameters) awaited := by
  unfold methodOrField; infer_instance

instance {rest : Cst → Parser Cst} [∀ t, Balanced anything (rest t) awaited] :
    Balanced C (typeOr rules rest) awaited := by
  refine seq inferInstance fun m => seq inferInstance fun t => ?_
  split <;> infer_instance

instance : Balanced C (classMember rules) awaited := by unfold classMember; infer_instance

instance : Balanced C (interfaceMember rules) awaited := by unfold interfaceMember; infer_instance

set_option synthInstance.maxSize 2000 in
instance : Balanced C (annotationTypeMember rules) awaited := by unfold annotationTypeMember; infer_instance

instance (kind : Cst.Kind) {member : Parser Cst} [∀ awaited, Balanced anything member awaited] :
    Balanced C (body kind member) awaited := by unfold body; infer_instance

/-- No dot is current, unless a star stands behind it. -/
def DotBeforeStar (s : State) : Prop := s.current.kind = .dot → (s.ahead 1).kind = .star

/-- The names of an import go on behind each dot but the one before a star. -/
theorem dotBeforeStar_manyWhile {item : Parser Cst} [hitem : Forward item] {s : State} (hs : s.Ready) : DotBeforeStar
    (Grammar.manyWhile (check .dot <&&> (not <$> checkAhead 1 .star)) (do Grammar.skip; item) s).2 := by
  refine @ends_repeatUpTo _ (fun _ => whileTurn (check .dot <&&> (not <$> checkAhead 1 .star)) (do Grammar.skip; item))
    inferInstance DotBeforeStar (fun _ s hs => ?_) (s.remaining + 1) () s hs (Nat.lt_succ_self _)
  unfold whileTurn
  have hask : (check .dot <&&> (not <$> checkAhead 1 .star)) s =
      (s.current.kind == .dot && !(s.ahead 1).kind == .star, s) := by
    rw [and_run, check_run]
    cases s.current.kind == .dot <;> rfl
  rw [bind_run hask]
  cases hgoes : s.current.kind == .dot && !(s.ahead 1).kind == .star with
  | true =>
    have hdot : s.current.kind = .dot := beq_iff_eq.1 (Bool.and_eq_true_iff.1 hgoes).1
    refine .inr ⟨rfl, Moves.behind (congrArg Prod.snd hask) ?_⟩
    rw [hask, hgoes]
    have hskip : Moves (do Grammar.skip; item) s := (moves_skip hs (by rw [hdot]; decide)).bind
    exact Moves.bind (f := fun c => pure (Turn.more [c] ())) hskip
  | false =>
    refine .inl ⟨rfl, fun hdot : s.current.kind = .dot => ?_⟩
    change (s.ahead 1).kind = .star
    simpa [hdot] using hgoes

set_option synthInstance.maxSize 2000 in
instance importDecl : Balanced C importDecl awaited := by
  unfold Grammar.importDecl
  refine inNode _ (seq inferInstance fun _ => seq inferInstance fun word => ask fun start =>
    seq inferInstance fun first => ?_)
  refine ending inferInstance (fun s hs => dotBeforeStar_manyWhile hs) inferInstance fun rest s hs hstar => ?_
  rw [From, bind_run (check_run .dot s)]
  cases hdot : s.current.kind == .dot with
  | true =>
    have hdot : s.current.kind = .dot := beq_iff_eq.1 hdot
    refine From.skip hs (by rw [hdot]) (hstar hdot) ?_
    dsimp only
    infer_instance
  | false =>
    simp only [Bool.false_eq_true, if_false]
    exact leads (C := anything) hs rfl

instance : Balanced C (topLevelType rules) awaited := by unfold topLevelType; infer_instance

instance : Balanced C (topLevelTypes rules) awaited := by unfold topLevelTypes typeTurn countedType; infer_instance

instance : Balanced C (compilationUnit rules) awaited := by unfold compilationUnit packageDecl; infer_instance

end

instance rulesUpTo (depth : Nat) (C : Token.Kind → Bool) (awaited : List Token.Kind) (p : Production) :
    Balanced C (rulesUpTo depth p) awaited := by
  induction depth generalizing C awaited p with
  | zero => unfold Grammar.rulesUpTo; infer_instance
  | succ depth ih =>
    unfold Grammar.rulesUpTo production
    split <;> infer_instance

end Nests

/-- Layout and invalid tokens are no brackets. -/
theorem filter_isBracket_good (tokens : List Token) :
    ((good tokens).map (·.kind)).filter Token.Kind.isBracket = (tokens.map (·.kind)).filter Token.Kind.isBracket := by
  have hgood : ∀ k : Token.Kind, k.isBracket = true → (!k == .error) = true ∧ (!k.isLayout) = true := by
    intro k
    cases k <;> decide
  rw [good, List.filter_map, List.filter_map, List.filter_filter, List.filter_filter]
  refine congrArg _ (List.filter_congr fun t _ => Bool.eq_iff_iff.2 ?_)
  rw [Bool.and_eq_true_iff, Bool.and_eq_true_iff, and_assoc]
  exact ⟨And.left, fun h => ⟨h, hgood _ h⟩⟩

/-- The brackets of a file that is read without an error are nested: each one that is opened is closed by the one that
belongs to it, and there are no others. -/
theorem nested_of_no_errors (source : Text) (h : (parseUnit source).errors = []) :
    Token.Kind.Nested (((Token.lex source).map (·.kind)).filter Token.Kind.isBracket) := by
  have herrors := (errors_parse_nil compilationUnit source).1 h
  have hready := initial_ready source
  rw [run] at herrors
  have hleads : Leads [] [] _ _ := Nests.leads (C := anything) hready rfl herrors
  have hpass := hleads.passAll_brackets (ready_run compilationUnit source) (ends_compilationUnit hready)
  have hbrackets : (initial (Token.lex source)).brackets =
      ((good (Token.lex source)).map (·.kind)).map bracketKind := by
    rw [State.brackets, tokens_initial, pos_initial, List.drop_zero, List.map_map]
    rfl
  rw [hbrackets, passAll_bracketKind] at hpass
  rw [← filter_isBracket_good]
  exact Token.Kind.nested_of_passAll hpass

theorem nested_of_no_errors_method : (parseUnit "class A \x7b int f() \x7b return a[0]; \x7d \x7d").errors = [] ∧
    Token.Kind.Nested [.lbrace, .lparen, .rparen, .lbrace, .lbracket, .rbracket, .rbrace, .rbrace] := by
  have hread : (parseUnit "class A \x7b int f() \x7b return a[0]; \x7d \x7d").errors = [] := by decide +kernel
  exact ⟨hread, nested_of_no_errors _ hread⟩

end KiteCompiler.Grammar
