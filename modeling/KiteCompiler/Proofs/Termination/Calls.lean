import KiteCompiler.Proofs.Termination.Agreement
import KiteCompiler.Proofs.Termination.Loops

/-!
# Which productions a production calls

The productions have ranks such that, before it has taken a token, each one calls only those of a lower rank
(`agree_production`). So along nested calls the text that is left gets less, or stays the same while the rank gets
lower.
-/

namespace KiteCompiler.Grammar

variable {α β σ : Type} {m : Nat} {rules rules' : Rules} [hforward : ∀ p, Forward (rules p)]

/-- Can this kind of token start a lambda? -/
def startsLambda (k : Token.Kind) : Bool := k.isName || k == .lparen

omit hforward in
theorem isLambda_eq_false {s : State} (h : startsLambda s.current.kind = false) : isLambda s = (false, s) := by
  obtain ⟨hname, hparen⟩ : s.current.kind.isName = false ∧ s.current.kind ≠ .lparen := by simpa [startsLambda] using h
  have hfirst : (checkName <&&> checkAhead 1 .arrow) s = (false, s) := by
    change (pure s.current.kind.isName <&&> checkAhead 1 .arrow : Parser Bool) s = _
    rw [hname]
    rfl
  rw [isLambda, bind_run hfirst, if_neg Bool.false_ne_true, bind_run (check_apply .lparen s),
    beq_eq_false_iff_ne.2 hparen]
  rfl

omit hforward in
instance Tells.isLambda : Tells isLambda startsLambda := by
  refine ⟨fun {s} h => ?_⟩
  by_contra hstarts
  rw [isLambda_eq_false (Bool.eq_false_iff.2 hstarts)] at h
  exact Bool.false_ne_true h

omit hforward in
instance : Real (oneOf assignmentOperators) :=
  ⟨fun hk heof => absurd (List.contains_iff_mem.1 hk) (by rw [heof]; decide)⟩

namespace Agree

/-! ## Types -/

section Types

variable {C : Token.Kind → Bool} [∀ p, Agree nothing m (rules p) (rules' p)]

set_option synthInstance.maxSize 2000 in
instance : Agree (oneOf [.atSign]) m (annotationUse rules) (annotationUse rules') := by
  unfold annotationUse
  infer_instance

instance : Agree C m (annotations rules) (annotations rules') := by unfold annotations; infer_instance

set_option synthInstance.maxSize 2000 in
instance : Agree C m (modifiers rules) (modifiers rules') := by unfold modifiers modifierTurn; infer_instance

set_option synthInstance.maxSize 2000 in
instance : Agree (oneOf [.less]) m (typeArguments rules) (typeArguments rules') := by
  unfold typeArguments
  infer_instance

set_option synthInstance.maxSize 2000 in
instance : Agree C m (classType rules) (classType rules') := by
  unfold classType segmentTurn classTypeElement
  infer_instance

set_option synthInstance.maxSize 2000 in
instance : Agree C m (dims rules) (dims rules') := by unfold dims dim; infer_instance

instance : Agree C m (dimsHere rules) (dimsHere rules') := by unfold dimsHere; infer_instance

instance {otherwise : Parser Cst} {more more' : Parser (List Cst)} [Forward otherwise] [Forward more]
    [Agree anything m more more'] :
    Agree C m (elementType rules otherwise more) (elementType rules' otherwise more') := by
  unfold elementType
  infer_instance

instance type : Agree C m (type rules) (type rules') := by unfold Grammar.type; infer_instance

end Types

/-! ## Expressions -/

section Expressions

variable {C : Token.Kind → Bool} [∀ p, Agree nothing m (rules p) (rules' p)]

section Unary

variable [htype : ∀ C, Agree C m (rules .type) (rules' .type)]

instance primitiveTypeExpression : Agree C m (primitiveTypeExpression rules) (primitiveTypeExpression rules') := by
  rw [primitiveTypeExpression_eq, primitiveTypeExpression_eq]; infer_instance

omit htype in
set_option synthInstance.maxSize 2000 in
instance : Agree (oneOf [.kwNew]) m (creation rules) (creation rules') := by unfold creation; infer_instance

omit htype in
instance : Agree (oneOf [.lparen]) m (parenthesized rules) (parenthesized rules') := by
  unfold parenthesized
  infer_instance

instance primary : Agree C m (primary rules) (primary rules') := by
  unfold Grammar.primary
  refine peeked fun t => ?_
  generalize t.kind = k
  split <;> infer_instance

omit htype in
instance methodRefSuffix (dimensions : Option Cst) :
    Agree (oneOf [.colonColon]) m (methodRefSuffix rules dimensions) (methodRefSuffix rules' dimensions) := by
  unfold Grammar.methodRefSuffix
  cases dimensions <;> infer_instance

omit htype in
set_option synthInstance.maxSize 2000 in
instance : Agree (oneOf [.lparen]) m (arguments rules) (arguments rules') := by unfold arguments; infer_instance

omit htype in
instance : Agree C m (arrayTypeSuffix rules) (arrayTypeSuffix rules') := by unfold arrayTypeSuffix; infer_instance

omit htype in
set_option synthInstance.maxSize 2000 in
instance dotSuffix : Agree (oneOf [.dot]) m (dotSuffix rules) (dotSuffix rules') := by
  unfold Grammar.dotSuffix
  refine ask fun dot => ask fun s => ?_
  dsimp only
  split <;> infer_instance

omit htype in
set_option synthInstance.maxSize 2000 in
instance suffix : Agree C m (suffix rules) (suffix rules') := by
  unfold Grammar.suffix
  refine peeked fun t => ?_
  generalize t.kind = k
  split <;> infer_instance

omit htype in
instance (r : Receiver) : Agree C m (suffixTurn rules r) (suffixTurn rules' r) := first inferInstance

instance suffixed : Agree C m (suffixed rules) (suffixed rules') := by
  unfold Grammar.suffixed
  dsimp only
  infer_instance

omit htype in
set_option synthInstance.maxSize 2000 in
instance : Agree (oneOf [.lparen]) m (cast rules) (cast rules') := by unfold cast; infer_instance

instance unary : Agree C m (unary rules) (unary rules') := by
  unfold Grammar.unary
  refine peeked fun t => ?_
  generalize t.kind = k
  split <;> infer_instance

end Unary

section Binary

variable [hunary : ∀ C, Agree C m (rules .unary) (rules' .unary)]

set_option synthInstance.maxSize 2000 in
theorem binary {levels : List (List Token.Kind)} (h : ∀ level ∈ levels, Token.Kind.eof ∉ level) :
    Agree anything m (binary rules levels) (binary rules' levels) := by
  induction levels with
  | nil => exact hunary _
  | cons level tighter ih =>
    have hreal : Real (oneOf level) :=
      ⟨fun {k} hk heof => h level List.mem_cons_self (heof ▸ List.contains_iff_mem.1 hk)⟩
    have hfirst := ih fun level hlevel => h level (List.mem_cons_of_mem _ hlevel)
    unfold Grammar.binary operatorTurn
    infer_instance

set_option synthInstance.maxSize 2000 in
instance conditional : Agree C m (conditional rules) (conditional rules') := by
  have hbinary : Agree anything m (Grammar.binary rules binaryLevels) (Grammar.binary rules' binaryLevels) :=
    binary (by decide)
  have hbinary : Agree C m (Grammar.binary rules binaryLevels) (Grammar.binary rules' binaryLevels) :=
    everywhere hbinary
  unfold Grammar.conditional
  dsimp only
  infer_instance

end Binary

section Expression

variable [hconditional : ∀ C, Agree C m (rules .conditional) (rules' .conditional)]

/-- A name has been asked for. -/
theorem chooseName {f f' : Bool → Parser β} (hyes : Agree Token.Kind.isName m (f true) (f' true))
    (hno : Agree (fun k => C k && !k.isName) m (f false) (f' false)) :
    Agree C m (checkName >>= f) (checkName >>= f') := by
  refine ⟨fun {s} hs h => ?_⟩
  change f s.current.kind.isName s = f' s.current.kind.isName s
  cases hname : s.current.kind.isName with
  | true => exact hyes.eq hs (h.imp_right fun h => ⟨h.1, hname⟩)
  | false => exact hno.eq hs (h.imp_right fun h => ⟨h.1, by rw [h.2, hname]; rfl⟩)

omit hconditional in
set_option synthInstance.maxSize 10000 in
instance lambda : Agree startsLambda m (lambda rules) (lambda rules') := by
  unfold Grammar.lambda lambdaParameters
  have hparameters : Takes (oneOf [.lparen]) (lambdaParameters rules) := by
    unfold lambdaParameters; infer_instance
  have hparen : ∀ k, (startsLambda k && !k.isName) = true → oneOf [.lparen] k = true := by
    intro k hk
    simp only [startsLambda, Bool.and_eq_true, Bool.or_eq_true, beq_iff_eq, Bool.not_eq_true'] at hk
    rw [hk.1.resolve_left fun hname => absurd (hname.symm.trans hk.2) (by decide)]
    decide
  refine @Agree.node _ _ _ _ _ (chooseName ?_ (mono hparen ?_))
  · simp only [if_true]
    infer_instance
  · simp only [Bool.false_eq_true, if_false]
    infer_instance

instance expression : Agree C m (expression rules) (expression rules') := by
  unfold Grammar.expression; infer_instance

instance elementValue : Agree C m (elementValue rules) (elementValue rules') := by
  unfold Grammar.elementValue; infer_instance

end Expression

end Expressions

/-! ## Statements -/

section Statements

variable {C : Token.Kind → Bool} [∀ p, Agree nothing m (rules p) (rules' p)]

instance : Agree (oneOf [.lbrace]) m (block rules) (block rules') := by unfold block; infer_instance

set_option synthInstance.maxSize 2000 in
instance : Agree (oneOf [.kwTry]) m (tryStatement rules) (tryStatement rules') := by
  unfold tryStatement; dsimp only; infer_instance

instance (kind : Cst.Kind) {operand operand' : Parser Cst} [Real C] [Forward operand]
    [Agree nothing m operand operand'] :
    Agree C m (jumpStatement kind operand) (jumpStatement kind operand') := by unfold jumpStatement; infer_instance

instance [Real C] : Agree C m (throwStatement rules) (throwStatement rules') := by unfold throwStatement; infer_instance

variable [hexpression : ∀ C, Agree C m (rules .expression) (rules' .expression)]

set_option synthInstance.maxSize 10000 in
instance statement : Agree C m (statement rules) (statement rules') := by
  unfold Grammar.statement ifStatement whileStatement doStatement forStatement switchStatement synchronizedStatement
    assertStatement labeledStatement expressionStatement
  refine peeked fun t => ?_
  generalize t.kind = k
  split <;> infer_instance

end Statements

/-! ## Declarations -/

section Declarations

variable {C : Token.Kind → Bool} [∀ p, Agree nothing m (rules p) (rules' p)]

instance (kind : Cst.Kind) (modifiers : Cst) {parts parts' : Parser (List Cst)} [Forward parts]
    [Agree C m parts parts'] : Agree C m (declaration kind modifiers parts) (declaration kind modifiers parts') := by
  unfold declaration
  infer_instance

set_option synthInstance.maxSize 10000 in
instance (modifiers : Cst) : Agree C m (typeDecl? rules modifiers) (typeDecl? rules' modifiers) := by
  unfold typeDecl? classDecl interfaceDecl annotationTypeDecl; infer_instance

instance : Agree (oneOf [.less]) m (typeParameters rules) (typeParameters rules') := by
  unfold typeParameters
  infer_instance

instance : Agree (oneOf [.kwThrows]) m (throwsClause rules) (throwsClause rules') := by
  unfold throwsClause
  infer_instance

set_option synthInstance.maxSize 2000 in
instance : Agree C m (variableDeclarators rules) (variableDeclarators rules') := by
  unfold variableDeclarators variableDeclarator; infer_instance

instance (kind : Cst.Kind) (modifiers type : Cst) :
    Agree C m (fieldDecl rules kind modifiers type) (fieldDecl rules' kind modifiers type) := by
  unfold fieldDecl
  infer_instance

set_option synthInstance.maxSize 2000 in
instance (modifiers : Cst) (parameters : List Cst) :
    Agree Token.Kind.isName m (constructorDecl rules modifiers parameters)
    (constructorDecl rules' modifiers parameters) := by
  unfold constructorDecl; infer_instance

instance body (kind : Cst.Kind) {member member' : Parser Cst} [Forward member] [Agree anything m member member'] :
    Agree C m (body kind member) (body kind member') := by
  unfold Grammar.body; infer_instance

variable [htype : ∀ C, Agree C m (rules .type) (rules' .type)]

instance : Agree C m (varargs rules) (varargs rules') := by unfold varargs; infer_instance

instance : Agree C m (formalParameter rules) (formalParameter rules') := by unfold formalParameter; infer_instance

instance : Agree C m (formalParameters rules) (formalParameters rules') := by unfold formalParameters; infer_instance

set_option synthInstance.maxSize 2000 in
instance (kind : Cst.Kind) (modifiers : Cst) (parameters : List Cst) (type : Cst) :
    Agree C m (methodDecl rules kind modifiers parameters type) (methodDecl rules' kind modifiers parameters type) := by
  unfold methodDecl; dsimp only; infer_instance

instance : Agree C m (returnType rules) (returnType rules') := by unfold returnType; infer_instance

instance (method field : Cst.Kind) (construct : Construct) (modifiers : Cst) (parameters : List Cst) :
    Agree C m (methodOrField rules method field construct modifiers parameters)
      (methodOrField rules' method field construct modifiers parameters) := by unfold methodOrField; infer_instance

omit htype in
instance {rest rest' : Cst → Parser Cst} [hrest : ∀ t, Agree anything m (rest t) (rest' t)] :
    Agree C m (typeOr rules rest) (typeOr rules' rest') := by
  refine seq inferInstance inferInstance fun t => seq inferInstance inferInstance fun o => ?_
  cases o with
  | some => exact refl _
  | none => exact hrest t

instance : Agree C m (classMember rules) (classMember rules') := by unfold classMember; infer_instance

instance : Agree C m (interfaceMember rules) (interfaceMember rules') := by unfold interfaceMember; infer_instance

set_option synthInstance.maxSize 2000 in
instance : Agree C m (annotationTypeMember rules) (annotationTypeMember rules') := by
  unfold annotationTypeMember
  infer_instance

end Declarations

/-! ## Array initializers -/

section ArrayInitializers

variable {C : Token.Kind → Bool} [hrules : ∀ p, Agree nothing m (rules p) (rules' p)]

omit hforward hrules in
/-- A loop behind whose first turn something has been taken. -/
theorem loopTaking {turn turn' : Parser (Turn Unit)} [hturns : Forward turn] (hpaced : Paced anything turn)
    (hfirst : Agree C m turn turn') [hlater : Agree nothing m turn turn'] :
    Agree C m (Grammar.repeatTurns turn) (Grammar.repeatTurns turn') := by
  refine ⟨fun {s} hs h => ?_⟩
  have honward := hturns.onward s
  have hturn := hfirst.eq hs h
  change Grammar.repeatUpTo (fun _ => turn) (s.remaining + 1) () s =
    Grammar.repeatUpTo (fun _ => turn') (s.remaining + 1) () s
  rw [repeatUpTo_run, repeatUpTo_run, ← hturn]
  cases hnext : (turn s).1.next with
  | none => rfl
  | some b =>
    have hmoves : s.pos < (turn s).2.pos := hpaced.moves hs rfl (show (turn s).1.next.isSome = true by rw [hnext]; rfl)
    have hlt : (turn s).2.unread < m := by
      have := honward.unread_lt hs hmoves
      rcases h with h | h <;> omega
    have hrest : Agree nothing m (Grammar.repeatUpTo (fun _ => turn) s.remaining b)
      (Grammar.repeatUpTo (fun _ => turn') s.remaining b) := inferInstance
    exact congrArg (fun r : List Cst × State => ((turn s).1.added ++ r.1, r.2)) (hrest.eq (honward.ready hs) (.inl hlt))

/-- All kinds but the opening brace. -/
def isNoBrace (k : Token.Kind) : Bool := k != .lbrace

variable [hexpression : ∀ C, Agree C m (rules .expression) (rules' .expression)]

omit hforward in
theorem variableInitializer : Agree isNoBrace m (variableInitializer rules) (variableInitializer rules') := by
  refine ⟨fun {s} hs h => ?_⟩
  change (if (s.current.kind == .lbrace) = true then rules .arrayInitializer else rules .expression) s =
    (if (s.current.kind == .lbrace) = true then rules' .arrayInitializer else rules' .expression) s
  by_cases hbrace : s.current.kind = .lbrace
  · rw [if_pos (beq_iff_eq.2 hbrace), if_pos (beq_iff_eq.2 hbrace)]
    refine (hrules .arrayInitializer).eq hs (.inl (h.resolve_right fun h => ?_))
    rw [hbrace] at h
    exact absurd h.2 (by decide)
  · rw [if_neg (beq_iff_eq.not.2 hbrace), if_neg (beq_iff_eq.not.2 hbrace)]
    exact (hexpression _).eq hs h

theorem initializers : Agree isNoBrace m (Grammar.separatedUntil .rbrace .comma (Grammar.variableInitializer rules))
    (Grammar.separatedUntil .rbrace .comma (Grammar.variableInitializer rules')) := by
  have hturn : Agree isNoBrace m (untilTurn .rbrace .comma (Grammar.variableInitializer rules))
      (untilTurn .rbrace .comma (Grammar.variableInitializer rules')) := by
    refine ask fun stop => ?_
    split
    · exact refl _
    · exact first variableInitializer
  exact loopTaking inferInstance hturn

/-- If the opening brace is missing, the first element is an expression, since no brace is current. -/
instance arrayInitializer : Agree C m (arrayInitializer rules) (arrayInitializer rules') := by
  have hmissing : Agree isNoBrace m (Grammar.arrayInitializer rules) (Grammar.arrayInitializer rules') :=
    @Agree.node _ _ _ _ _ (ask fun _ => first initializers)
  have htaken : Agree (oneOf [.lbrace]) m (Grammar.arrayInitializer rules) (Grammar.arrayInitializer rules') := by
    unfold Grammar.arrayInitializer; infer_instance
  refine ⟨fun {s} hs h => ?_⟩
  by_cases hbrace : s.current.kind = .lbrace
  · exact htaken.eq hs (h.imp_right fun h => ⟨h.1, by rw [hbrace]; decide⟩)
  · exact hmissing.eq hs (h.imp_right fun h => ⟨h.1, bne_iff_ne.2 hbrace⟩)

end ArrayInitializers

end Agree

/-! ## Ranks -/

/-- Before it has taken a token, a production calls only those of a lower rank. -/
def Production.rank : Production → Nat
  | .type => 0
  | .unary | .classBody | .interfaceBody | .annotationTypeBody => 1
  | .conditional => 2
  | .expression | .elementValue => 3
  | .statement | .arrayInitializer => 4

theorem agree_production (hlater : ∀ q, Agree nothing m (rules q) (rules' q)) (p : Production)
    (hlower : ∀ q : Production, q.rank < p.rank → Agree anything m (rules q) (rules' q)) :
    Agree anything m (production rules p) (production rules' p) := by
  have hrule : ∀ q : Production, q.rank < p.rank → ∀ C, Agree C m (rules q) (rules' q) :=
    fun q hq C => (hlower q hq).everywhere
  cases p with
  | type => exact Agree.type
  | unary =>
    have := hrule .type (by decide)
    exact Agree.unary
  | conditional =>
    have := hrule .unary (by decide)
    exact Agree.conditional
  | expression =>
    have := hrule .conditional (by decide)
    exact Agree.expression
  | elementValue =>
    have := hrule .conditional (by decide)
    exact Agree.elementValue
  | statement =>
    have := hrule .expression (by decide)
    exact Agree.statement
  | arrayInitializer =>
    have := hrule .expression (by decide)
    exact Agree.arrayInitializer
  | classBody | interfaceBody | annotationTypeBody =>
    have := hrule .type (by decide)
    exact Agree.body _

end KiteCompiler.Grammar
