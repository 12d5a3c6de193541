import KiteCompiler.Grammar.Parsed
import KiteCompiler.Proofs.Parallel.Frame

/-!
# Productions keep to a frame

Every production of the grammar is parallel to itself in every frame. This is found by instance search; the productions
that choose by a `match`, and those that go back on their own, have a proof of their own. The recursion through `Rules`
is closed at the end by induction on the depth.
-/

namespace KiteCompiler.Grammar

namespace Frame

section

variable (F : Frame)

abbrev Self {α : Type} [Relates F α] (p : Parser α) : Prop := F.Parallel p p

/-- A production is parallel to itself as far as the rules that it uses are parallel. -/
abbrev Both {α : Type} [Relates F α] (p : Rules → Parser α) (rules rules' : Rules) : Prop :=
  F.Parallel (p rules) (p rules')

end

variable {F : Frame}

/-! ## Looking ahead -/

instance : F.Self qualifiedName := by unfold qualifiedName; infer_instance

instance {n n' : Nat} [hn : Related F n n'] {part part' : Parser Bool} [F.Parallel part part'] :
    F.Parallel (whileUpTo part n) (whileUpTo part' n') := by
  obtain rfl : n = n' := hn.rel
  clear hn
  induction n with
  | zero => exact .pure
  | succ n ih => unfold whileUpTo; infer_instance

instance {part part' : Parser Bool} [F.Parallel part part'] : F.Parallel (whileTrue part) (whileTrue part') := by
  unfold whileTrue; infer_instance

set_option synthInstance.maxSize 2000 in
instance (opening closing : Token.Kind) (depth : Int) : F.Self (balancedTurn opening closing depth) := by
  refine .peeked fun x hk => ?_
  rw [hk]
  dsimp only
  infer_instance

instance (opening closing : Token.Kind) : F.Self (skipBalanced opening closing) := by
  unfold skipBalanced; infer_instance

instance : F.Self skipAnnotationUse := by unfold skipAnnotationUse; infer_instance

instance : F.Self annotationPart := by unfold annotationPart; infer_instance

instance : F.Self skipAnnotations := by unfold skipAnnotations; infer_instance

instance (k : Token.Kind) : F.Self (annotationsPrecede k) := by unfold annotationsPrecede; infer_instance

instance (k : Token.Kind) : F.Self (checkAnnotated k) := by unfold checkAnnotated; infer_instance

instance (depth : Int) : F.Self (typeArgumentsTurn depth) := by
  refine @Parallel.ite _ _ _ _ _ _ _ _ _ _ _ _ .pure (.peeked fun x hk => ?_)
  rw [hk]
  infer_instance

instance : F.Self skipTypeArguments := by unfold skipTypeArguments; infer_instance

instance : F.Self bracketsPart := by unfold bracketsPart; infer_instance

instance : F.Self skipBrackets := by unfold skipBrackets; infer_instance

instance : F.Self dimPart := by unfold dimPart; dsimp only; infer_instance

instance : F.Self skipDims := by unfold skipDims; infer_instance

set_option synthInstance.maxSize 2000 in
instance : F.Self classTypeTurn := by unfold classTypeTurn; dsimp only; infer_instance

set_option synthInstance.maxSize 2000 in
instance : F.Self skipType := by unfold skipType; dsimp only; infer_instance

instance : F.Self packageAnnotationPart := by unfold packageAnnotationPart; infer_instance

instance : F.Self isAnnotatedPackage := by unfold isAnnotatedPackage; infer_instance

instance : F.Self isLambda := by unfold isLambda; infer_instance

instance : F.Self boundTurn := by unfold boundTurn; infer_instance

set_option synthInstance.maxSize 2000 in
instance : F.Self isCast := by unfold isCast; dsimp only; infer_instance

instance : F.Self isLocalVarDecl := by unfold isLocalVarDecl; infer_instance

instance : F.Self variableModifierPart := by unfold variableModifierPart; infer_instance

instance : F.Self isEnhancedFor := by unfold isEnhancedFor; infer_instance

set_option synthInstance.maxSize 2000 in
instance : F.Self superCallTurn := by unfold superCallTurn; dsimp only; infer_instance

set_option synthInstance.maxSize 2000 in
instance : F.Self isConstructorCall := by unfold isConstructorCall; dsimp only; infer_instance

set_option synthInstance.maxSize 2000 in
instance : F.Self genericReferenceTurn := by unfold genericReferenceTurn; dsimp only; infer_instance

instance : F.Self isGenericReference := by unfold isGenericReference; infer_instance

instance : F.Self startsDimExpr := by unfold startsDimExpr; infer_instance

set_option synthInstance.maxSize 2000 in
instance : F.Self isTypedParameter := by unfold isTypedParameter; dsimp only; infer_instance

instance : F.Self startsType := by unfold startsType; dsimp only; infer_instance

/-! ## Productions -/

section

variable [hsplits : F.Splits] {rules rules' : Rules} [∀ p, F.Parallel (rules p) (rules' p)]

instance : F.Both elementValuePair rules rules' := by unfold elementValuePair; infer_instance

set_option synthInstance.maxSize 2000 in
instance : F.Both annotationUse rules rules' := by unfold annotationUse; infer_instance

instance : F.Both annotations rules rules' := by unfold annotations; infer_instance

instance : F.Both elementValue rules rules' := by unfold elementValue; infer_instance

instance : F.Self isModifier := by
  refine .peeked fun x hk => ?_
  rw [hk]
  split <;> infer_instance

instance : F.Both modifierTurn rules rules' := by unfold modifierTurn; infer_instance

instance : F.Both modifiers rules rules' := by unfold modifiers; infer_instance

instance : F.Self closeAngle := by
  refine ⟨fun s s' hs => ?_⟩
  rw [closeAngle_apply, closeAngle_apply, ← F.kind_eq (F.current hs)]
  by_cases hgreater : s.current.kind = .greater
  · rw [if_pos hgreater, if_pos hgreater]
    exact ⟨rfl, F.advance hs⟩
  rw [if_neg hgreater, if_neg hgreater]
  cases hrest : afterAngle s.current.kind with
  | some rest => exact ⟨rfl, hsplits.split hs hrest⟩
  | none => exact ⟨rfl, hs⟩

instance : F.Both wildcard rules rules' := by unfold wildcard; infer_instance

instance : F.Both typeArgument rules rules' := by unfold typeArgument; infer_instance

instance : F.Both typeArguments rules rules' := by unfold typeArguments; infer_instance

instance : F.Both classTypeElement rules rules' := by unfold classTypeElement; infer_instance

instance : F.Both segmentTurn rules rules' := by unfold segmentTurn; infer_instance

instance : F.Both classType rules rules' := by unfold classType; infer_instance

instance : F.Self startsDim := by unfold startsDim; infer_instance

instance : F.Both dim rules rules' := by unfold dim; infer_instance

instance : F.Both dims rules rules' := by unfold dims; infer_instance

instance : F.Both dimsHere rules rules' := by unfold dimsHere; infer_instance

instance {otherwise otherwise' : Parser Cst} {more more' : Parser (List Cst)} [F.Parallel otherwise otherwise']
    [F.Parallel more more'] : F.Parallel (elementType rules otherwise more) (elementType rules' otherwise' more') := by
  refine .seq inferInstance fun _ => .seq inferInstance fun _ => .peeked fun x hk => ?_
  rw [hk]
  infer_instance

instance : F.Both type rules rules' := by unfold type; infer_instance

instance : F.Both typeParameter rules rules' := by unfold typeParameter; infer_instance

instance : F.Both typeParameters rules rules' := by unfold typeParameters; infer_instance

instance : F.Both typeList rules rules' := by unfold typeList; infer_instance

instance : F.Both variableInitializer rules rules' := by unfold variableInitializer; infer_instance

instance : F.Both arrayInitializer rules rules' := by unfold arrayInitializer; infer_instance

instance : F.Both variableDeclarator rules rules' := by unfold variableDeclarator; infer_instance

instance : F.Both variableDeclarators rules rules' := by unfold variableDeclarators; infer_instance

instance : F.Both localVarDecl rules rules' := by unfold localVarDecl; infer_instance

instance : F.Both varargs rules rules' := by unfold varargs; infer_instance

set_option synthInstance.maxSize 2000 in
instance : F.Both formalParameter rules rules' := by unfold formalParameter; infer_instance

instance : F.Both formalParameters rules rules' := by unfold formalParameters; infer_instance

instance : F.Both blockStatement rules rules' := by unfold blockStatement; infer_instance

instance : F.Both block rules rules' := by unfold block; infer_instance

instance : F.Both expressionList rules rules' := by unfold expressionList; infer_instance

instance : F.Both parenthesized rules rules' := by unfold parenthesized; infer_instance

instance : F.Both arguments rules rules' := by unfold arguments; infer_instance

instance : F.Both lambdaParameters rules rules' := by unfold lambdaParameters; infer_instance

set_option synthInstance.maxSize 2000 in
instance : F.Both lambda rules rules' := by unfold lambda; infer_instance

instance : F.Both expression rules rules' := by unfold expression; infer_instance

instance (level : List Token.Kind) {operand operand' : Parser Cst} [F.Parallel operand operand'] {t t' : Cst}
    [Related F t t'] : F.Parallel (operatorTurn rules level operand t) (operatorTurn rules' level operand' t') := by
  unfold operatorTurn; infer_instance

instance (levels : List (List Token.Kind)) : F.Parallel (binary rules levels) (binary rules' levels) := by
  induction levels with
  | nil => unfold binary; infer_instance
  | cons level tighter ih => unfold binary; infer_instance

set_option synthInstance.maxSize 2000 in
instance : F.Both conditional rules rules' := by unfold conditional; infer_instance

set_option synthInstance.maxSize 2000 in
instance : F.Both primitiveTypeExpression rules rules' := by
  unfold primitiveTypeExpression; dsimp only; infer_instance

instance : F.Both createdType rules rules' := by unfold createdType; infer_instance

instance : F.Both creationTail rules rules' := by unfold creationTail; infer_instance

instance : F.Both dimExpr rules rules' := by unfold dimExpr; infer_instance

set_option synthInstance.maxSize 2000 in
instance : F.Both arrayCreationTail rules rules' := by unfold arrayCreationTail; dsimp only; infer_instance

set_option synthInstance.maxSize 2000 in
instance : F.Both creation rules rules' := by unfold creation; infer_instance

instance : F.Both primary rules rules' := by
  refine .peeked fun x hk => ?_
  rw [hk]
  split <;> infer_instance

set_option synthInstance.maxSize 2000 in
instance {dimensions dimensions' : Option Cst} [h : Related F dimensions dimensions'] :
    F.Parallel (methodRefSuffix rules dimensions) (methodRefSuffix rules' dimensions') := by
  unfold methodRefSuffix
  refine Related.option_cases h.rel ?_ fun x => ?_ <;> dsimp only <;> infer_instance

instance : F.Both arrayTypeSuffix rules rules' := by unfold arrayTypeSuffix; infer_instance

set_option synthInstance.maxSize 2000 in
instance : F.Both dotSuffix rules rules' := by
  refine .seq inferInstance fun dot => .seq .get fun x => ?_
  rw [F.ahead 1 x.rel]
  dsimp only
  split <;> infer_instance

instance : F.Both suffix rules rules' := by
  refine .peeked fun x hk => ?_
  rw [hk]
  split <;> infer_instance

instance (r : Receiver) {t t' : Cst} [ht : Related F t t'] : F.Parallel (r.after t) (r.after t') := by
  have hdemand (holds : Bool) {c : SyntaxError.Cause} (hc : c.found = none) (r : Receiver) : F.Parallel
      (do (if holds then pure () else do let _ ← report c t.span.first); return r)
      (do (if holds then pure () else do let _ ← report c t'.span.first); return r) := by
    have : Related F c c := ⟨.plain hc⟩
    infer_instance
  unfold Receiver.after
  rw [tree.kind_eq ht.rel, tree.has_eq ht.rel, tree.has_eq ht.rel]
  dsimp only
  split
  · exact hdemand _ rfl _
  · have hlast : Relates.rel F t.children.getLast? t'.children.getLast? := Forall₂.getLast? (Tree.rel_iff.1 ht.rel).2
    refine Related.option_cases hlast .pure fun x => ?_
    dsimp only
    rw [tree.kind_eq x.rel, tree.literal_eq x.rel]
    split
    · exact hdemand _ rfl _
    · exact .pure
  · exact hdemand _ rfl _
  · exact hdemand _ rfl _
  · exact .pure

instance (r : Receiver) : F.Parallel (suffixTurn rules r) (suffixTurn rules' r) := by
  refine .seq inferInstance fun x => ?_
  refine Related.option_cases x.rel ?_ fun x => ?_ <;> dsimp only <;> infer_instance

instance : F.Both suffixed rules rules' := by unfold suffixed; dsimp only; infer_instance

instance : F.Both cast rules rules' := by unfold cast; infer_instance

instance : F.Both unary rules rules' := by
  refine .peeked fun x hk => ?_
  rw [hk]
  split <;> infer_instance

instance : F.Both forEachParts rules rules' := by unfold forEachParts; infer_instance

set_option synthInstance.maxSize 2000 in
instance : F.Both forParts rules rules' := by unfold forParts; infer_instance

set_option synthInstance.maxSize 2000 in
instance : F.Both resource rules rules' := by unfold resource; infer_instance

set_option synthInstance.maxSize 2000 in
instance : F.Both catchClause rules rules' := by unfold catchClause; infer_instance

set_option synthInstance.maxSize 2000 in
instance : F.Both tryStatement rules rules' := by unfold tryStatement; dsimp only; infer_instance

set_option synthInstance.maxSize 2000 in
instance : F.Both switchLabel rules rules' := by unfold switchLabel; dsimp only; infer_instance

instance : F.Both switchGroup rules rules' := by unfold switchGroup; infer_instance

instance : F.Both groupTurn rules rules' := by unfold groupTurn; infer_instance

instance (kind : Cst.Kind) {operand operand' : Parser Cst} [F.Parallel operand operand'] :
    F.Parallel (jumpStatement kind operand) (jumpStatement kind operand') := by
  unfold jumpStatement; infer_instance

instance : F.Both statement rules rules' := by
  unfold statement ifStatement whileStatement doStatement forStatement switchStatement synchronizedStatement
    throwStatement assertStatement labeledStatement expressionStatement
  refine .peeked fun x hk => ?_
  rw [hk]
  split <;> infer_instance

/-! ## Declarations -/

section Modified

variable {m m' : Cst} [Related F m m']

instance (kind : Cst.Kind) {parts parts' : Parser (List Cst)} [F.Parallel parts parts'] :
    F.Parallel (declaration kind m parts) (declaration kind m' parts') := by
  unfold declaration; infer_instance

set_option synthInstance.maxSize 2000 in
instance : F.Parallel (typeDecl? rules m) (typeDecl? rules' m') := by
  unfold typeDecl? classDecl interfaceDecl annotationTypeDecl
  infer_instance

instance : F.Both throwsClause rules rules' := by unfold throwsClause; infer_instance

instance : F.Both returnType rules rules' := by unfold returnType; infer_instance

set_option synthInstance.maxSize 2000 in
instance (kind : Cst.Kind) {ps ps' : List Cst} {t t' : Cst} [Related F ps ps'] [Related F t t'] :
    F.Parallel (methodDecl rules kind m ps t) (methodDecl rules' kind m' ps' t') := by
  unfold methodDecl; infer_instance

instance (kind : Cst.Kind) {t t' : Cst} [Related F t t'] :
    F.Parallel (fieldDecl rules kind m t) (fieldDecl rules' kind m' t') := by
  unfold fieldDecl; infer_instance

instance : F.Self constructorScope := by unfold constructorScope; infer_instance

set_option synthInstance.maxSize 2000 in
instance : F.Both constructorCall rules rules' := by unfold constructorCall; dsimp only; infer_instance

instance : F.Both constructorBody rules rules' := by unfold constructorBody; infer_instance

instance {ps ps' : List Cst} [Related F ps ps'] :
    F.Parallel (constructorDecl rules m ps) (constructorDecl rules' m' ps') := by
  unfold constructorDecl; infer_instance

set_option synthInstance.maxSize 2000 in
instance (method field : Cst.Kind) (construct : Construct) {ps ps' : List Cst} [Related F ps ps'] :
    F.Parallel (methodOrField rules method field construct m ps)
    (methodOrField rules' method field construct m' ps') := by
  unfold methodOrField; infer_instance

end Modified

instance {rest rest' : Cst → Parser Cst} [∀ x : Pair F Cst, F.Parallel (rest x.left) (rest' x.right)] :
    F.Parallel (typeOr rules rest) (typeOr rules' rest') := by
  refine .seq inferInstance fun _ => .seq inferInstance fun x => ?_
  refine Related.option_cases x.rel ?_ fun x => ?_ <;> dsimp only <;> infer_instance

instance : F.Both classMember rules rules' := by unfold classMember; infer_instance

instance : F.Both interfaceMember rules rules' := by unfold interfaceMember; infer_instance

set_option synthInstance.maxSize 2000 in
instance : F.Both annotationTypeMember rules rules' := by unfold annotationTypeMember; infer_instance

instance (kind : Cst.Kind) {member member' : Parser Cst} [F.Parallel member member'] :
    F.Parallel (body kind member) (body kind member') := by
  unfold body; infer_instance

/-! ## Compilation units -/

instance : F.Both packageDecl rules rules' := by unfold packageDecl; infer_instance

set_option synthInstance.maxSize 2000 in
instance : F.Self importDecl := by unfold importDecl; dsimp only; infer_instance

instance : F.Both topLevelType rules rules' := by unfold topLevelType; infer_instance

instance (seen : Nat) : F.Parallel (countedType rules seen) (countedType rules' seen) := by
  unfold countedType; dsimp only; infer_instance

instance (seen : Nat) : F.Parallel (typeTurn rules seen) (typeTurn rules' seen) := by
  unfold typeTurn
  dsimp only
  infer_instance

instance : F.Both topLevelTypes rules rules' := by unfold topLevelTypes; infer_instance

instance : F.Both compilationUnit rules rules' := by
  unfold compilationUnit; dsimp only; infer_instance

instance : F.Both standaloneExpression rules rules' := by
  unfold standaloneExpression; dsimp only; infer_instance

instance (p : Production) : F.Parallel (production rules p) (production rules' p) := by
  unfold production
  cases p <;> infer_instance

end

instance [F.Splits] (depth : Nat) (p : Production) : F.Self (rulesUpTo depth p) := by
  induction depth generalizing p with
  | zero => unfold rulesUpTo; infer_instance
  | succ depth ih => unfold rulesUpTo; infer_instance

end Frame

end KiteCompiler.Grammar
