import KiteCompiler.Proofs.Contract.Gives

/-!
# What the productions give

Each production of the grammar gives a tree that fits its place, if the rules for the productions inside it do.
-/

namespace KiteCompiler.Grammar

open Ast.Reading

/-- Where the trees of a production stand. -/
def Production.slot : Production → Slot
  | .expression | .conditional | .unary => .expr
  | .elementValue => .elementValue
  | .type => .type
  | .statement => .stmt
  | .classBody => .classBody
  | .interfaceBody => .interfaceBody
  | .annotationTypeBody => .annotationTypeBody
  | .arrayInitializer => .arrayElements

/-- The rules give trees that fit. -/
class Reliable (rules : Rules) : Prop where
  gives (p : Production) : Gives (rules p) (Fits p.slot)

namespace Gives

section

variable (rules : Rules) [h : Reliable rules]

instance : Gives (rules .expression) (Fits .expr) := h.gives _

instance : Gives (rules .conditional) (Fits .expr) := h.gives _

instance : Gives (rules .unary) (Fits .expr) := h.gives _

instance : Gives (rules .elementValue) (Fits .elementValue) := h.gives _

instance : Gives (rules .type) (Fits .type) := h.gives _

instance : Gives (rules .statement) (Fits .stmt) := h.gives _

instance : Gives (rules .classBody) (Fits .classBody) := h.gives _

instance : Gives (rules .interfaceBody) (Fits .interfaceBody) := h.gives _

instance : Gives (rules .annotationTypeBody) (Fits .annotationTypeBody) := h.gives _

instance : Gives (rules .arrayInitializer) (Fits .arrayElements) := h.gives _

end

/-- The word before the bound of a wildcard. -/
theorem fits_boundWord {t : Token} (h : Token.Genuine t.lexeme) (hk : t.kind ∈ [Token.Kind.kwExtends, .kwSuper]) :
    Fits .boundWord (.node { kind := .operator, span := t.span, token := some t } []) := by
  have hwords : ∀ k ∈ [Token.Kind.kwExtends, .kwSuper], k ∈ Token.Kind.words := by decide
  have htext : t.text = t.kind.label := h.word (hwords _ hk)
  refine ⟨List.mem_singleton_self _, fun _ => ?_⟩
  rw [decorate_node]
  change t.text = _ ∨ t.text = _
  rw [htext]
  rcases List.mem_pair.1 hk with hk | hk <;> rw [hk] <;> decide

section

variable (rules : Rules) [∀ p, Forward (rules p)] [Reliable rules]

/-! ## Annotations and types -/

instance : Gives qualifiedName (Fits .qualifiedName) := by unfold qualifiedName; infer_instance

instance : Gives (elementValuePair rules) (Fits .elementValuePair) := by unfold elementValuePair; infer_instance

set_option synthInstance.maxSize 2000 in
instance annotationUse : Gives (annotationUse rules) (Fits .annotationUse) := by
  unfold Grammar.annotationUse
  dsimp only
  have hparts (name : { t // Fits .qualifiedName t }) : Gives (do
      if !(← check .lparen) then return [name.1]
      skip
      if ← checkName <&&> checkAhead 1 .assign then
        let values ← Grammar.separated .comma (elementValuePair rules)
        Grammar.expect .rparen
        return name.1 :: values
      else
        let values ← Grammar.optionalIf (not <$> check .rparen) (rules .elementValue)
        Grammar.expect .rparen
        return name.1 :: values) fun ts => Row [.one .qualifiedName] ts ∨
          Row [.one .qualifiedName, .some .elementValuePair] ts ∨ Row [.one .qualifiedName, .opt .elementValue] ts := by
    refine skipping fun _ => choice (mono inferInstance fun _ => .inl)
      (skipping fun _ => skipping fun _ => choice ?_ ?_)
    · exact mono (Q := Row [.one .qualifiedName, .some .elementValuePair]) inferInstance fun _ h => .inr (.inl h)
    · exact mono (Q := Row [.one .qualifiedName, .opt .elementValue]) inferInstance fun _ h => .inr (.inr h)
  refine nodeOf (skipping fun _ => seq inferInstance (fun name hname => hparts ⟨name, hname⟩) inferInstance) ?_
  rintro l ts hk (h | h | h)
  · exact Builds.marker.fits l ts hk h
  · exact Builds.normalAnnotation.fits l ts hk h
  · exact Builds.annotationUse.fits l ts hk h

instance : Gives (annotations rules) (Row [.many .annotationUse]) := by unfold annotations; infer_instance

set_option synthInstance.maxSize 2000 in
instance elementValue : Gives (elementValue rules) (Fits .elementValue) := by
  have hannotation : Gives (Grammar.annotationUse rules) (Fits .elementValue) :=
    mono inferInstance fun _ => Fits.elementValue_of_annotationUse
  have hexpr : Gives (rules .conditional) (Fits .elementValue) :=
    mono (inferInstanceAs (Gives (rules .conditional) (Fits .expr))) fun _ => Fits.elementValue_of_expr
  unfold Grammar.elementValue
  infer_instance

instance modifiers : Gives (modifiers rules) (Fits .modifiers) := by
  have hannotation : Gives (Grammar.annotationUse rules) (Fits .modifier) :=
    mono inferInstance fun _ => Fits.modifier_of_annotationUse
  have hword : Gives (Grammar.leaf .modifier) (Fits .modifier) :=
    mono (leaf .modifier) fun _ => Fits.modifier_of_token
  have hparts : Gives (Grammar.repeatTurns (modifierTurn rules)) (Row [.many .modifier]) := by
    refine repeatTurns (skipping fun _ => choice ?_ (skipping fun _ => choice ?_ (of_has (adds_nil _))))
    · exact seq hannotation (fun t ht => of_has (adds_one ht _)) inferInstance
    · exact seq hword (fun t ht => of_has (adds_one ht _)) inferInstance
  refine skipping fun start => seq hparts (fun ts hts =>
    choice (of_has (Builds.modifiers.fits _ _ rfl row_many_nil)) ?_) inferInstance
  exact @finish _ _ _ _ _ ⟨hts⟩ _

instance wildcard : Gives (wildcard rules) (Fits .typeArgument) := by
  have hbounded (as : { ts // Row [.many .annotationUse] ts }) :
      GivesWhen (fun s => s.current.kind ∈ [Token.Kind.kwExtends, .kwSuper]) (do
        let operator ← Grammar.leaf .operator
        return as.1 ++ [operator, ← rules .type])
      fun ts => Row [.many .annotationUse, .one .boundWord, .one .type] ts ∨ Row [.many .annotationUse] ts := by
    refine .leaf inferInstance fun s hs hk => ?_
    have hword : Has (Tree.node { kind := .operator, span := s.current.span, token := some s.current } [] : Cst)
        (Fits .boundWord) :=
      ⟨fits_boundWord (hs.genuine_current (by rintro h; rw [h] at hk; exact absurd hk (by decide))) hk⟩
    exact mono (Q := Row [.many .annotationUse, .one .boundWord, .one .type]) inferInstance fun _ => .inl
  unfold Grammar.wildcard
  refine nodeOf (seq inferInstance (fun as has => skipping fun _ => test (fun s => List.contains_iff_mem.1)
    (hbounded ⟨as, has⟩) (of_has (.inr has))) inferInstance) ?_
  rintro l ts hk (h | h)
  · exact Builds.boundedWildcard.fits l ts hk h
  · exact Builds.wildcard.fits l ts hk h

instance typeArgument : Gives (typeArgument rules) (Fits .typeArgument) := by
  have htype : Gives (rules .type) (Fits .typeArgument) :=
    mono (inferInstanceAs (Gives (rules .type) (Fits .type))) fun _ => Fits.typeArgument_of_type
  unfold Grammar.typeArgument; infer_instance

set_option synthInstance.maxSize 2000 in
instance : Gives (typeArguments rules) (Fits .typeArguments) := by unfold typeArguments; dsimp only; infer_instance

instance : Gives (classTypeElement rules) (Fits .classTypeElement) := by unfold classTypeElement; infer_instance

instance classType : Gives (classType rules) (Fits .classType) := by
  have hparts : Gives (Grammar.repeatTurns (segmentTurn rules)) (Row [.some .classTypeElement]) := by
    refine repeatTurns_some (seq inferInstance (fun t ht => ?_) inferInstance)
    refine skipping fun _ => choice (skipping fun _ => ?_) ?_ <;> exact of_has ⟨List.cons_ne_nil _ _, adds_one ht _⟩
  unfold Grammar.classType; infer_instance

instance : Gives (dim rules) (Fits .dim) := by unfold dim; infer_instance

instance dims : Gives (dims rules) (OptFits .dims) := by
  refine skipping fun start => seq inferInstance (fun ts hts => ?_) inferInstance
  obtain ⟨os, us, rfl, hos, rfl⟩ := hts
  rw [List.append_nil]
  split
  · exact of_has (optFits_none _)
  · rename_i hne
    have hrow : Has os (Row [.some .dim]) := ⟨os, [], (List.append_nil _).symm, by simpa using hne, hos, rfl⟩
    refine seq inferInstance (fun t ht => of_has fun u hu => ?_) inferInstance
    exact Option.some.inj hu ▸ ht

instance dimsHere : Gives (dimsHere rules) (Row [.opt .dims]) := by
  refine skipping fun _ => choice (seq inferInstance (fun o ho => ?_) inferInstance) ?_
  · exact of_has (@Has.toList _ _ ⟨ho⟩).has
  · exact of_has row_opt_nil

set_option synthInstance.maxSize 2000 in
instance type : Gives (type rules) (Fits .type) := by
  unfold Grammar.type Grammar.elementType; dsimp only; infer_instance

set_option synthInstance.maxSize 2000 in
instance : Gives (typeParameter rules) (Fits .typeParameter) := by unfold typeParameter; infer_instance

set_option synthInstance.maxSize 2000 in
instance : Gives (typeParameters rules) (Fits .typeParameters) := by unfold typeParameters; infer_instance

instance : Gives (typeList rules) (Row [.some .classType]) := by unfold typeList; infer_instance

/-! ## Variables, parameters and blocks -/

instance variableInitializer : Gives (variableInitializer rules) (Fits .initialValue) := by
  have helements : Gives (rules .arrayInitializer) (Fits .initialValue) :=
    mono (inferInstanceAs (Gives (rules .arrayInitializer) (Fits .arrayElements))) fun _ =>
    Fits.initialValue_of_arrayElements
  have hexpr : Gives (rules .expression) (Fits .initialValue) :=
    mono (inferInstanceAs (Gives (rules .expression) (Fits .expr))) fun _ => Fits.initialValue_of_expr
  exact skipping fun _ => choice helements hexpr

set_option synthInstance.maxSize 2000 in
instance arrayInitializer : Gives (arrayInitializer rules) (Fits .arrayElements) := by
  unfold Grammar.arrayInitializer; infer_instance

set_option synthInstance.maxSize 2000 in
instance : Gives (variableDeclarator rules) (Fits .declarator) := by unfold variableDeclarator; infer_instance

instance : Gives (variableDeclarators rules) (Row [.some .declarator]) := by unfold variableDeclarators; infer_instance

instance : Gives (localVarDecl rules) (Fits .localVariables) := by unfold localVarDecl; infer_instance

instance : Gives (varargs rules) (Fits .varargs) := by unfold varargs; infer_instance

set_option synthInstance.maxSize 2000 in
instance : Gives (formalParameter rules) (Fits .formalParameter) := by
  unfold formalParameter
  dsimp only
  infer_instance

set_option synthInstance.maxSize 2000 in
instance : Gives (formalParameters rules) (Fits .formalParameters) := by
  unfold formalParameters
  dsimp only
  infer_instance

/-- The kind and the parts of a node. -/
theorem nodeRow {k : Cst.Kind} {is : List Item} {p : Parser (List Cst)} (hp : Gives p (Row is)) :
    Gives (Grammar.node k p) fun t => t.kind = k ∧ Row is t.children := by
  have hforward := hp.forward
  exact skipping fun start => seq hp (fun ts hts => ⟨fun _ _ _ => ⟨rfl, hts⟩, inferInstance⟩) inferInstance

instance blockStatement : Gives (blockStatement rules) (Fits .stmt) := by
  have hdeclaration : Gives (localVarDecl rules) fun t => t.kind = .localVarDecl ∧
      Row [.one .modifiers, .one .type, .some .declarator] t.children := by
    unfold localVarDecl
    exact nodeRow inferInstance
  refine skipping fun _ => choice (seq hdeclaration (fun t ht => skipping fun _ => ?_) inferInstance) inferInstance
  refine ⟨fun _ _ _ => ?_, inferInstance⟩
  exact Fits.stmt_of_localVariables (Builds.localVariables.fits _ _ ht.1 ht.2)

set_option synthInstance.maxSize 2000 in
instance block : Gives (block rules) (Fits .block) := by unfold Grammar.block; infer_instance

/-! ## Expressions -/

instance expressionList : Gives (expressionList rules) (Row [.some .expr]) := by
  unfold Grammar.expressionList
  infer_instance

instance : Gives (parenthesized rules) (Fits .expr) := by unfold parenthesized; infer_instance

set_option synthInstance.maxSize 2000 in
instance : Gives (arguments rules) (Fits .arguments) := by unfold arguments; dsimp only; infer_instance

set_option synthInstance.maxSize 2000 in
instance lambdaParameters : Gives (lambdaParameters rules) (Fits .lambdaHead) := by
  have htyped : Gives (formalParameter rules) (Fits .lambdaParameter) :=
    mono inferInstance fun _ => Fits.lambdaParameter_of_formalParameter
  have hname : Gives Grammar.identifier (Fits .lambdaParameter) :=
    mono inferInstance fun _ => Fits.lambdaParameter_of_identifier
  unfold Grammar.lambdaParameters; dsimp only; infer_instance

set_option synthInstance.maxSize 2000 in
instance lambda : Gives (lambda rules) (Fits .expr) := by
  have hname : Gives Grammar.identifier (Fits .lambdaHead) := mono inferInstance fun _ => Fits.lambdaHead_of_identifier
  have hblock : Gives (Grammar.block rules) (Fits .lambdaBody) := mono inferInstance fun _ => Fits.lambdaBody_of_block
  have hexpr : Gives (rules .expression) (Fits .lambdaBody) :=
    mono (inferInstanceAs (Gives (rules .expression) (Fits .expr))) fun _ => Fits.lambdaBody_of_expr
  unfold Grammar.lambda; dsimp only; infer_instance

set_option synthInstance.maxSize 2000 in
instance expression : Gives (expression rules) (Fits .expr) := by unfold Grammar.expression; infer_instance

instance binary (levels : List (List Token.Kind)) : Gives (binary rules levels) (Fits .expr) := by
  induction levels with
  | nil => unfold Grammar.binary; infer_instance
  | cons level tighter ih =>
    unfold Grammar.binary
    refine seq ih (fun left hleft => grow (fun t ht => ?_) inferInstance hleft) inferInstance
    have hleft : Has t (Fits .expr) := ⟨ht⟩
    refine skipping fun _ => choice (of_has (optFits_none _)) (skipping fun _ => choice ?_ ?_)
    · exact present inferInstance
    · exact present inferInstance

set_option synthInstance.maxSize 10000 in
instance conditional : Gives (conditional rules) (Fits .expr) := by
  unfold Grammar.conditional; dsimp only; infer_instance

set_option synthInstance.maxSize 2000 in
instance primitiveTypeExpression : Gives (primitiveTypeExpression rules) (Fits .expr) := by
  rw [primitiveTypeExpression_eq]
  refine skipping fun _ => choice inferInstance ?_
  refine seq (Q := fun _ => True) ⟨fun _ _ _ => trivial, inferInstance⟩ (fun ⟨d, r⟩ _ => ?_) inferInstance
  dsimp only
  infer_instance

set_option synthInstance.maxSize 2000 in
instance : Gives (createdType rules) (Fits .createdType) := by
  unfold createdType elementType
  dsimp only
  infer_instance

instance : Gives (creationTail rules) (Row [.one .arguments, .opt .classBody]) := by unfold creationTail; infer_instance

set_option synthInstance.maxSize 2000 in
instance : Gives (dimExpr rules) (Fits .dimExpr) := by unfold dimExpr; infer_instance

omit [∀ p, Forward (rules p)] [Reliable rules] in
/-- Where a bracket follows that is not the start of a length, it is the start of a dimension without one. -/
theorem startsDim_of_checkAnnotated {s : State} (h : (checkAnnotated .lbracket s).1 = true)
    (hlength : (startsDimExpr s).1 = false) : (startsDim s).1 = true := by
  unfold checkAnnotated at h
  unfold startsDim
  rw [or_run, check_run] at h
  rw [or_run, and_run, check_run]
  cases hk : s.current.kind == .lbracket with
  | true =>
    have hne : s.current.kind ≠ .atSign := by rw [beq_iff_eq.1 hk]; decide
    have hclosed : (startsDimExpr s).1 = !((s.ahead 1).kind == .rbracket) := by
      change ((do skipAnnotations; check .lbracket <&&> (not <$> checkAhead 1 .rbracket) : Parser Bool) s).1 = _
      rw [bind_run (skipAnnotations_of_ne hne), and_run, check_run, hk]
      rfl
    have hahead : ((s.ahead 1).kind == .rbracket) = true := by simpa [hlength] using hclosed
    simp only [if_true, checkAhead_run, hahead]
  | false =>
    simp only [hk, Bool.false_eq_true, if_false] at h ⊢
    exact h

/-- What follows the lengths of a created array. -/
def arrayCreationEnd (lengths : List Cst) : Parser (List Cst) := do
  let dimensions := (← Grammar.dims rules).toList
  if ← check .lbrace then
    let elements ← rules .arrayInitializer
    if !lengths.isEmpty then let _ ← report .dimensionsAndInitializer elements.span.first
    return lengths ++ dimensions ++ [elements]
  if lengths.isEmpty then let _ ← report .noDimensions (← here)
  return lengths ++ dimensions

omit [∀ p, Forward (rules p)] [Reliable rules] in
theorem arrayCreationTail_eq :
    Grammar.arrayCreationTail rules = Grammar.manyWhile startsDimExpr (dimExpr rules) >>= arrayCreationEnd rules := rfl

instance (lengths : List Cst) : Forward (arrayCreationEnd rules lengths) := by
  unfold arrayCreationEnd; infer_instance

/-- Where a dimension starts, there are some. -/
theorem dims_some : GivesWhen (fun s => (startsDim s).1 = true) (Grammar.dims rules) fun o =>
    ∃ t, o = some t ∧ Fits .dims t := by
  refine ⟨fun s hs hstart h => ?_, inferInstance⟩
  have hfits : OptFits .dims (Grammar.dims rules s).1 := (dims rules).gives s hs h
  have hne := manyWhile_ne_nil (dim rules) hstart
  obtain ⟨ts, s', hparts⟩ : ∃ ts s', Grammar.manyWhile startsDim (dim rules) s = (ts, s') := ⟨_, _, rfl⟩
  rw [hparts] at hne
  have hsome : ∃ t, (Grammar.dims rules s).1 = some t := by
    unfold Grammar.dims
    rw [bind_run (show here s = (s.current.span.first, s) from rfl), bind_run hparts, if_neg (by simpa using hne)]
    exact ⟨_, rfl⟩
  obtain ⟨t, ht⟩ := hsome
  exact ⟨t, ht, hfits t ht⟩

theorem arrayCreationEnd_lengths {ls : List Cst} (hls : Row [.some .dimExpr] ls) :
    Gives (arrayCreationEnd rules ls) (Row [.some .dimExpr, .opt .dims]) := by
  have hne : ls.isEmpty = false := by
    obtain ⟨os, us, rfl, hne, -, -⟩ := hls
    simp [hne]
  have hrow : Has ls (Row [.some .dimExpr]) := ⟨hls⟩
  unfold arrayCreationEnd
  refine seq inferInstance (fun o ho => ?_) inferInstance
  have hdims : Has o (OptFits .dims) := ⟨ho⟩
  refine skipping fun _ => choice ?_ ?_
  · refine seq inferInstance (fun e _ => ?_) inferInstance
    simp only [hne, Bool.not_false, if_true]
    exact (report_never inferInstance).never
  · simp only [hne, Bool.false_eq_true, if_false]
    infer_instance

theorem arrayCreationEnd_nil :
    GivesWhen (fun s => (startsDim s).1 = true) (arrayCreationEnd rules [])
    (Row [.one .dims, .one .arrayElements]) := by
  refine ⟨fun s hs hstart h => ?_, inferInstance⟩
  have hready := ((dims rules).forward.onward s).ready hs
  have hsome := (dims_some rules).gives s hs hstart
  obtain ⟨o, s', hdims⟩ : ∃ o s', Grammar.dims rules s = (o, s') := ⟨_, _, rfl⟩
  unfold arrayCreationEnd at h ⊢
  rw [hdims] at hready hsome
  rw [bind_run hdims] at h ⊢
  obtain ⟨t, rfl, ht⟩ := hsome (Forward.errors inferInstance h)
  refine @Gives.gives _ _ _ (skipping fun _ => choice ?_ ?_) s' hready h
  · refine seq (Q := Fits .arrayElements) inferInstance (fun e he => of_has ?_) inferInstance
    exact ⟨t, [e], rfl, ht, e, [], rfl, he, rfl⟩
  · exact skipping fun _ => (report_never inferInstance).never

/-- An array has lengths, or dimensions and elements. -/
theorem arrayCreationTail : GivesWhen (fun s => (checkAnnotated .lbracket s).1 = true)
    (Grammar.arrayCreationTail rules) fun ts =>
    Row [.some .dimExpr, .opt .dims] ts ∨ Row [.one .dims, .one .arrayElements] ts := by
  refine ⟨fun s hs hbracket h => ?_, inferInstance⟩
  obtain ⟨ls, s', hlengths⟩ : ∃ ls s', Grammar.manyWhile startsDimExpr (dimExpr rules) s = (ls, s') := ⟨_, _, rfl⟩
  have hgives : Gives (Grammar.manyWhile startsDimExpr (dimExpr rules)) (Row [.many .dimExpr]) := inferInstance
  rw [arrayCreationTail_eq, bind_run hlengths] at h ⊢
  have hbefore : s'.errors = [] := (inferInstance : Forward (arrayCreationEnd rules ls)).errors h
  cases hstart : (startsDimExpr s).1 with
  | true =>
    have hready := (hgives.forward.onward s).ready hs
    have hmany := hgives.gives s hs (by rw [hlengths]; exact hbefore)
    have hne := manyWhile_ne_nil (dimExpr rules) hstart
    rw [hlengths] at hready hmany hne
    obtain ⟨os, us, hts, hos, rfl⟩ := hmany
    have hrow : Row [.some .dimExpr] ls := ⟨os, [], hts, fun hnil => hne (by rw [hts, hnil]; rfl), hos, rfl⟩
    exact .inl ((arrayCreationEnd_lengths rules hrow).gives _ hready h)
  | false =>
    have hnone := manyWhile_of_false (dimExpr rules) hstart
    rw [hlengths, Prod.mk.injEq] at hnone
    obtain ⟨rfl, rfl⟩ := hnone
    rw [Looks.stays hbefore] at h ⊢
    exact .inr ((arrayCreationEnd_nil rules).gives s hs (startsDim_of_checkAnnotated hbracket hstart) h)

instance creation : Gives (creation rules) (Fits .expr) := by
  unfold Grammar.creation
  refine skipping fun start => skipping fun _ => seq (Q := Row [.opt .typeArguments]) inferInstance
    (fun as has => ?_) inferInstance
  refine seq (Q := Fits .createdType) inferInstance (fun t ht => ?_) inferInstance
  refine test (fun _ h => h) ((arrayCreationTail rules).seq (fun ts hts => ⟨fun _ _ _ => ?_, inferInstance⟩)
    inferInstance) ?_
  · rcases hts with hts | hts
    · exact Builds.sizedArray.fits _ _ rfl ⟨t, ts, rfl, ht, hts⟩
    · exact Builds.filledArray.fits _ _ rfl ⟨t, ts, rfl, ht, hts⟩
  · have harguments : Has as (Row [.opt .typeArguments]) := ⟨has⟩
    have htype : Has t (Fits .createdType) := ⟨ht⟩
    infer_instance

omit [∀ p, Forward (rules p)] [Reliable rules] in
theorem fits_literal {t : Token} (h : Token.Genuine t.lexeme) (hk : t.kind ∈ literalKinds) :
    Fits .expr (.node { kind := .literal, span := t.span, token := some t } []) := by
  refine ⟨(by decide : Cst.Kind.literal ∈ expressionKinds), fun _ => ?_⟩
  rw [decorate_node]
  exact (succeeds_literal (t := ⟨{ kind := .literal, span := t.span, token := some t }, []⟩) hk h.two_le_length).map

omit [∀ p, Forward (rules p)] [Reliable rules] in
theorem literal {t : Token} (hk : t.kind ∈ literalKinds) :
    GivesWhen (fun s => s.current = t) (Grammar.leaf .literal) (Fits .expr) := by
  refine ⟨fun s hs hC _ => ?_, inferInstance⟩
  subst hC
  refine fits_literal (hs.genuine_current ?_) hk
  intro h
  rw [h] at hk
  exact absurd hk (by decide)

instance primary : Gives (primary rules) (Fits .expr) := by
  have hthis : Gives (Grammar.leaf .thisRef) (Fits .expr) := mono (leaf .thisRef) fun _ => Fits.expr_of_thisRef
  have hsuper : Gives (Grammar.leaf .superRef) (Fits .expr) := mono (leaf .superRef) fun _ => Fits.expr_of_superRef
  have hname : Gives (Grammar.leaf .simpleName) (Fits .expr) := mono (leaf .simpleName) fun _ => Fits.expr_of_simpleName
  unfold Grammar.primary
  refine peeked fun t => ?_
  split
  case h_1 hk | h_2 hk | h_3 hk | h_4 hk | h_5 hk | h_6 hk | h_7 hk => exact literal (by rw [hk]; decide)
  · exact hthis.when
  · refine Gives.when (skipping fun _ => choice hsuper ?_)
    exact (errorNode _ _).never
  · exact (creation rules).when
  · exact Gives.when inferInstance
  · refine Gives.when (choice inferInstance (choice (skipping fun _ => choice inferInstance hname) ?_))
    exact (errorNode _ _).never

/-! ## Suffixes and operators -/

set_option synthInstance.maxSize 10000 in
theorem methodRefSuffix {o : Option Cst} (ho : OptFits .dims o) :
    Gives (Grammar.methodRefSuffix rules o) (Fits .suffix) := by
  have hdims : Has o (OptFits .dims) := ⟨ho⟩
  have hname : Gives Grammar.identifier (Fits .methodName) := mono inferInstance fun _ => Fits.methodName_of_identifier
  have hword : Gives (Grammar.leaf .operator) (Fits .methodName) :=
    mono (leaf .operator) fun _ => Fits.methodName_of_operator
  unfold Grammar.methodRefSuffix
  dsimp only
  split <;> infer_instance

instance arrayTypeSuffix : Gives (arrayTypeSuffix rules) (Fits .suffix) := by
  refine skipping fun start => seq (Q := OptFits .dims) inferInstance (fun o ho => skipping fun _ => ?_) inferInstance
  have hdims : Has o (OptFits .dims) := ⟨ho⟩
  exact choice (methodRefSuffix rules ho) inferInstance

set_option synthInstance.maxSize 2000 in
instance dotSuffix : Gives (dotSuffix rules) (Fits .suffix) := by
  unfold Grammar.dotSuffix
  refine skipping fun dot => skipping fun s => ?_
  split
  · infer_instance
  · infer_instance
  · infer_instance
  · infer_instance
  · dsimp only
    infer_instance
  · refine choice inferInstance (skipping fun _ => ?_)
    exact (errorNode _ _).never

instance suffix : Gives (suffix rules) (OptFits .suffix) := by
  unfold Grammar.suffix
  refine skipping fun t => ?_
  split
  · exact present inferInstance
  · exact skipping fun _ => choice (present inferInstance) (present inferInstance)
  · exact present inferInstance
  · exact present (methodRefSuffix rules (optFits_none _))
  · exact present inferInstance
  · exact present inferInstance
  · exact of_has (optFits_none _)

set_option synthInstance.maxSize 2000 in
instance : Gives (cast rules) (Fits .expr) := by unfold cast; dsimp only; infer_instance

/-- A suffix that may follow, or the end of the suffixes. -/
def Links (r : Receiver) (t : Turn Receiver) : Prop :=
  (∃ u s, t = .more [u] (r.after u s).1 ∧ Fits .suffix u ∧ (r.after u s).2.errors = []) ∨ t = .last []

theorem suffixTurn (r : Receiver) : Gives (suffixTurn rules r) (Links r) := by
  refine seq (suffix rules) (fun o ho => ?_) fun o => by split <;> infer_instance
  cases o with
  | none => exact of_has (.inr rfl)
  | some u => exact ⟨fun s _ h => .inl ⟨u, s, rfl, ho u rfl, h⟩, inferInstance⟩

omit [∀ p, Forward (rules p)] [Reliable rules] in
theorem chain_repeatUpTo {turn : Receiver → Parser (Turn Receiver)} (h : ∀ r, Gives (turn r) (Links r)) (n : Nat)
    (r : Receiver) : Gives (Grammar.repeatUpTo turn n r) (Chain r) := by
  have hforward := fun r => (h r).forward
  induction n generalizing r with
  | zero => exact of_has .nil
  | succ n ih =>
    refine seq (h r) (fun t ht => ?_) fun t => by split <;> infer_instance
    rcases ht with ⟨u, s, rfl, hu, herrors⟩ | rfl
    · exact seq (ih _) (fun ts hts => of_has (.cons hu herrors hts)) inferInstance
    · exact of_has .nil

instance suffixed : Gives (suffixed rules) (Fits .expr) := by
  have hturn := fun r => (suffixTurn rules r).forward
  unfold Grammar.suffixed repeatFrom
  dsimp only
  refine seq (primary rules) (fun first hfirst => choice (of_has hfirst) ?_) inferInstance
  refine seq (Q := Chain (receiverOf first)) ?_ (fun ts hts => choice (of_has hfirst) ?_) inferInstance
  · exact skipping fun s => chain_repeatUpTo (suffixTurn rules) _ _
  · exact ⟨fun _ _ _ => fits_suffixed rfl hfirst hts, inferInstance⟩

instance unary : Gives (unary rules) (Fits .expr) := by
  unfold Grammar.unary
  refine skipping fun t => ?_
  split <;> infer_instance

end

end Gives

end KiteCompiler.Grammar
