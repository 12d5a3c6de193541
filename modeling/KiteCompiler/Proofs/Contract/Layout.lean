import KiteCompiler.Proofs.Reading.Slots
import KiteCompiler.Proofs.Reading.Faults

/-!
# The layout of nodes

A syntax tree `Fits` a place of the grammar if its kind may stand there and, unless it has a fault, it can be read
there. The children of a node form a `Row` of parts, some of which may be missing or repeated. `Builds` says that such a
row makes a node that fits; there is an instance for every layout that a kind of node can have.
-/

namespace KiteCompiler

open Grammar (Receiver State)

namespace Ast.Reading

/-- The tree may stand at this place, and is read there unless it has a fault. -/
structure Fits (X : Slot) (t : Cst) : Prop where
  kind : t.kind ∈ X.kinds
  reads (h : t.Sound) : X.Reads (decorate t)

/-- The trees are parts as the items say. -/
def Row : List Item → List Cst → Prop := Laid Fits

variable {X Y : Slot} {t : Cst} {ts us : List Cst} {is : List Item} {k : Cst.Kind}

theorem Fits.part (h : Fits X t) (ht : t.Sound) : Part X (decorate t) := by
  refine ⟨?_, ?_, h.reads ht⟩ <;> rw [kind_decorate]
  · exact h.kind
  · exact fun hk => ht.root (.inl hk)

theorem row_many_nil : Row [.many X] [] := ⟨[], [], rfl, nofun, rfl⟩

theorem row_opt_nil : Row [.opt X] [] := ⟨[], [], rfl, Nat.zero_le 1, nofun, rfl⟩

theorem Row.many_of_some (h : Row [.some X] ts) : Row [.many X] ts := by
  obtain ⟨os, us, rfl, -, hos, hus⟩ := h
  exact ⟨os, us, rfl, hos, hus⟩

theorem Row.opt_of_one (h : Row (.one X :: is) ts) : Row (.opt X :: is) ts := by
  obtain ⟨t, us, rfl, ht, hus⟩ := h
  exact ⟨[t], us, rfl, Nat.le_refl 1, List.forall_mem_singleton.2 ht, hus⟩

theorem Row.opt_of_none (h : Row is ts) : Row (.opt X :: is) ts := ⟨[], ts, rfl, Nat.zero_le 1, nofun, h⟩

/-- Without faults all parts of a row are read. -/
theorem Row.filled (h : Row is ts) (hsound : ∀ t ∈ ts, t.Sound) : Filled is (ts.map decorate) :=
  h.map fun t ht _ hfits => hfits.part (hsound t ht)

/-! ## Nodes -/

/-- A node of a kind over decorated children, with its readings. -/
abbrev nodeOf (k : Cst.Kind) (l : Cst.Label) (ds : List Decorated) : Decorated :=
  .node ({ l with kind := k }, readings ⟨{ l with kind := k }, ds⟩) ds

theorem decorate_eq_nodeOf {l : Cst.Label} (hk : l.kind = k) :
    decorate (.node l ts) = nodeOf k l (ts.map decorate) := by
  subst hk
  rw [decorate_node]

/-- A row of this layout makes a node that fits. -/
class Builds (X : outParam Slot) (k : Cst.Kind) (is : List Item) : Prop where
  fits (l : Cst.Label) (ts : List Cst) (hk : l.kind = k) (hts : Row is ts) : Fits X (.node l ts)

/-- A row that is also of another layout. -/
theorem Builds.of_row {js : List Item} (h : Builds X k is) (hrow : ∀ {ts}, Row js ts → Row is ts) : Builds X k js :=
  ⟨fun l ts hk hts => h.fits l ts hk (hrow hts)⟩

/-- It suffices to look at the decorated node, which has no fault at its root. -/
theorem Builds.of_decorated
    (h : ∀ {l ds}, Over is (nodeOf k l ds).branch → ¬(nodeOf k l ds).source.Faulty → X.Reads (nodeOf k l ds))
    (hX : k ∈ X.kinds := by decide) : Builds X k is := by
  refine ⟨fun l ts hk hts => ⟨(show l.kind ∈ X.kinds from hk ▸ hX), fun hsound => ?_⟩⟩
  have hsource : (nodeOf k l (ts.map decorate)).source = .node l ts := by rw [← decorate_eq_nodeOf hk, source_decorate]
  rw [decorate_eq_nodeOf hk]
  refine h ⟨?_, hts.filled fun t ht => hsound.child ht⟩ (hsource ▸ hsound.root)
  exact fun herror => hsound.root (.inl (hk.trans herror))

theorem builds (h : ∀ {l ds}, Over is (nodeOf k l ds).branch → X.Reads (nodeOf k l ds))
    (hX : k ∈ X.kinds := by decide) :
    Builds X k is := .of_decorated (fun hover _ => h hover) hX

theorem builds_row : Builds (.row [k] is) k is := builds (·.filled) (List.mem_singleton_self k)

/-! ## Nodes that may stand at several places -/

theorem elementValue_expr {t : Branch} (hk : t.kind ∈ expressionKinds) : elementValue t = expr t := by
  unfold elementValue
  split
  · rename_i h
    exact absurd (h ▸ hk) (by decide)
  · rename_i h
    exact absurd (h ▸ hk) (by decide)
  · rfl

namespace Fits

/-- What fits one place may fit another one as well. -/
theorem mono (h : Fits X t) (hkinds : ∀ k ∈ X.kinds, k ∈ Y.kinds)
    (hXY : ∀ d, Part X d → d.label.2 = readings d.branch → Y.Reads d) : Fits Y t := by
  refine ⟨hkinds _ h.kind, fun ht => hXY _ (h.part ht) ?_⟩
  obtain ⟨l, ts⟩ := t
  rw [decorate_node]
  rfl

/-- What fits a place of one kind. -/
theorem of_kind (h : Fits X t) (hX : X.kinds = [k]) (hY : k ∈ Y.kinds)
    (hXY : ∀ l ds, X.Reads (nodeOf k l ds) → Y.Reads (nodeOf k l ds)) : Fits Y t := by
  obtain ⟨l, ts⟩ := t
  have hk : l.kind = k := List.mem_singleton.1 (hX ▸ h.kind)
  refine ⟨(show l.kind ∈ Y.kinds from hk ▸ hY), fun ht => ?_⟩
  have hreads := h.reads ht
  rw [decorate_eq_nodeOf hk] at hreads ⊢
  exact hXY l _ hreads

theorem elementValue_of_annotationUse (h : Fits .annotationUse t) : Fits .elementValue t :=
  h.of_kind rfl (by decide) fun _ _ => .map

theorem elementValue_of_expr (h : Fits .expr t) : Fits .elementValue t := by
  refine h.mono (fun _ hk => List.mem_cons_of_mem _ (List.mem_cons_of_mem _ hk)) fun d hd hread => ?_
  have hreads := hd.reads
  change Succeeds (d.label.2 .elementValue)
  change Succeeds (d.label.2 .expr) at hreads
  rw [hread] at hreads ⊢
  exact (congrArg Succeeds (elementValue_expr hd.kind)).mpr hreads

theorem typeArgument_of_type (h : Fits .type t) : Fits .typeArgument t := h.of_kind rfl (by decide) fun _ _ => id

theorem modifier_of_annotationUse (h : Fits .annotationUse t) : Fits .modifier t :=
  h.of_kind rfl (by decide) fun _ _ hd _ => hd

theorem modifier_of_token (h : Fits (.token .modifier) t) : Fits .modifier t :=
  h.of_kind rfl (by decide) fun _ _ _ => nofun

theorem initialValue_of_expr (h : Fits .expr t) : Fits .initialValue t :=
  h.mono (fun _ => List.mem_cons_of_mem _) fun _ hd _ => hd.reads

theorem initialValue_of_arrayElements (h : Fits .arrayElements t) : Fits .initialValue t :=
  h.of_kind rfl (by decide) fun _ _ => .map

theorem lambdaHead_of_identifier (h : Fits .identifier t) : Fits .lambdaHead t :=
  h.of_kind rfl (by decide) fun _ _ _ => nofun

theorem lambdaParameter_of_identifier (h : Fits .identifier t) : Fits .lambdaParameter t :=
  h.of_kind rfl (by decide) fun _ _ _ => .ok _

theorem lambdaParameter_of_formalParameter (h : Fits .formalParameter t) : Fits .lambdaParameter t :=
  h.of_kind rfl (by decide) fun _ _ => id

theorem lambdaBody_of_block (h : Fits .block t) : Fits .lambdaBody t :=
  h.of_kind rfl (by decide) fun _ _ hd => ⟨fun _ => hd, fun hk => absurd rfl hk⟩

theorem lambdaBody_of_expr (h : Fits .expr t) : Fits .lambdaBody t := by
  refine h.mono (fun _ => List.mem_cons_of_mem _) fun _ hd _ => ⟨fun hk => ?_, fun _ => hd.reads⟩
  exact absurd (hk ▸ hd.kind) (by decide)

theorem methodName_of_identifier (h : Fits .identifier t) : Fits .methodName t :=
  h.of_kind rfl (by decide) fun _ _ _ => trivial

theorem methodName_of_operator (h : Fits .operator t) : Fits .methodName t := h.of_kind rfl (by decide) fun _ _ => id

theorem expr_of_simpleName (h : Fits (.token .simpleName) t) : Fits .expr t :=
  h.of_kind rfl (by decide) fun _ _ _ => .ok _

theorem expr_of_thisRef (h : Fits (.token .thisRef) t) : Fits .expr t := h.of_kind rfl (by decide) fun _ _ _ => .ok _

theorem expr_of_superRef (h : Fits (.token .superRef) t) : Fits .expr t := h.of_kind rfl (by decide) fun _ _ _ => .ok _

theorem stmt_of_block (h : Fits .block t) : Fits .stmt t := h.of_kind rfl (by decide) fun _ _ => .map

theorem stmt_of_localVariables (h : Fits .localVariables t) : Fits .stmt t := h.of_kind rfl (by decide) fun _ _ => .map

theorem member_of_typeDecl (h : Fits .typeDecl t) : Fits .member t := by
  have hkinds : ∀ k ∈ typeDeclKinds, k ∈ Slot.memberKinds := by decide
  refine h.mono hkinds fun d hd hread => ?_
  have hkind : d.branch.kind ∈ typeDeclKinds := hd.kind
  have hmember : member d.branch = Ast.ofTypeDecl <$> typeDecl d.branch := by
    unfold member
    simp only [typeDeclKinds, List.mem_cons, List.not_mem_nil, or_false] at hkind
    rcases hkind with hk | hk | hk <;> simp only [hk]
  change Succeeds (d.label.2 .member)
  rw [hread]
  exact (congrArg Succeeds hmember).mpr hd.reads.map

theorem resultType_of_type (h : Fits .type t) : Fits .resultType t :=
  h.of_kind rfl (by decide) fun _ _ hd => .ite_neg nofun hd

theorem type_of_resultType (h : Fits .resultType t) (hk : t.kind ≠ .voidType) : Fits .type t := by
  have hkind : t.kind = .type := by
    have h := h.kind
    simp only [List.mem_cons, List.not_mem_nil, or_false] at h
    exact h.resolve_right hk
  refine ⟨List.mem_singleton.2 hkind, fun hsound => ?_⟩
  obtain ⟨a, ha⟩ := h.reads hsound
  exact ⟨a, (if_neg (by rw [kind_decorate]; exact hk)).symm.trans ha⟩

theorem resultType_of_void (h : Fits (.token .voidType) t) : Fits .resultType t :=
  h.of_kind rfl (by decide) fun _ _ _ => .ite_pos rfl (.ok _)

theorem selfWord_of_thisRef (h : Fits (.token .thisRef) t) : Fits .selfWord t := h.of_kind rfl (by decide) fun _ _ => id

theorem selfWord_of_superRef (h : Fits (.token .superRef) t) : Fits .selfWord t :=
  h.of_kind rfl (by decide) fun _ _ => id

theorem constructorScope_of_expr (h : Fits .expr t) (hk : t.kind = .suffixed) : Fits .constructorScope t :=
  ⟨by rw [hk]; decide, h.reads⟩

theorem constructorScope_of_simpleName (h : Fits (.token .simpleName) t) : Fits .constructorScope t :=
  h.of_kind rfl (by decide) fun _ _ _ => .ok _

end Fits

/-! ## Names, annotations and types -/

theorem allParts_run {ds : List Decorated} (t : Branch) {bound : Nat} (h : ∀ d ∈ ds, Part .identifier d)
    (hbound : ds.length < bound) :
    ∃ ns : List Text, ns.length = ds.length ∧ qualifiedName.allParts bound ⟨t, ds⟩ = (.ok ns, ⟨t, []⟩) := by
  induction bound generalizing ds with
  | zero => exact absurd hbound (Nat.not_lt_zero _)
  | succ bound ih =>
    cases ds with
    | nil => exact ⟨[], rfl, rfl⟩
    | cons d ds =>
      obtain ⟨hd, hds⟩ := List.forall_mem_cons.1 h
      obtain ⟨n, hn⟩ := hd.reads
      obtain ⟨ns, hlength, hrun⟩ := ih hds (Nat.lt_of_succ_lt_succ hbound)
      refine ⟨n :: ns, congrArg (· + 1) hlength, bind_ok.2 ⟨some d, ⟨t, d :: ds⟩, rfl, ?_⟩⟩
      exact bind_ok.2 ⟨d, _, next_cons hd.ne_error t ds, bind_ok.2
        ⟨n, _, lift_ok.2 ⟨hn, rfl⟩, bind_ok.2 ⟨ns, _, hrun, rfl⟩⟩⟩

namespace Builds

instance qualifiedName : Builds .qualifiedName .qualifiedName [.one .identifier, .many .identifier] := by
  refine builds fun {l ds} h => ?_
  obtain ⟨d, es, hds, hd, hes⟩ := h.filled
  have hparts : ∀ e ∈ d :: es, Part .identifier e := List.forall_mem_cons.2 ⟨hd, Filled.parts hes⟩
  obtain ⟨ns, hlength, hrun⟩ := allParts_run (nodeOf .qualifiedName l ds).branch (hds ▸ hparts) (Nat.lt_succ_self _)
  cases ns with
  | nil =>
    rw [show (nodeOf .qualifiedName l ds).branch.children = d :: es from hds] at hlength
    exact absurd hlength (by simp)
  | cons n ns => exact ⟨_, within_ok.2 ⟨h.ne_error, _, bind_ok.2 ⟨n :: ns, _, hrun, rfl⟩⟩⟩

instance elementValuePair : Builds .elementValuePair .elementValuePair [.one .identifier, .one .elementValue] :=
  builds fun h => h.whole (.part fun _ => .next fun _ hd => .lift hd.reads fun _ _ => .pure)

instance annotationUse : Builds .annotationUse .annotationUse [.one .qualifiedName, .opt .elementValue] := by
  refine builds fun h => h.within (.part fun _ => .rest ?_)
  rintro _ ⟨_ | ⟨d, _ | ⟨e, os⟩⟩, _, rfl, hlength, hos, rfl⟩
  · exact .pure
  · have hd : Part .elementValue d := hos d List.mem_cons_self
    exact .ite_neg (hd.ne (by decide)) (.ite_pos rfl (.lift hd.reads fun _ _ => .pure))
  · exact absurd hlength (by simp)

instance marker : Builds .annotationUse .annotationUse [.one .qualifiedName] :=
  annotationUse.of_row fun ⟨t, us, hts, ht, hus⟩ => ⟨t, us, hts, ht, Row.opt_of_none hus⟩

instance normalAnnotation : Builds .annotationUse .annotationUse [.one .qualifiedName, .some .elementValuePair] := by
  refine builds fun h => h.within (.part fun _ => .rest fun ds hds => ?_)
  obtain ⟨hne, hparts⟩ := hds.some_parts
  cases ds with
  | nil => exact absurd rfl hne
  | cons d ds =>
    refine .ite_pos (List.mem_singleton.1 (hparts d List.mem_cons_self).kind) ?_
    exact .lift (succeeds_each hparts) fun _ _ => .pure

/-- The elements of an array in an annotation. -/
instance elementValue : Builds .elementValue .arrayInitializer [.many .elementValue] :=
  builds fun h => h.children fun hds => (succeeds_eachIn hds.parts).bind fun _ _ => .ok _

instance dim : Builds .dim .dim [.many .annotationUse] :=
  builds fun h => h.children fun hds => Succeeds.bind (succeeds_eachIn hds.parts) fun _ _ => .ok _

instance dims : Builds .dims .dims [.some .dim] := builds_row

instance wildcard : Builds .typeArgument .wildcard [.many .annotationUse] :=
  builds fun h => h.whole (.seq (.leadingAnnotations rfl) <| .optional_none rfl .pure)

instance boundedWildcard : Builds .typeArgument .wildcard [.many .annotationUse, .one .boundWord, .one .type] := by
  refine builds fun h => h.whole (.seq (.leadingAnnotations rfl) <|
    .optional_some fun d hd => .part fun _ => ?_)
  by_cases hextends : d.literal = Text.ofString "extends"
  · exact .ite_pos hextends .pure
  · exact .ite_neg hextends (.ite_pos (hd.reads.resolve_left hextends) .pure)

instance typeArguments : Builds .typeArguments .typeArguments [.many .typeArgument] :=
  builds fun h => h.children fun hds => .mapM fun d hd => (hds.parts d hd).reads

instance classTypeElement :
    Builds .classTypeElement .classTypeElement [.many .annotationUse, .one .identifier, .opt .typeArguments] := by
  refine builds fun h whole? scope => h.whole (.seq (.leadingAnnotations rfl) <|
    .part fun _ => .optional rfl (fun d hd => .lift hd.reads fun _ _ => .step ?_) (.step ?_))
  all_goals cases whole? <;> exact .pure

instance classType : Builds .classType .classType [.some .classTypeElement] := by
  have helements (place : Place) (outer : List (Ast .annotationUse)) : ∀ (ds : List Decorated) (d : Decorated) scope,
      (∀ e ∈ d :: ds, Part .classTypeElement e) → Succeeds (classTypeElements place outer scope d ds) := by
    intro ds
    induction ds with
    | nil => exact fun d scope h => (h d List.mem_cons_self).reads _ _
    | cons e ds ih =>
      intro d scope h
      exact ((h d List.mem_cons_self).reads _ _).bind fun _ _ => ih e _ (List.forall_mem_cons.1 h).2
  refine builds fun {l ds} h outer => h.children fun hds => ?_
  obtain ⟨hne, hparts⟩ := hds.some_parts
  cases ds with
  | nil => exact absurd rfl hne
  | cons d ds => exact helements _ outer ds d _ hparts

instance type : Builds .type .type [.many .annotationUse, .one .classType, .opt .dims] :=
  builds fun h => h.whole (.seq (.leadingAnnotations rfl) <| .expectOf (by decide) fun _ hd =>
    .ite_neg (hd.ne (by decide)) (.lift (hd.reads _) fun _ _ =>
      .step (.seq (.optionalDims rfl) .pure)))

instance primitiveType : Builds .type .type [.many .annotationUse, .one .primitiveType, .opt .dims] :=
  builds fun h => h.whole (.seq (.leadingAnnotations rfl) <| .expectOf (by decide) fun _ hd =>
    .ite_pos (List.mem_singleton.1 hd.kind) (.step (.seq (.optionalDims rfl) .pure)))

instance createdPrimitive : Builds .createdType .type [.many .annotationUse, .one .primitiveType] := by
  refine builds fun {l ds} h => ?_
  have hread : Succeeds (Reading.type (nodeOf .type l ds).branch) :=
    h.whole (.seq (.leadingAnnotations rfl) <| .expectOf (by decide) fun _ hd =>
      .ite_pos (List.mem_singleton.1 hd.kind) (.step (.bind (.noDims rfl) fun _ _ => .pure)))
  refine hread.imp fun a ha => ⟨ha, fun hnone => ?_⟩
  obtain ⟨as, _, hds, -, n, _, rfl, hn, -⟩ := h.filled
  refine absurd (List.mem_singleton.1 hn.kind) (hnone n ?_)
  rw [hds]
  exact List.mem_append_right _ List.mem_cons_self

instance createdType : Builds .createdType .type [.many .annotationUse, .one .classType] := by
  refine builds fun {l ds} h => ?_
  have hread : ∃ a, Reading.type (nodeOf .type l ds).branch = .ok a ∧ ∃ b, a = .classRef b :=
    h.exists_whole (.seq (.leadingAnnotations rfl) <| .expectOf (by decide) fun _ hd =>
      .ite_neg (hd.ne (by decide)) (.lift (hd.reads _) fun _ _ => .step (.bind (.noDims rfl) fun _ hdims =>
        hdims ▸ .ret ⟨_, rfl⟩)))
  exact hread.imp fun a ha => ⟨ha.1, fun _ => ha.2⟩

instance typeBound : Builds .typeBound .typeBound [.some .classType] :=
  builds fun h => succeeds_classTypeList h

instance typeParameter : Builds .typeParameter .typeParameter
    [.many .annotationUse, .one .identifier, .opt .typeBound] :=
  builds fun h => h.whole (.seq (.leadingAnnotations rfl) <| .part fun _ =>
    .optional rfl (fun _ hd => .lift hd.reads fun _ _ => .pure) (.step .pure))

instance typeParameters : Builds .typeParameters .typeParameters [.some .typeParameter] := builds_row

/-! ## Variables, parameters and blocks -/

instance modifiers : Builds .modifiers .modifiers [.many .modifier] := by
  refine builds fun h adjust => h.children fun hds => ?_
  refine (Succeeds.mapM fun d hd => ?_).bind fun _ _ => .ok _
  have hpart := hds.parts d hd
  rcases List.mem_cons.1 hpart.kind with hk | hk
  · simp only [hk]
    exact (hpart.reads hk).map
  · simp only [List.mem_singleton.1 hk]
    exact .ok _

instance arrayElements : Builds .arrayElements .arrayInitializer [.many .initialValue] :=
  builds fun h => h.children fun hds => (succeeds_eachIn hds.parts).bind fun _ _ => .ok _

instance declarator : Builds .declarator .variableDeclarator [.one .identifier, .opt .dims, .opt .initialValue] :=
  builds fun h => h.whole (.part fun _ => .seq (.optionalDims (by decide)) <| .opt
    (.peek_some fun _ _ => .ite_pos rfl (.next fun _ hd => .lift hd.reads fun _ _ => .step .pure))
    (.peek_none (.ite_neg Bool.false_ne_true (.step .pure))))

instance localVariables : Builds .localVariables .localVarDecl [.one .modifiers, .one .type, .some .declarator] :=
  builds fun h => h.within (.seq .immutableHeader <| .part fun _ => .seq .declarators .pure)

instance varargs : Builds .varargs .varargs [.many .annotationUse] := builds_row

instance formalParameter : Builds .formalParameter .formalParameter
    [.one .modifiers, .one .type, .opt .varargs, .one .identifier, .opt .dims] :=
  builds fun h => h.whole (.seq .immutableHeader <| .part fun _ => .optional rfl
    (fun _ hd => .below hd fun _ hds => .wrapped (succeeds_eachIn hds.parts) fun _ =>
      .part fun _ => .seq (.optionalDims rfl) .pure)
    (.step (.part fun _ => .seq (.optionalDims rfl) .pure)))

/-- The variable of a loop over a collection. -/
instance loopParameter : Builds .formalParameter .formalParameter [.one .modifiers, .one .type, .one .identifier] :=
  formalParameter.of_row fun ⟨m, _, hts, hm, t, _, hus, ht, n, _, hvs, hn, hnil⟩ =>
    ⟨m, _, hts, hm, t, _, hus, ht, Row.opt_of_none ⟨n, _, hvs, hn, Row.opt_of_none hnil⟩⟩

instance formalParameters : Builds .formalParameters .formalParameters [.many .formalParameter] :=
  builds fun h => h.children fun hds => Succeeds.bind (.mapM fun d hd =>
    .ite_pos (List.mem_singleton.1 (hds.parts d hd).kind) (hds.parts d hd).reads) fun _ _ => .ok _

instance block : Builds .block .block [.many .stmt] :=
  builds fun h => h.children fun hds => (succeeds_eachIn hds.parts).bind fun _ _ => .ok _

/-! ## Expressions -/

instance arguments : Builds .arguments .arguments [.many .expr] :=
  builds fun h => h.children fun hds => succeeds_eachIn hds.parts

instance lambdaParameters : Builds .lambdaHead .lambdaParameters [.many .lambdaParameter] :=
  builds fun h _ => h.filled

instance lambda : Builds .expr .lambda [.one .lambdaHead, .one .lambdaBody] := by
  have hbody {f : Ast .lambdaBody → Reading (Ast .expr)} (hf : ∀ b, Takes [] (f b) [] fun _ => True) :
      Takes [.one .lambdaBody] (next >>= fun body => if body.kind = .block then
        liftM (Reading.block body.branch) >>= fun b => pure (.blockBody b) >>= f else
        liftM (body.read .expr) >>= fun b => pure (.exprBody b) >>= f) [] fun _ => True := by
    refine .next fun d hd => ?_
    by_cases hk : d.kind = .block
    · exact .ite_pos hk (.lift (hd.reads.1 hk) fun _ _ => .step (hf _))
    · exact .ite_neg hk (.lift (hd.reads.2 hk) fun _ _ => .step (hf _))
  refine builds fun h => h.whole (.expect fun d hd => ?_)
  by_cases hk : d.kind = .lambdaParameters
  · have hparts : Over [.many .lambdaParameter] d.branch := ⟨hd.ne_error, hd.reads hk⟩
    refine .ite_pos hk (.known hparts.children_eq ?_)
    exact .lift (succeeds_each hparts.filled.parts) fun _ _ => .step (hbody fun _ => .pure)
  · exact .ite_neg hk (.step (hbody fun _ => .pure))

instance assignment : Builds .expr .assignment [.one .expr, .one .operator, .one .expr] :=
  builds fun h => h.whole (.seq .expr <| .seq .operator <| .seq .expr .pure)

instance binary : Builds .expr .binary [.one .expr, .one .operator, .one .expr] :=
  builds fun h => h.whole (.seq .expr <| .seq .operator <| .seq .expr .pure)

instance instanceOf : Builds .expr .instanceOf [.one .expr, .one .type] :=
  builds fun h => h.whole (.seq .expr <| .part fun _ => .pure)

instance conditional : Builds .expr .conditional [.one .expr, .one .expr, .one .expr] :=
  builds fun h => h.whole (.seq .expr <| .seq .expr <| .seq .expr .pure)

instance unary : Builds .expr .unary [.one .operator, .one .expr] :=
  builds fun h => h.whole (.seq .operator <| .seq .expr .pure)

instance cast : Builds .expr .cast [.some .type, .one .expr] := by
  refine builds fun h => h.within (.rest ?_)
  rintro _ ⟨ts, _, rfl, hne, hts, u, _, rfl, hu, rfl⟩
  simp only [List.getLast?_concat, List.dropLast_concat]
  refine .ite_neg ?_ (.lift (succeeds_eachIn hts) fun _ _ => .lift hu.reads fun _ _ => .pure)
  cases ts with
  | nil => exact absurd rfl hne
  | cons => simp

instance parens : Builds .expr .parens [.one .expr] :=
  builds fun h => h.whole (.seq .expr .pure)

instance typeReference : Builds .expr .typeReference [.one .type] :=
  builds fun h => h.whole (.part fun _ => .pure)

instance voidLiteral : Builds .expr .typeLiteral [.one (.token .voidType)] :=
  builds fun h => h.whole (.expectOf (by decide) fun _ _ => .bind (.noDims rfl) fun _ _ => .pure)

instance typeLiteral : Builds .expr .typeLiteral [.one .primitiveType, .opt .dims] :=
  builds fun h => h.whole (.expectOf (by decide) fun _ _ => .seq (.optionalDims rfl) .pure)

instance dimExpr : Builds .dimExpr .dimExpr [.many .annotationUse, .one .expr] :=
  builds fun h => h.whole (.seq (.leadingAnnotations (by decide)) <| .seq .expr .pure)

/-- An array with lengths. -/
instance sizedArray : Builds .expr .arrayCreation [.one .createdType, .some .dimExpr, .opt .dims] := by
  refine builds fun h => h.whole (.expect fun d hd => ?_)
  obtain ⟨a, ha, -⟩ := hd.reads
  refine .lift ⟨a, ha⟩ fun _ _ => .some rfl rfl fun ls hls => ?_
  refine .lift (succeeds_each hls.2) fun lengths hlengths => .seq (.optionalDims rfl) <|
    .optional_none rfl (.step (.bind .done fun _ _ => .ite_neg ?_ .pure))
  have hne := isEmpty_each hlengths hls.1
  cases lengths with
  | nil => exact absurd rfl hne
  | cons => exact Bool.false_ne_true

/-- An array with elements. -/
instance filledArray : Builds .expr .arrayCreation [.one .createdType, .one .dims, .one .arrayElements] := by
  refine builds fun h => h.whole (.expect fun d hd => ?_)
  obtain ⟨a, ha, -⟩ := hd.reads
  refine .lift ⟨a, ha⟩ fun _ _ => .of_many (.many (X := .dimExpr) rfl rfl fun ls hls => ?_)
  refine .lift (succeeds_each hls) fun lengths _ => .bind .dims fun dims hdims =>
    .optional_some fun e he => .lift he.reads fun _ _ => .step (.bind .done fun _ _ =>
      .ite_neg ?_ .pure)
  simpa using fun _ => hdims

end Builds

end Ast.Reading

/-! ## Suffixes -/

namespace Grammar.Receiver

/-- What is known of the expression before a suffix. -/
structure Describes (r : Receiver) (e : Ast .expr) : Prop where
  name (h : r.isTypeName = true) : ∃ first more, e.nameParts = some (first :: more)
  reference (h : r.isCallable = true) : ∃ target, e = .ofReference target

theorem describes_nothing (e : Ast .expr) : Describes ⟨false, false⟩ e := ⟨nofun, nofun⟩

variable {r : Receiver} {t last : Cst} {s : State}

/-- Where nothing is reported, what is demanded holds. -/
theorem of_demand {holds : Bool} {cause : SyntaxError.Cause} {first : Position} :
    let demanded : Parser Receiver :=
      (if holds then pure () else report cause first >>= fun _ => pure ()) >>= fun _ => pure ⟨false, false⟩
    (demanded s).2.errors = [] → holds = true ∧ (demanded s).1 = ⟨false, false⟩ := by
  intro demanded h
  cases holds with
  | false => exact absurd h (State.errors_record_ne_nil _ _)
  | true => exact ⟨rfl, rfl⟩

theorem after_call (hk : t.kind = .callSuffix) (h : (r.after t s).2.errors = []) :
    r.isCallable = true ∧ (r.after t s).1 = ⟨false, false⟩ := by
  unfold after at h ⊢
  simp only [hk] at h ⊢
  exact of_demand h

theorem after_classLiteral (hk : t.kind = .classLiteralSuffix) (h : (r.after t s).2.errors = []) :
    r.isTypeName = true ∧ (r.after t s).1 = ⟨false, false⟩ := by
  unfold after at h ⊢
  simp only [hk] at h ⊢
  exact of_demand h

theorem after_methodRef (hk : t.kind = .methodRefSuffix) (h : (r.after t s).2.errors = []) :
    (!t.has .dims || r.isTypeName) = true ∧ (r.after t s).1 = ⟨false, false⟩ := by
  unfold after at h ⊢
  simp only [hk] at h ⊢
  exact of_demand h

theorem after_self (hk : t.kind = .fieldSuffix) (hlast : t.children.getLast? = some last)
    (hself : last.kind = .thisRef ∨ last.kind = .superRef) (h : (r.after t s).2.errors = []) :
    r.isTypeName = true ∧ (r.after t s).1 = ⟨false, false⟩ := by
  have hc : [Cst.Kind.thisRef, .superRef].contains last.kind = true := by rcases hself with h | h <;> rw [h] <;> rfl
  unfold after at h ⊢
  simp only [hk, hlast, hc] at h ⊢
  exact of_demand h

theorem after_field (hk : t.kind = .fieldSuffix) (hlast : t.children.getLast? = some last)
    (hname : last.kind = .identifier) (s : State) :
    r.after t s = (⟨r.isTypeName && !t.has .typeArguments, true⟩, s) := by
  have hc : [Cst.Kind.thisRef, .superRef].contains last.kind = false := by rw [hname]; rfl
  unfold after
  simp only [hk, hlast, hc]
  rfl

theorem after_other (hk : t.kind = .indexSuffix ∨ t.kind = .postIncDecSuffix ∨ t.kind = .newSuffix) :
    (r.after t s).1 = ⟨false, false⟩ := by
  unfold after
  rcases hk with hk | hk | hk <;> rw [hk] <;> rfl

end Grammar.Receiver

namespace Ast.Reading

variable {ts : List Cst} {is : List Item} {k : Cst.Kind}

/-- What can follow an expression: it is read behind every expression that it may follow. -/
abbrev Slot.suffix : Slot :=
  ⟨[.fieldSuffix, .callSuffix, .indexSuffix, .methodRefSuffix, .classLiteralSuffix, .postIncDecSuffix, .newSuffix],
    fun d => ∀ (r : Receiver) (e : Ast .expr) (s : State), r.Describes e → (r.after d.source s).2.errors = [] →
      ∃ e', Reading.suffix e d.branch = .ok e' ∧ (r.after d.source s).1.Describes e'⟩

theorem children_source (d : Decorated) : d.source.children = d.branch.children.map Decorated.source := by
  obtain ⟨l, ts⟩ := d
  rw [Decorated.source, Tree.map_node]
  rfl

theorem kind_source (d : Decorated) : d.source.kind = d.kind := by
  obtain ⟨l, ts⟩ := d
  rfl

theorem has_source (d : Decorated) (k : Cst.Kind) : d.source.has k = d.branch.children.any (·.kind == k) := by
  rw [Cst.has, children_source, List.any_map]
  exact congrArg _ (funext fun e => congrArg (· == k) (kind_source e))

theorem succeeds_qualifierOf {r : Receiver} {e : Ast .expr} (hr : r.Describes e) (h : r.isTypeName = true)
    (t : Branch) : Succeeds (qualifierOf t e) := by
  obtain ⟨first, more, hparts⟩ := hr.name h
  unfold qualifierOf
  rw [hparts]
  exact .ok _

theorem succeeds_classTypeOf {r : Receiver} {e : Ast .expr} (hr : r.Describes e) (h : r.isTypeName = true)
    (t : Branch) : Succeeds (classTypeOf t e) := by
  obtain ⟨first, more, hparts⟩ := hr.name h
  unfold classTypeOf
  rw [hparts]
  exact .ok _

/-- A suffix behind which nothing is known. -/
theorem builds_suffix (h : ∀ {l ds} {r : Receiver} {e : Ast .expr} {s : State}, Over is (nodeOf k l ds).branch →
    ¬(nodeOf k l ds).source.Faulty → r.Describes e →
    (r.after (nodeOf k l ds).source s).2.errors = [] →
    Succeeds (suffix e (nodeOf k l ds).branch) ∧ (r.after (nodeOf k l ds).source s).1 = ⟨false, false⟩)
    (hk : k ∈ Slot.suffix.kinds := by decide) : Builds .suffix k is := by
  refine .of_decorated (fun hover hfault r e s hr herrors => ?_) hk
  obtain ⟨⟨e', he'⟩, hafter⟩ := h hover hfault hr herrors
  exact ⟨e', he', hafter ▸ Receiver.describes_nothing e'⟩

namespace Builds

theorem of_opt {X Y : Slot} (h₁ : Builds X k (.one Y :: is)) (h₀ : Builds X k is) : Builds X k (.opt Y :: is) := by
  refine ⟨fun l ts hk hts => ?_⟩
  obtain ⟨_ | ⟨t, _ | ⟨u, os⟩⟩, us, rfl, hlength, hos, hus⟩ := hts
  · exact h₀.fits l _ hk hus
  · exact h₁.fits l _ hk ⟨t, us, rfl, hos t List.mem_cons_self, hus⟩
  · exact absurd hlength (by simp)

instance indexSuffix : Builds .suffix .indexSuffix [.one .expr] :=
  builds_suffix fun h _ _ _ =>
    ⟨h.within (.thenDone (.seq .expr .pure)), Receiver.after_other (.inl rfl)⟩

instance postIncDecSuffix : Builds .suffix .postIncDecSuffix [.one .operator] :=
  builds_suffix fun h _ _ _ =>
    ⟨h.within (.thenDone (.seq .operator .pure)), Receiver.after_other (.inr (.inl rfl))⟩

instance callSuffix : Builds .suffix .callSuffix [.one .arguments] := by
  refine builds_suffix fun h _ hr herrors => ?_
  obtain ⟨hcall, hafter⟩ := Receiver.after_call rfl herrors
  obtain ⟨target, rfl⟩ := hr.reference hcall
  exact ⟨h.within (.thenDone (.part fun _ => .pure)), hafter⟩

/-- A name, which may be that of a type if what stands before it may be. -/
instance nameSuffix : Builds .suffix .fieldSuffix [.one .identifier] := by
  refine builds fun {l ds} h r e s hr _ => ?_
  have hread : ∃ e', suffix e (nodeOf .fieldSuffix l ds).branch = .ok e' ∧
      ∃ x, e' = .ofReference (.access e.place e .nil x) := by
    refine h.exists_within (.thenDone (.bind (.noTypeArguments rfl) ?_))
    rintro _ rfl
    refine .expectOf (by decide) fun n hn => ?_
    simp only [List.mem_singleton.1 hn.kind]
    exact .ret ⟨_, rfl⟩
  obtain ⟨_, he', x, rfl⟩ := hread
  refine ⟨_, he', ?_⟩
  obtain ⟨n, _, hds, hn, rfl⟩ := h.filled
  rw [Receiver.after_field rfl (by rw [children_source, hds]; rfl)
    ((kind_source n).trans (List.mem_singleton.1 hn.kind))]
  refine ⟨fun hname => ?_, fun _ => ⟨_, rfl⟩⟩
  obtain ⟨first, more, hparts⟩ := hr.name (Bool.and_eq_true_iff.1 hname).1
  refine ⟨first, more ++ [x], ?_⟩
  change (e.nameParts).map (· ++ [x]) = _
  rw [hparts]
  rfl

instance genericSuffix : Builds .suffix .fieldSuffix [.one .typeArguments, .one .identifier] := by
  refine builds fun {l ds} h r e s _ _ => ?_
  have hread : ∃ e', suffix e (nodeOf .fieldSuffix l ds).branch = .ok e' ∧ ∃ target, e' = .ofReference target := by
    refine h.exists_within (.thenDone (.seq .typeArguments <| .expectOf (by decide) fun n hn => ?_))
    simp only [List.mem_singleton.1 hn.kind]
    exact .ret ⟨_, rfl⟩
  obtain ⟨e', he', htarget⟩ := hread
  refine ⟨e', he', ?_⟩
  obtain ⟨a, _, hds, ha, n, _, rfl, hn, rfl⟩ := h.filled
  rw [Receiver.after_field rfl (by rw [children_source, hds]; rfl)
    ((kind_source n).trans (List.mem_singleton.1 hn.kind))]
  refine ⟨fun hname => ?_, fun _ => htarget⟩
  have hnone := (Bool.and_eq_true_iff.1 hname).2
  rw [has_source, hds] at hnone
  simp [List.mem_singleton.1 ha.kind] at hnone

/-- `this` or `super` behind the name of a type. -/
theorem selfSuffix {k : Cst.Kind} (hk : k = .thisRef ∨ k = .superRef) :
    Builds .suffix .fieldSuffix [.one (.token k)] := by
  refine builds_suffix fun {l ds _ _ _} h _ hr herrors => ?_
  obtain ⟨n, _, hds, hn, hnil⟩ := h.filled
  have hkind : n.source.kind = k := (kind_source n).trans (List.mem_singleton.1 hn.kind)
  have hlast : (nodeOf .fieldSuffix l ds).source.children.getLast? = some n.source := by
    rw [children_source, hds, hnil]
    rfl
  obtain ⟨hname, hafter⟩ := Receiver.after_self rfl hlast (hkind ▸ hk) herrors
  have hqualifier := succeeds_qualifierOf hr hname (nodeOf .fieldSuffix l ds).branch
  refine ⟨?_, hafter⟩
  rcases hk with rfl | rfl
  all_goals
    refine h.within (.thenDone (.bind (.noTypeArguments rfl) fun _ _ => .expectOf (by decide) fun m hm => ?_))
    simp only [List.mem_singleton.1 hm.kind]
    exact .lift hqualifier fun _ _ => .pure

instance thisSuffix : Builds .suffix .fieldSuffix [.one (.token .thisRef)] := selfSuffix (.inl rfl)

instance superSuffix : Builds .suffix .fieldSuffix [.one (.token .superRef)] := selfSuffix (.inr rfl)

instance classLiteralSuffix : Builds .suffix .classLiteralSuffix [.opt .dims] := by
  refine builds_suffix fun h _ hr herrors => ?_
  obtain ⟨hname, hafter⟩ := Receiver.after_classLiteral rfl herrors
  exact ⟨h.within (.thenDone (.lift (succeeds_classTypeOf hr hname _) fun _ _ =>
    .seq (.optionalDims rfl) .pure)), hafter⟩

instance plainClassLiteral : Builds .suffix .classLiteralSuffix [] := classLiteralSuffix.of_row Row.opt_of_none

/-- Dimensions are read only behind a name. -/
instance methodRefSuffix : Builds .suffix .methodRefSuffix [.opt .dims, .opt .typeArguments, .one .methodName] := by
  refine of_opt ?_ ?_
  · refine builds_suffix fun {l ds _ _ _} h _ hr herrors => ?_
    obtain ⟨hdims, hafter⟩ := Receiver.after_methodRef rfl herrors
    obtain ⟨a, _, hds, ha, -⟩ := h.filled
    have hhas : (nodeOf .methodRefSuffix l ds).source.has .dims = true := by
      rw [has_source, hds]
      simp [List.mem_singleton.1 ha.kind]
    rw [hhas] at hdims
    exact ⟨h.within (.thenDone (.optional_some fun d hd => .lift (succeeds_classTypeOf hr hdims _)
      fun _ _ => .lift (succeeds_dims hd) fun _ _ => .step (.seq (.optionalTypeArguments rfl) <|
        .expect fun _ _ => .pure))), hafter⟩
  · exact builds_suffix fun h _ _ herrors =>
      ⟨h.within (.thenDone (.optional_none rfl (.step (.seq (.optionalTypeArguments rfl) <|
        .expect fun _ _ => .pure)))), (Receiver.after_methodRef rfl herrors).2⟩

/-- Unless it has a fault, a node that creates an object creates one of a class. -/
theorem createdClass {d e : Decorated} (hk : d.kind = .objectCreation ∨ d.kind = .newSuffix) (hfault : ¬d.source.Faulty)
    (he : e ∈ d.branch.children) (h : Part .createdType e) : Part .createdClass e := by
  have hkind : e.kind = .type := List.mem_singleton.1 h.kind
  have hnone : ∀ c ∈ e.branch.children, c.kind ≠ .primitiveType := by
    intro c hc hprimitive
    refine hfault (.inr ⟨by rw [kind_source]; exact hk, e.source, ?_, (kind_source e).trans hkind, ?_⟩)
    · rw [children_source]
      exact List.mem_map_of_mem he
    · rw [has_source]
      exact List.any_eq_true.2 ⟨c, hc, beq_iff_eq.2 hprimitive⟩
  obtain ⟨a, ha, hclass⟩ := h.reads
  obtain ⟨b, rfl⟩ := hclass hnone
  exact ⟨h.kind, h.ne_error, b, ha⟩

theorem succeeds_objectCreation {d : Decorated} (hk : d.kind = .objectCreation ∨ d.kind = .newSuffix)
    (hfault : ¬d.source.Faulty)
    (h : Over [.opt .typeArguments, .one .createdType, .one .arguments, .opt .classBody] d.branch)
    (scope : Option (Ast .expr)) : Succeeds (Reading.objectCreation scope d.branch) := by
  have hover : Over [.opt .typeArguments, .one .createdClass, .one .arguments, .opt .classBody] d.branch := by
    refine ⟨h.ne_error, ?_⟩
    obtain ⟨os, _, hts, hlength, hos, e, es, rfl, he, hes⟩ := h.filled
    exact ⟨os, _, hts, hlength, hos, e, es, rfl, createdClass hk hfault (by rw [hts]; simp) he, hes⟩
  refine hover.whole (.seq (.optionalTypeArguments rfl) <| .expect fun e he => ?_)
  obtain ⟨b, hb⟩ := he.reads
  exact .known hb <| .step (.part fun _ => .optional rfl (fun _ hd => .below hd fun _ hds =>
    .lift (succeeds_eachIn hds.parts) fun _ _ => .step .pure) (.step .pure))

instance objectCreation : Builds .expr .objectCreation
    [.opt .typeArguments, .one .createdType, .one .arguments, .opt .classBody] :=
  .of_decorated fun h hfault => succeeds_objectCreation (.inl rfl) hfault h none

instance newSuffix : Builds .suffix .newSuffix
    [.opt .typeArguments, .one .createdType, .one .arguments, .opt .classBody] :=
  builds_suffix fun h hfault _ _ =>
    ⟨succeeds_objectCreation (.inr rfl) hfault h (some _), Receiver.after_other (.inr (.inr rfl))⟩

end Builds

/-- The suffixes may follow each other behind an expression of which the receiver tells. -/
inductive Chain : Receiver → List Cst → Prop
  | nil {r : Receiver} : Chain r []
  | cons {r : Receiver} {t : Cst} {ts : List Cst} {s : State} (ht : Fits .suffix t)
      (herrors : (r.after t s).2.errors = []) (hts : Chain (r.after t s).1 ts) : Chain r (t :: ts)

theorem Chain.ne_error {r : Receiver} (h : Chain r ts) : ∀ d ∈ ts.map decorate, d.kind ≠ .error := by
  induction h with
  | nil => exact nofun
  | @cons r t ts s ht _ _ ih =>
    refine List.forall_mem_cons.2 ⟨fun hk => absurd ht.kind ?_, ih⟩
    rw [← kind_decorate, hk]
    decide

theorem Chain.fold {r : Receiver} (h : Chain r ts) (hsound : ∀ t ∈ ts, t.Sound) {e : Ast .expr} (hr : r.Describes e) :
    Takes [] ((ts.map decorate).foldlM (fun scope d => (liftM (suffix scope d.branch) : Reading _)) e) [] fun _ =>
    True := by
  induction h generalizing e with
  | nil => exact .pure
  | @cons r t ts s ht herrors _ ih =>
    obtain ⟨ht', hts'⟩ := List.forall_mem_cons.1 hsound
    obtain ⟨e', he', hr'⟩ := (ht.part ht').reads r e s hr (by rw [source_decorate]; exact herrors)
    rw [source_decorate] at hr'
    exact .known he' (ih hts' hr')

/-- What is known of an expression before it has suffixes. -/
def receiverOf (t : Cst) : Receiver := ⟨t.kind == .simpleName, t.kind == .simpleName⟩

theorem describes_receiverOf (t : Cst) {e : Ast .expr} (h : (decorate t).read .expr = .ok e) :
    (receiverOf t).Describes e := by
  obtain ⟨l, ts⟩ := t
  have hname (hk : (l.kind == .simpleName) = true) : ∃ place x, e = .ofReference (.name place x) := by
    rw [decorate_eq_nodeOf (beq_iff_eq.1 hk)] at h
    exact ⟨_, _, (Except.ok.inj h).symm⟩
  refine ⟨fun hk => ?_, fun hk => ?_⟩
  · obtain ⟨place, x, rfl⟩ := hname hk
    exact ⟨x, [], rfl⟩
  · obtain ⟨place, x, rfl⟩ := hname hk
    exact ⟨_, rfl⟩

/-- Names may follow each other. -/
theorem chain_of_names (h : ∀ t ∈ ts, t.kind = .fieldSuffix ∧ Row [.one .identifier] t.children) (r : Receiver) :
    Chain r ts := by
  induction ts generalizing r with
  | nil => exact .nil
  | cons t ts ih =>
    obtain ⟨⟨hk, hrow⟩, hts⟩ := List.forall_mem_cons.1 h
    have hfits : Fits .suffix (.node t.label t.children) := Builds.nameSuffix.fits _ _ hk hrow
    obtain ⟨n, _, hchildren, hn, rfl⟩ := hrow
    have hafter := Receiver.after_field (r := r) hk (by rw [hchildren]; rfl) (List.mem_singleton.1 hn.kind) ⟨#[], 0, []⟩
    obtain ⟨l, us⟩ := t
    exact .cons hfits (by rw [hafter]) (ih hts _)

/-- An expression and suffixes that may follow it. -/
theorem fits_suffixed {l : Cst.Label} {first : Cst} (hk : l.kind = .suffixed) (hfirst : Fits .expr first)
    (hts : Chain (receiverOf first) ts) : Fits .expr (.node l (first :: ts)) := by
  refine ⟨(show l.kind ∈ _ by rw [hk]; decide), fun hsound => ?_⟩
  have hpart := hfirst.part (hsound.child List.mem_cons_self)
  obtain ⟨a, ha⟩ := hpart.reads
  have hfold := hts.fold (fun t ht => hsound.child (List.mem_cons_of_mem _ ht)) (describes_receiverOf first ha)
  rw [decorate_eq_nodeOf hk, List.map_cons]
  obtain ⟨e, es, hrun, -, -⟩ := hfold (nodeOf .suffixed l (decorate first :: ts.map decorate)).branch [] rfl
  have hnext (t : Branch) : nextExpr ⟨t, decorate first :: ts.map decorate⟩ = (.ok a, ⟨t, ts.map decorate⟩) :=
    bind_ok.2 ⟨_, _, next_cons hpart.ne_error t _, lift_ok.2 ⟨ha, rfl⟩⟩
  have hread : suffixed (nodeOf .suffixed l (decorate first :: ts.map decorate)).branch = .ok e :=
    within_ok.2 ⟨(show Cst.Kind.suffixed ≠ .error by decide), _,
      bind_ok.2 ⟨a, _, hnext _, bind_ok.2 ⟨_, _, rest_ok.2 ⟨hts.ne_error, rfl, rfl⟩, hrun⟩⟩⟩
  exact ⟨e, hread⟩

/-! ## Statements -/

namespace Builds

instance emptyStmt : Builds .stmt .emptyStmt [] := builds fun _ => .ok _

instance exprStmt : Builds .stmt .exprStmt [.one .expr] :=
  builds fun h => h.whole (.seq .expr .pure)

instance ifStmt : Builds .stmt .ifStmt [.one .expr, .one .stmt, .opt .stmt] :=
  builds fun h => h.whole (.seq .expr <| .seq .stmt <| .opt
    (.peek_some fun _ _ => .ite_pos rfl (.seq .stmt <| .step .pure))
    (.peek_none (.ite_neg Bool.false_ne_true (.step .pure))))

instance whileStmt : Builds .stmt .whileStmt [.one .expr, .one .stmt] :=
  builds fun h => h.whole (.seq .expr <| .seq .stmt .pure)

instance doStmt : Builds .stmt .doStmt [.one .stmt, .one .expr] :=
  builds fun h => h.whole (.seq .stmt <| .seq .expr .pure)

instance forEachStmt : Builds .stmt .forEachStmt [.one .formalParameter, .one .expr, .one .stmt] :=
  builds fun h => h.whole (.part fun _ => .seq .expr <| .seq .stmt .pure)

instance forInit : Builds .forInit .forInit [.many .expr] := builds fun h => .inr h.filled

/-- A loop whose start declares its variables. -/
instance forVariables : Builds .forInit .forInit [.one .localVariables] := builds fun h => .inl h.filled

instance forUpdate : Builds .forUpdate .forUpdate [.many .expr] := builds_row

instance forStmt : Builds .stmt .forStmt [.one .forInit, .opt .expr, .one .forUpdate, .one .stmt] := by
  refine builds fun h => h.whole (.expect fun d hd => .lift ?_ fun start _ => ?_)
  · rcases hd.reads with hone | hmany
    · exact Over.within ⟨hd.ne_error, hone⟩ (.optional_some fun e he => .lift he.reads fun _ _ =>
        .bind .done fun _ _ => .pure)
    · exact Over.within ⟨hd.ne_error, hmany⟩ (.optional_none (by decide) (.rest fun _ hes =>
        .lift (succeeds_eachIn hes.parts) fun _ _ => .pure))
  · obtain ⟨declaration, start⟩ := start
    refine .opt (.peek_some fun e he => .ite_neg (he.ne (by decide)) (.seq .expr <| .step ?_))
      (.peek_some fun e he => .ite_pos (List.mem_singleton.1 he.kind) (.step ?_))
    all_goals
      exact .expect fun u hu => .below hu fun _ hes =>
        .lift (succeeds_eachIn hes.parts) fun _ _ => .seq .stmt .pure

instance synchronizedStmt : Builds .stmt .synchronizedStmt [.one .expr, .one .block] :=
  builds fun h => h.whole (.seq .expr <| .part fun _ => .pure)

instance labeledStmt : Builds .stmt .labeledStmt [.one .identifier, .one .stmt] :=
  builds fun h => h.whole (.part fun _ => .seq .stmt .pure)

instance breakStmt : Builds .stmt .breakStmt [.opt .identifier] :=
  builds fun h => .map (h.whole (.optional rfl (fun _ _ => .pure) .pure))

instance continueStmt : Builds .stmt .continueStmt [.opt .identifier] :=
  builds fun h => .map (h.whole (.optional rfl (fun _ _ => .pure) .pure))

instance returnStmt : Builds .stmt .returnStmt [.opt .expr] :=
  builds fun h => h.whole (.seq .optionalExpr .pure)

instance throwStmt : Builds .stmt .throwStmt [.one .expr] :=
  builds fun h => h.whole (.seq .expr .pure)

instance assertStmt : Builds .stmt .assertStmt [.one .expr, .opt .expr] :=
  builds fun h => h.whole (.seq .expr <| .seq .optionalExpr .pure)

/-- A variable declared before as a resource. -/
instance resourceExpr : Builds .resource .resource [.one .expr] :=
  builds fun h => h.whole (.optional_none (by decide) (.seq .expr .pure))

instance resource : Builds .resource .resource [.one .modifiers, .one .type, .one .identifier, .one .expr] :=
  builds fun h => h.whole (.optional_some fun _ hd => .lift (hd.reads _) fun _ _ =>
    .part fun _ => .part fun _ => .seq .expr .pure)

instance resourceSpec : Builds .resourceSpec .resourceSpec [.many .resource] := builds_row

instance catchType : Builds .catchType .catchType [.some .classType] :=
  builds fun h => (succeeds_classTypeList h).bind fun _ _ => .ok _

instance catchClause : Builds .catchClause .catchClause
    [.one .modifiers, .one .catchType, .one .identifier, .one .block] :=
  builds fun h => h.whole (.expect fun _ hd => .lift (hd.reads _) fun _ _ =>
    .part fun _ => .part fun _ => .part fun _ => .pure)

instance finallyClause : Builds .finallyClause .finallyClause [.one .block] := builds_row

instance tryStmt : Builds .stmt .tryStmt
    [.opt .resourceSpec, .one .block, .many .catchClause, .opt .finallyClause] := by
  refine builds fun h => h.whole (.optional rfl (fun _ hd => .below hd fun _ hds =>
    .lift (succeeds_each hds.parts) fun _ _ => ?_) (.step ?_))
  all_goals
    exact .part fun _ => .many rfl rfl fun _ hcs => .lift (succeeds_each hcs) fun _ _ =>
      .optional rfl (fun _ hd => .lift (hd.over.whole (.expect fun _ he =>
        .result he.reads)) fun _ _ => .step .pure) (.step .pure)

theorem tokenKind_nodeOf {l : Cst.Label} {w : Token} (h : l.token = some w) (k : Cst.Kind) (ds : List Decorated) :
    (nodeOf k l ds).branch.tokenKind = w.kind := by
  change (l.token.map (·.kind)).getD .eof = w.kind
  rw [h]
  rfl

/-- What a label is read as depends on its token. -/
theorem fits_case {l : Cst.Label} {w : Token} {t : Cst} (hk : l.kind = .switchLabel) (htoken : l.token = some w)
    (hw : w.kind = .kwCase) (ht : Fits .expr t) : Fits .switchLabel (.node l [t]) := by
  refine ⟨List.mem_singleton.2 hk, fun hsound => ?_⟩
  have hpart := ht.part (hsound.child (List.mem_singleton_self t))
  have hover : Over [.one .expr] (nodeOf .switchLabel l [decorate t]).branch :=
    ⟨(show Cst.Kind.switchLabel ≠ .error by decide), _, [], rfl, hpart, rfl⟩
  rw [decorate_eq_nodeOf hk]
  exact hover.whole (.ite_pos ((tokenKind_nodeOf htoken _ _).trans hw) (.seq .expr .pure))

theorem fits_default {l : Cst.Label} {w : Token} (hk : l.kind = .switchLabel) (htoken : l.token = some w)
    (hw : w.kind ≠ .kwCase) : Fits .switchLabel (.node l []) := by
  refine ⟨List.mem_singleton.2 hk, fun _ => ?_⟩
  have hover : Over [] (nodeOf .switchLabel l []).branch := ⟨(show Cst.Kind.switchLabel ≠ .error by decide), rfl⟩
  rw [decorate_eq_nodeOf hk]
  exact hover.whole (.ite_neg (tokenKind_nodeOf htoken _ _ ▸ hw) .pure)

instance switchGroup : Builds .switchGroup .switchGroup [.some .switchLabel, .many .stmt] := by
  refine builds fun h => h.within (.some rfl (by decide) fun _ hls => ?_)
  exact .lift (succeeds_each hls.2) fun _ hlabels => .ite_neg (isEmpty_each hlabels hls.1)
    (.rest fun _ hss => .lift (succeeds_eachIn hss.parts) fun _ _ => .pure)

instance switchStmt : Builds .stmt .switchStmt [.one .expr, .many .switchGroup] :=
  builds fun h => h.within (.seq .expr <| .rest fun _ hgs =>
    .lift (succeeds_each hgs.parts) fun _ _ => .pure)

/-! ## Declarations -/

instance baseClass : Builds .baseClass .extendsClause [.one .classType] := by
  refine builds fun {l ds} h => ?_
  obtain ⟨u, _, hds, hu, rfl⟩ := h.filled
  obtain ⟨c, hc⟩ := hu.reads []
  have hlist : classTypeList (nodeOf .extendsClause l ds).branch = .ok [c] := by
    refine Result.bind_ok.2 ⟨[u], hds ▸ h.children_eq, ?_⟩
    rw [each, List.mapM_cons]
    exact Result.bind_ok.2 ⟨c, (if_pos (List.mem_singleton.1 hu.kind)).trans hc, rfl⟩
  exact ⟨c, Result.bind_ok.2 ⟨_, hlist, rfl⟩⟩

instance baseInterfaces : Builds .baseInterfaces .extendsClause [.some .classType] :=
  builds fun h => succeeds_classTypeList h

instance ofClause : Builds .ofClause .ofClause [.some .classType] :=
  builds fun h => succeeds_classTypeList h

instance classBody : Builds .classBody .classBody [.many .member] := builds_row

instance interfaceBody : Builds .interfaceBody .interfaceBody [.many .member] := builds_row

instance annotationTypeBody : Builds .annotationTypeBody .annotationTypeBody [.many .member] := builds_row

theorem succeeds_members {kinds : List Cst.Kind} {d : Decorated} (hd : Part (.row kinds [.many .member]) d) :
    Succeeds (members d.branch) := hd.over.children fun hds => succeeds_eachIn hds.parts

instance classDecl : Builds .typeDecl .classDecl
    [.one .modifiers, .one .identifier, .opt .typeParameters, .opt .baseClass, .opt .ofClause, .one .classBody] := by
  refine builds fun h => h.whole (.seq .header <| .expect fun _ _ =>
    .seq (.optionalTypeParameters rfl) <|
    .optional rfl (fun _ hb => .wrapped hb.reads fun _ => ?_) (.step ?_))
  all_goals
    refine .optional rfl (fun _ hi => .lift hi.reads fun _ _ => ?_) (.step ?_) <;>
      exact .expect fun _ hd => .lift (succeeds_members hd) fun _ _ => .pure

instance interfaceDecl : Builds .typeDecl .interfaceDecl
    [.one .modifiers, .one .identifier, .opt .typeParameters, .opt .baseInterfaces, .one .interfaceBody] := by
  refine builds fun h => h.whole (.seq .header <| .expect fun _ _ =>
    .seq (.optionalTypeParameters rfl) <|
    .optional rfl (fun _ hb => .lift hb.reads fun _ _ => ?_) (.step ?_))
  all_goals exact .expect fun _ hd => .lift (succeeds_members hd) fun _ _ => .pure

instance annotationTypeDecl : Builds .typeDecl .annotationTypeDecl
    [.one .modifiers, .one .identifier, .one .annotationTypeBody] :=
  builds fun h => h.whole (.seq .header <| .expect fun _ _ =>
    .expect fun _ hd => .lift (succeeds_members hd) fun _ _ => .pure)

instance throwsClause : Builds .throwsClause .throwsClause [.some .classType] :=
  builds fun h => (succeeds_classTypeList h).bind fun _ _ => .ok _

/-- The parts of a method. -/
abbrev methodParts : List Item :=
  [.one .modifiers, .opt .typeParameters, .one .resultType, .one .identifier, .one .formalParameters,
  .opt .dims, .opt .throwsClause, .opt .block]

theorem succeeds_methodDecl {t : Branch} (h : Over methodParts t) (inInterface : Bool) :
    Succeeds (Reading.methodDecl inInterface t) :=
  h.whole (.seq .header <| .seq (.optionalTypeParameters rfl) <| .part fun _ => .part fun _ =>
    .part fun _ => .seq (.optionalDims rfl) <| .seq (.optionalExceptions rfl) <|
    .optional rfl (fun _ hd => .wrapped hd.reads fun _ => .pure) (.step .pure))

instance methodDecl : Builds .member .methodDecl methodParts := builds fun h => succeeds_methodDecl h false

instance interfaceMethodDecl : Builds .member .interfaceMethodDecl methodParts :=
  builds fun h => succeeds_methodDecl h true

instance fieldDecl : Builds .member .fieldDecl [.one .modifiers, .one .type, .some .declarator] :=
  builds fun h => .map (h.within (.seq .header <| .part fun _ => .seq .declarators .pure))

instance constantDecl : Builds .member .constantDecl [.one .modifiers, .one .type, .some .declarator] :=
  builds fun h => .map (h.within (.seq .header <| .part fun _ => .seq .declarators .pure))

instance defaultValue : Builds .defaultValue .defaultValue [.one .elementValue] := builds_row

instance annotationMemberDecl : Builds .member .annotationMemberDecl
    [.one .modifiers, .one .type, .one .identifier, .opt .dims, .opt .defaultValue] :=
  builds fun h => h.whole (.seq .header <| .part fun _ => .part fun _ =>
    .seq (.optionalDims rfl) <| .optional rfl
      (fun _ hd => .lift (hd.over.whole .child) fun _ _ => .step .pure) (.step .pure))

/-- A call of another constructor. -/
instance constructorCall : Builds .constructorCall .explicitConstructorInvocation
    [.opt .typeArguments, .one .selfWord, .one .arguments] :=
  builds fun h => h.whole (.optional_none rfl (.step (.seq (.optionalTypeArguments rfl) <|
    .expect fun _ _ => .ite_neg (by simp) (.part fun _ => .pure))))

/-- A call of the constructor of an inner class's base. -/
instance scopedConstructorCall : Builds .constructorCall .explicitConstructorInvocation
    [.one .constructorScope, .opt .typeArguments, .one (.token .superRef), .one .arguments] :=
  builds fun h => h.whole (.optional_some fun _ hd => .wrapped hd.reads fun _ =>
    .seq (.optionalTypeArguments rfl) <| .expectOf (by decide) fun _ hw =>
      .ite_neg (by simp [List.mem_singleton.1 hw.kind]) (.part fun _ => .pure))

instance constructorBody : Builds .constructorBody .constructorBody [.opt .constructorCall, .many .stmt] :=
  builds_row

instance constructorDecl : Builds .member .constructorDecl [.one .modifiers, .opt .typeParameters, .one .identifier,
    .one .formalParameters, .opt .throwsClause, .one .constructorBody] := by
  refine builds fun h => h.whole (.seq .header <| .seq (.optionalTypeParameters rfl) <|
    .part fun _ => .part fun _ => .seq (.optionalExceptions rfl) <| .expect fun d hd =>
    .lift (hd.over.within (.optional (by decide) (fun _ he => .wrapped he.reads fun _ => ?_)
      (.step ?_))) fun _ _ => .pure)
  all_goals exact .rest fun _ hss => .lift (succeeds_eachIn hss.parts) fun _ _ => .pure

instance initializer : Builds .member .initializer [.one .block] :=
  builds fun h => h.whole (.optional_none rfl (.part fun _ => .pure))

instance staticInitializer : Builds .member .initializer [.one .staticWord, .one .block] :=
  builds fun h => h.whole (.optional_some fun _ hw =>
    .ite_neg (not_not.2 hw.reads) (.part fun _ => .pure))

/-! ## Files -/

instance packageDecl : Builds .packageDecl .packageDecl [.many .annotationUse, .one .qualifiedName] :=
  builds fun h => h.whole (.seq (.leadingAnnotations rfl) <| .part fun _ => .pure)

instance importDecl : Builds .importDecl .importDecl
    [.opt (.token .modifier), .one .qualifiedName, .opt .operator] := by
  refine builds fun h => h.whole (.optional rfl (fun _ _ => .part fun _ => ?_) (.part fun _ => ?_))
  all_goals exact .optional rfl (fun _ _ => .pure) .pure

/-- A whole file. -/
instance compilationUnit : Builds (.by [.compilationUnit] Reading.compilationUnit) .compilationUnit
    [.opt .packageDecl, .many .importDecl, .one .typeDecl] := by
  refine builds fun h => h.whole (.optional rfl (fun _ hp => .lift hp.reads fun _ _ => ?_) (.step ?_))
  all_goals
    exact .many rfl rfl fun _ his => .lift (succeeds_each his) fun _ _ => .part fun _ => .pure

end Builds

end Ast.Reading

end KiteCompiler
