import KiteCompiler.Java.Printer
import KiteCompiler.Proofs.Declarators
import KiteCompiler.Proofs.Reading.Inversion

/-!
# Array dimensions

A type is written as annotations, an element type and dimensions, and a name can have dimensions of its own behind it.
Both are read off the nodes for them, level by level with their annotations (`Dimensions`, `Element`). In Java, whatever
has the name has a type of the same element with the dimensions behind the name in front of those of the written type
(`print_in_own_dims`).
-/

namespace KiteCompiler

/-- The variables of a declaration with their type. -/
def Java.typed : Java .variableDecl → List (Java .type × Java .declarator)
  | variableDecl _ t vs => vs.toList.map (t, ·)

/-- The type of a parameter, of the result of a method or of an element of an annotation type. -/
def Java.types : {c : Java.Category} → Java c → List (Java .type)
  | _, parameter _ (.present t) _ _ _ | _, methodDecl _ _ t _ _ _ _ | _, annotationMemberDecl _ t _ _ => [t]
  | _, _ => []

theorem Java.print_ofList {c : Java.Category} (as : List (Java c)) : (ofList as).print = as.map print := by
  induction as with
  | nil => rfl
  | cons a as ih => exact congrArg (a.print :: ·) ih

namespace Ast

/-! ## What is written -/

/-- Dimensions are written as nothing or as one node, which has a node with annotations for each of them. -/
inductive Dimensions : List Decorated → List (Ast .dim) → Prop
  | none : Dimensions [] []
  | some {d : Decorated} {dims : List (Ast .dim)} (hd : d.kind = .dims)
      (hdims : List.Forall₂ (fun (c : Decorated) (a : Ast .dim) =>
      c.kind = .dim ∧ ∃ as, Reading.annotations c.children = .ok as ∧ a = .dim c.place as)
        d.children dims) : Dimensions [d] dims

/-- An element type is written as annotations and a node. The annotations are those of a primitive type; with a class
type they go to its last segment, in front of its own, and nothing else changes. -/
inductive Element (p : Place) (base : Decorated) : List (Ast .annotationUse) → Ast .type → Prop
  | primitive {outer : List (Ast .annotationUse)} (hbase : base.kind = .primitiveType) :
      Element p base outer (.primitive p (ofList outer) base.literal)
  | classType {outer own : List (Ast .annotationUse)} {q : Place} {scope : Ast (.option .classType)} {n : Text}
      {arguments : Ast (.list .type)} {diamond : Bool} (hbase : base.kind = .classType)
      (hown : Reading.classType base [] = .ok (.segment q scope (ofList own) n arguments diamond)) :
      Element p base outer (.classRef (.segment q scope (ofList (outer ++ own)) n arguments diamond))

/-- A node for a type of the element with the dimensions. -/
def Written (t : Branch) (element : Ast .type) (dims : List (Ast .dim)) : Prop :=
  ∃ before base behind outer, t.children = before ++ base :: behind ∧ Reading.annotations before = .ok (ofList outer) ∧
    Element t.place base outer element ∧ Dimensions behind dims

namespace Reading

/-- The step that reads dimensions behind a name or in a type. -/
theorem optionalDims_ok {c c' : Cursor} {ds : List (Ast .dim)} (h : optionalDims c = (.ok ds, c')) :
    ∃ nodes, c.rest = nodes ++ c'.rest ∧ Dimensions nodes ds := by
  obtain ⟨o, c₁, ho, hd⟩ := bind_ok.1 h
  rcases optional_ok ho with ⟨d, rfl, hk, rfl⟩ | ⟨rfl, rfl, -⟩
  · obtain ⟨hdims, rfl⟩ := lift_ok.1 hd
    refine ⟨[d], rfl, .some (List.mem_singleton.1 hk) ((mapM_ok (of_children hdims)).imp fun c a hc => ?_)⟩
    obtain ⟨hk, hc⟩ := of_kind_test hc
    obtain ⟨as, has, hc⟩ := Result.bind_ok.1 (of_children hc)
    cases hc
    exact ⟨hk, as, has, rfl⟩
  · obtain ⟨rfl, rfl⟩ := pure_ok.1 hd
    exact ⟨[], rfl, .none⟩

/-- The last segment gets the annotations before the type, in front of its own. -/
theorem classTypeElement_outer {p : Place} {outer : List (Ast .annotationUse)} {scope : Ast (.option .classType)}
    {t : Branch} {v : Ast .classType} (h : classTypeElement (some (p, outer)) scope t = .ok v) :
    ∃ own n arguments diamond,
      classTypeElement (some (p, [])) scope t = .ok (.segment p scope (ofList own) n arguments diamond) ∧
        v = .segment p scope (ofList (outer ++ own)) n arguments diamond := by
  unfold classTypeElement at h ⊢
  obtain ⟨hk, h⟩ := of_kind_test h
  obtain ⟨herror, c', h, hrest⟩ := whole_ok.1 h
  obtain ⟨as, c₁, has, h⟩ := bind_ok.1 h
  obtain ⟨d, c₂, hd, h⟩ := bind_ok.1 h
  obtain ⟨n, c₃, hn, h⟩ := bind_ok.1 h
  obtain ⟨o, c₄, ho, h⟩ := bind_ok.1 h
  rw [if_pos hk]
  refine ⟨as.toList, n, ?_⟩
  cases o with
  | some args =>
    obtain ⟨ts, c₅, hts, h⟩ := bind_ok.1 h
    obtain ⟨_, _, hpair, h⟩ := bind_ok.1 h
    obtain ⟨rfl, rfl⟩ := pure_ok.1 hpair
    obtain ⟨rfl, rfl⟩ := pure_ok.1 h
    refine ⟨ofList ts, ts.isEmpty, whole_ok.2 ⟨herror, _, ?_, hrest⟩, rfl⟩
    exact bind_ok.2 ⟨as, c₁, has, bind_ok.2 ⟨d, c₂, hd, bind_ok.2
      ⟨n, c₃, hn, bind_ok.2 ⟨_, c₄, ho, bind_ok.2 ⟨ts, _, hts, rfl⟩⟩⟩⟩⟩
  | none =>
    obtain ⟨_, _, hpair, h⟩ := bind_ok.1 h
    obtain ⟨rfl, rfl⟩ := pure_ok.1 hpair
    obtain ⟨rfl, rfl⟩ := pure_ok.1 h
    refine ⟨.nil, false, whole_ok.2 ⟨herror, _, ?_, hrest⟩, rfl⟩
    exact bind_ok.2 ⟨as, c₁, has, bind_ok.2 ⟨d, c₂, hd, bind_ok.2 ⟨n, c₃, hn, bind_ok.2 ⟨_, _, ho, rfl⟩⟩⟩⟩

theorem classTypeElements_outer {p : Place} {outer : List (Ast .annotationUse)} {scope : Ast (.option .classType)}
    {first : Decorated} {more : List Decorated} {v : Ast .classType}
    (h : classTypeElements p outer scope first more = .ok v) : ∃ scope' own n arguments diamond,
      classTypeElements p [] scope first more = .ok (.segment p scope' (ofList own) n arguments diamond) ∧
        v = .segment p scope' (ofList (outer ++ own)) n arguments diamond := by
  induction more generalizing first scope with
  | nil => exact ⟨scope, classTypeElement_outer h⟩
  | cons next more ih =>
    obtain ⟨segment, hsegment, h⟩ := Result.bind_ok.1 h
    obtain ⟨scope', own, n, arguments, diamond, hown, hv⟩ := ih h
    exact ⟨scope', own, n, arguments, diamond, Result.bind_ok.2 ⟨segment, hsegment, hown⟩, hv⟩

theorem classType_outer {t : Branch} {outer : List (Ast .annotationUse)} {v : Ast .classType}
    (h : classType t outer = .ok v) :
    t.kind = .classType ∧ ∃ p scope own n arguments diamond,
      classType t [] = .ok (.segment p scope (ofList own) n arguments diamond) ∧
        v = .segment p scope (ofList (outer ++ own)) n arguments diamond := by
  unfold classType at h ⊢
  obtain ⟨hk, h⟩ := of_kind_test h
  rw [if_pos hk]
  obtain ⟨cs, hcs, h⟩ := Result.bind_ok.1 h
  cases cs with
  | nil => exact nomatch h
  | cons first more =>
    obtain ⟨scope, own, n, arguments, diamond, hown, hv⟩ := classTypeElements_outer h
    exact ⟨hk, t.place, scope, own, n, arguments, diamond, Result.bind_ok.2 ⟨_, hcs, hown⟩, hv⟩

/-- A type is read as what is written. -/
theorem written_of_type {t : Branch} {T : Ast .type} (h : type t = .ok T) :
    ∃ element dims, Written t element dims ∧ T = element.withDims dims := by
  obtain ⟨-, h⟩ := of_kind_test h
  obtain ⟨-, c', h, hrest⟩ := whole_ok.1 h
  obtain ⟨as, c₁, has, h⟩ := bind_ok.1 h
  obtain ⟨nodes, c₂, hnodes, hlift⟩ := bind_ok.1 has
  obtain ⟨rfl, rfl⟩ := many_ok.1 hnodes
  obtain ⟨hbefore, rfl⟩ := lift_ok.1 hlift
  obtain ⟨base, c₃, hexpect, h⟩ := bind_ok.1 h
  obtain ⟨-, hbase⟩ := expect_ok.1 hexpect
  rw [← ofList_toList as] at hbefore
  have hend {element : Ast .type} (helement : Element t.place base as.toList element)
      (h : (optionalDims >>= fun ds => pure (element.withDims ds) : Reading (Ast .type)) c₃ = (.ok T, c')) :
      ∃ element dims, Written t element dims ∧ T = element.withDims dims := by
    obtain ⟨ds, c₄, hds, h⟩ := bind_ok.1 h
    obtain ⟨rfl, rfl⟩ := pure_ok.1 h
    obtain ⟨behind, hbehind, hds⟩ := optionalDims_ok hds
    rw [hrest, List.append_nil] at hbehind
    refine ⟨element, ds, ⟨_, base, behind, as.toList, ?_, hbefore, helement, hds⟩, rfl⟩
    rw [← hbehind, ← show _ = base :: c₃.rest from congrArg Cursor.rest hbase, List.takeWhile_append_dropWhile]
  split at h
  · next hprimitive =>
    obtain ⟨_, _, hpure, h⟩ := bind_ok.1 h
    obtain ⟨rfl, rfl⟩ := pure_ok.1 hpure
    refine hend ?_ h
    nth_rewrite 2 [← ofList_toList as]
    exact .primitive hprimitive
  · obtain ⟨v, _, hv, h⟩ := bind_ok.1 h
    obtain ⟨hclass, rfl⟩ := lift_ok.1 hv
    obtain ⟨_, _, hpure, h⟩ := bind_ok.1 h
    obtain ⟨rfl, rfl⟩ := pure_ok.1 hpure
    obtain ⟨hk, p, scope, own, n, arguments, diamond, hown, rfl⟩ := classType_outer hclass
    exact hend (.classType hk hown) h

end Reading

/-! ## What becomes of it -/

/-- A dimension in Java text: its annotations in order, then brackets. -/
def printedDim : Ast .dim → Doc
  | dim _ as => Java.annotated (as.toList.map fun a => a.lower.print) (.text "[]")

/-- The Java type of what has a written type, and dimensions of its own behind the name. -/
def javaType (t : Ast .type) (own : List (Ast .dim)) : Java .type := Java.withDims (own.map lower) t.lower

/-- In a group for one declaration, every variable has the dimensions of the group. -/
theorem Division.flatMap_ownDims {vs g : List (Ast .declarator)} {groups : List (List (Ast .declarator))}
    (h : Division vs groups) (hg : g ∈ groups) {v : Ast .declarator} (hv : v ∈ g) : g.flatMap ownDims = v.ownDims := by
  by_cases hplain : ∀ w ∈ g, w.ownDims = []
  · rw [List.flatMap_eq_nil_iff.2 hplain, hplain v hv]
  · push Not at hplain
    obtain ⟨w, hw, hdims⟩ := hplain
    obtain rfl := h.alone g hg w hw hdims
    rw [List.mem_singleton.1 hv, List.flatMap_singleton]

theorem typed_variableDecl {role : VariableRole} (p : Place) (h : Ast .header) (t : Ast .type)
    (vs : Ast (.list .declarator)) : (variableDecl p h t vs : Ast (.variableDecl role)).lower.flatMap Java.typed =
      vs.toList.map fun v => (t.javaType v.ownDims, v.bare) := by
  obtain ⟨groups, hdivision, hgroups⟩ := exists_division vs.toList
  change (Java.declarations h.lower t.lower vs.lower).flatMap Java.typed = _
  rw [Java.declarations, lower_eq_map, hgroups, List.map_map, List.flatMap_map]
  simp only [Function.comp_apply, Java.typed, Java.toList_ofList, List.map_map]
  conv_rhs => rw [← hdivision.flatten, List.map_flatten, ← List.flatMap_def]
  refine List.flatMap_congr fun g hg => List.map_congr_left fun v hv => ?_
  rw [Function.comp_apply, hdivision.flatMap_ownDims hg hv, javaType]

/-- An element type has no dimensions in Java. -/
theorem Element.lower {p : Place} {base : Decorated} {outer : List (Ast .annotationUse)} {t : Ast .type}
    (h : Element p base outer t) : ∃ e : Java .element, t.lower = Java.plain e := by
  cases h with
  | primitive _ => exact ⟨_, rfl⟩
  | classType _ _ => exact ⟨_, rfl⟩

theorem print_dim (d : Ast .dim) : (d.lower : Java .dim).print = d.printedDim := by
  cases d with
  | dim p as =>
    change Java.annotated (Java.ofList as.lower : Java (.list .annotationUse)).print (.text "[]") = _
    rw [Java.print_ofList, lower_eq_map, List.map_map]
    rfl

theorem print_javaType {element : Ast .type} {e : Java .element} (he : element.lower = Java.plain e)
    (own dims : List (Ast .dim)) :
    ((element.withDims dims).javaType own).print = e.print ++ Doc.concat ((own ++ dims).map printedDim) := by
  rw [javaType, lower_withDims, Java.withDims_withDims, he, Java.plain, Java.withDims, ← List.map_append, Java.toList,
    List.append_nil]
  change e.print ++ Doc.concat (Java.ofList ((own ++ dims).map lower) : Java (.list .dim)).print = _
  rw [Java.print_ofList, List.map_map]
  exact congrArg (e.print ++ Doc.concat ·) (List.map_congr_left fun d _ => print_dim d)

/-! ## What is declared -/

open Reading (decorate)

/-- The node for the type is that of a written type or says that there is no result. -/
def WrittenAt (type : Cst) (element : Ast .type) (dims : List (Ast .dim)) : Prop :=
  type.kind = .type ∧ Written (decorate type) element dims ∨
    type.kind = .voidType ∧ element = .void (decorate type).place ∧ dims = []

/-- The nodes for the type and for the dimensions behind the name give this type in Java: the element, then the
dimensions behind the name, then those of the type, each with its annotations. -/
def Spelled (type : Cst) (behind : List Cst) (T : Java .type) : Prop :=
  ∃ (element : Ast .type) (e : Java .element) (dims own : List (Ast .dim)), WrittenAt type element dims ∧
    element.lower = Java.plain e ∧ Dimensions (behind.map decorate) own ∧
      T.print = e.print ++ Doc.concat ((own ++ dims).map printedDim)

/-- The nodes for dimensions among children: those behind the name, since those of a type are below its node. -/
def behindName (ts : List Cst) : List Cst := ts.filter fun t => Cst.kind t = .dims

/-- There is one type, which the children of a node spell. -/
def Declares (ts : List Cst) (types : List (Java .type)) : Prop :=
  ∃ type ∈ ts, ∃ T, types = [T] ∧ Spelled type (behindName ts) T

/-- Each variable of the declaration, in order, has its type in Java from the node for the type and its own node. -/
def DeclaresEach {role : VariableRole} (ts : List Cst) (a : Ast (.variableDecl role)) : Prop :=
  ∃ header type nodes, ts = header :: type :: nodes ∧
    List.Forall₂ (fun (t : Cst) (x : Java .type × Java .declarator) => Spelled type (behindName t.children) x.1 ∧
      ∃ n e, t.name? = some n ∧ x.2 = .declarator n e) nodes (a.lower.flatMap Java.typed)

namespace Reading

/-- The readings of the node are those of its tree. -/
def Genuine (d : Decorated) : Prop := decorate d.tree = d

theorem genuine_decorate (t : Cst) : Genuine (decorate t) := by
  rw [Genuine, Decorated.tree_eq_source, source_decorate]

theorem children_decorate (t : Cst) : (decorate t).branch.children = t.children.map decorate := by
  cases t
  rw [decorate_node]
  rfl

theorem genuine_children (t : Cst) : ∀ d ∈ (decorate t).branch.children, Genuine d := by
  rw [children_decorate]
  exact List.forall_mem_map.2 fun t _ => genuine_decorate t

theorem tree_children (t : Cst) : (decorate t).branch.children.map Decorated.tree = t.children := by
  rw [children_decorate, List.map_map, Decorated.tree_eq_source]
  exact (List.map_congr_left fun t _ => source_decorate t).trans (List.map_id _)

theorem decorate_trees {ds : List Decorated} (h : ∀ d ∈ ds, Genuine d) : (ds.map Decorated.tree).map decorate = ds := by
  rw [List.map_map]
  exact (List.map_congr_left h).trans (List.map_id _)

theorem Genuine.read {d : Decorated} (h : Genuine d) (r : Role) : d.read r = readings d.branch r := by
  rw [← show decorate d.tree = d from h]
  exact read_decorate _ r

theorem behindName_cons {d : Decorated} {us : List Cst} {k : Cst.Kind} (hd : d.kind = k)
    (hk : (k != .dims) = true) : behindName (d.branch.tree :: us) = behindName us :=
  List.filter_cons_of_neg (by rw [show Cst.kind d.branch.tree = k from hd]; simpa using hk)

theorem behindName_append (us vs : List Cst) : behindName (us ++ vs) = behindName us ++ behindName vs :=
  List.filter_append ..

theorem reads_behindName : Reads Genuine false optionalDims fun us own =>
    Dimensions (us.map decorate) own ∧ behindName us = us := by
  refine ⟨fun hc h => ⟨?_, nofun⟩⟩
  obtain ⟨nodes, hrest, hnodes⟩ := optionalDims_ok h
  have hgenuine : ∀ d ∈ nodes, Genuine d := fun d hd => hc d (hrest ▸ List.mem_append_left _ hd)
  refine ⟨nodes, hrest, (decorate_trees hgenuine).symm ▸ hnodes, ?_⟩
  cases hnodes with
  | none => rfl
  | some hd _ => exact List.filter_cons_of_pos (decide_eq_true hd)

/-- The modifiers that come next. -/
theorem Reads.modifiers {P : Decorated → Prop} {all : Bool} {β : Type} {K : List Cst → β → Prop}
    {complete : List Modifier → List Modifier} {f : Ast .header → Reading β}
    (hf : ∀ d h, Decorated.kind d = .modifiers → Reads P all (f h) fun vs => K (d.branch.tree :: vs)) :
    Reads P all ((do Reading.header complete (← Reading.expect [.modifiers])) >>= f) K := by
  rw [bind_assoc]
  exact .one fun d _ hk => .result fun h _ => hf _ h hk

theorem spelled_type {d : Decorated} {type : Ast .type} {behind : List Cst} {own : List (Ast .dim)} (hd : Genuine d)
    (hk : d.kind = .type) (htype : d.read .type = .ok type) (hown : Dimensions (behind.map decorate) own) :
    Spelled d.branch.tree behind (type.javaType own) := by
  rw [hd.read] at htype
  obtain ⟨element, dims, hwritten, rfl⟩ := written_of_type htype
  obtain ⟨-, base, -, outer, -, -, helement, -⟩ := id hwritten
  obtain ⟨e, he⟩ := helement.lower
  exact ⟨element, e, dims, own, .inl ⟨hk, hd.symm ▸ hwritten⟩, he, hown, print_javaType he own dims⟩

theorem spelled_resultType {d : Decorated} {type : Ast .type} {behind : List Cst} {own : List (Ast .dim)}
    (hd : Genuine d) (hk : d.kind ∈ [Cst.Kind.type, .voidType]) (htype : resultType d = .ok type)
    (hown : Dimensions (behind.map decorate) own) : Spelled d.branch.tree behind (type.javaType own) := by
  unfold resultType at htype
  split at htype
  · next hvoid =>
    cases htype
    refine ⟨.void d.place, .void, [], own, .inr ⟨hvoid, ?_, rfl⟩, rfl, hown, print_javaType rfl own []⟩
    exact congrArg (fun d => Ast.void (Decorated.place d)) hd.symm
  · next hvoid => exact spelled_type hd (by simpa [hvoid] using hk) htype hown

/-- A part that can be missing and is not behind the name. -/
theorem reads_elsewhere {α β : Type} {all : Bool} {k : Cst.Kind} {m : Option Decorated → Reading β}
    {s : Decorated → Reading α} {a₀ : α} {f : α → Reading β} {K : List Cst → β → Prop} (hk : (k != .dims) = true)
    (hsome : ∀ d, m (some d) = s d >>= f) (hnone : m none = pure a₀ >>= f)
    (hs : ∀ d, Reads Genuine false (s d) fun us _ => us = [])
    (hf : ∀ us a, behindName us = [] → Reads Genuine all (f a) fun vs => K (us ++ vs)) :
    Reads Genuine all (optional [k] >>= m) K := by
  refine .part (J := fun us _ => behindName us = []) hsome hnone (fun d _ hd => (hs d).mono fun us _ hus => ?_) rfl hf
  rw [hus]
  exact behindName_cons hd hk

variable {t : Cst}

theorem kind_ne_dims {d : Decorated} {e : Ast .expr} (hd : Genuine d) (h : d.read .expr = .ok e) :
    (d.kind != .dims) = true := by
  refine bne_iff_ne.2 fun hk => ?_
  rw [hd.read] at h
  change expr d.branch = .ok e at h
  rw [expr, show d.branch.kind = .dims from hk] at h
  cases h

/-- A variable has the dimensions of its node, and its name. -/
theorem declarator_ok {v : Ast .declarator} (h : declarator (decorate t) = .ok v) :
    Dimensions ((behindName t.children).map decorate) v.ownDims ∧
      ∃ n e, t.name? = some n ∧ v.bare = .declarator n e := by
  obtain ⟨hk, h⟩ := of_kind_test h
  have hname : t.name? = t.children.head?.map Cst.literal := by
    rw [Cst.name?, show t.kind = .variableDeclarator by rw [← kind_decorate]; exact hk]
  rw [hname, ← tree_children t]
  refine Reads.whole (J := fun us v => Dimensions ((behindName us).map decorate) v.ownDims ∧
      ∃ n e, us.head?.map Cst.literal = some n ∧ v.bare = .declarator n e) (genuine_children t)
    (.one fun n _ hn => .result fun name hid => .bind reads_behindName fun us own ⟨hown, hus⟩ => .peek fun o => ?_) h
  have hend {ws : List Cst} (hws : behindName ws = []) :
      Dimensions ((behindName (n.branch.tree :: (us ++ ws))).map decorate) (ofList own).toList := by
    rw [behindName_cons hn rfl, behindName_append, hus, hws, List.append_nil, toList_ofList]
    exact hown
  have hname : some (Cst.literal n.branch.tree) = some name := congrArg some (Except.ok.inj (of_kind_test hid).2)
  refine .ite (fun _ => .next fun d hd => .result fun e he => .pureBind (.pure ?_)) fun _ => .pureBind (.pure ?_)
  · exact ⟨hend (behindName_cons rfl (kind_ne_dims hd he)), name, _, hname, rfl⟩
  · exact ⟨hend rfl, name, _, hname, rfl⟩

theorem declares_formalParameter {v : Ast .parameter} (h : formalParameter (decorate t) = .ok v) :
    Declares t.children (v.lower : Java .parameter).types := by
  rw [← tree_children t]
  refine Reads.whole (J := fun us (v : Ast .parameter) => Declares us (v.lower : Java .parameter).types)
    (genuine_children t) (.modifiers fun m h hm => .one fun d hd hk => .result fun type htype => ?_) h
  refine reads_elsewhere rfl (fun _ => (bind_assoc _ _ _).symm) rfl
    (fun _ => .result fun _ _ => .wrapped fun _ _ => rfl) fun vs dots hvs =>
    .one fun n _ hn => .result fun _ _ => .last reads_behindName fun us own ⟨hown, hus⟩ => ?_
  refine ⟨d.tree, by simp, type.javaType own, ?_, ?_⟩
  · rw [javaType, ← lower_ofList]
    rfl
  · rw [behindName_cons hm rfl, behindName_cons hk rfl, behindName_append, hvs, List.nil_append,
      behindName_cons hn rfl, hus]
    exact spelled_type hd hk htype hown

theorem declares_methodDecl {inInterface : Bool} {v : Ast .member} (h : methodDecl inInterface (decorate t) = .ok v) :
    Declares t.children (v.lower.flatMap Java.types) := by
  rw [← tree_children t]
  refine Reads.whole (J := fun us (v : Ast .member) => Declares us (v.lower.flatMap Java.types)) (genuine_children t)
    (.modifiers fun m h hm => .bind (J := fun us _ => behindName us = []) ?_ fun xs ts hxs => ?_) h
  · refine .optional (fun d _ hk => .result fun _ _ => .result fun _ _ => .pure ?_) (.pure rfl)
    exact behindName_cons hk rfl
  refine .expect fun d hd hk => .result fun type htype => .one fun n _ hn => .result fun _ _ => .one fun ps _ hps =>
    .result fun _ _ =>
    .bind reads_behindName fun us own ⟨hown, hus⟩ => .bind (J := fun us _ => behindName us = []) ?_ fun ys es hys => ?_
  · refine .optional (fun d _ hk => .lift fun _ _ => ?_) (.pure rfl)
    exact behindName_cons hk rfl
  refine reads_elsewhere rfl (fun _ => rfl) rfl (fun _ => .wrapped fun _ _ => rfl) fun zs b hzs => .pure ?_
  refine ⟨d.tree, by simp, type.javaType own, ?_, ?_⟩
  · rw [javaType, ← lower_ofList]
    rfl
  · have hresult : (d.kind != .dims) = true := by
      rcases List.mem_pair.1 hk with hk | hk <;> rw [hk] <;> rfl
    rw [behindName_cons hm rfl, behindName_append, hxs, List.nil_append, behindName_cons rfl hresult,
      behindName_cons hn rfl, behindName_cons hps rfl, behindName_append, hus, behindName_append, hys, List.append_nil,
      hzs, List.append_nil, List.append_nil]
    exact spelled_resultType hd hk htype hown

theorem declares_annotationMemberDecl {v : Ast .member} (h : annotationMemberDecl (decorate t) = .ok v) :
    Declares t.children (v.lower.flatMap Java.types) := by
  rw [← tree_children t]
  refine Reads.whole (J := fun us (v : Ast .member) => Declares us (v.lower.flatMap Java.types)) (genuine_children t)
    (.modifiers fun m h hm => .one fun d hd hk => .result fun type htype => ?_) h
  refine .one fun n _ hn => .result fun _ _ => .bind reads_behindName fun us own ⟨hown, hus⟩ => ?_
  refine reads_elsewhere rfl (fun _ => (bind_assoc _ _ _).symm) rfl (fun _ => .result fun _ _ => .pure rfl)
    fun ys e hys => .pure ?_
  refine ⟨d.tree, by simp, type.javaType own, ?_, ?_⟩
  · rw [javaType, ← lower_ofList]
    rfl
  · rw [behindName_cons hm rfl, behindName_cons hk rfl, behindName_cons hn rfl, List.append_nil, behindName_append, hus,
      hys, List.append_nil]
    exact spelled_type hd hk htype hown

theorem reads_declared : Reads Genuine true declarators fun us ds =>
    List.Forall₂ (fun (t : Cst) v => declarator (decorate t) = .ok v) us ds.toList := by
  refine .rest fun ds hds => .result fun vs hvs => .ite (fun _ => .node fun _ => .fail) fun _ => .pure fun _ => ?_
  rw [toList_ofList]
  refine (List.forall₂_map_left_iff (R := fun (d : Decorated) v => declarator d = .ok v)).1 ?_
  rw [decorate_trees hds]
  exact mapM_ok hvs

/-- What the variables of a declaration are, from the reading of its children. -/
theorem declaresEach {role : VariableRole} {complete : List Modifier → List Modifier} {p : Place}
    {v : Ast (.variableDecl role)} (h : within (decorate t) (do
      let h ← (do Reading.header complete (← expect [.modifiers]))
      let type ← (← expect [.type]).read .type
      return .variableDecl p h type (← declarators)) = .ok v) : DeclaresEach t.children v := by
  rw [← tree_children t]
  refine Reads.within (genuine_children t) (.modifiers fun m h hm => .one fun d hd hk => .result fun type htype => ?_) h
  refine .last reads_declared fun us ds hds => ⟨m.tree, d.tree, us, rfl, ?_⟩
  rw [typed_variableDecl, List.forall₂_map_right_iff]
  refine hds.imp fun t v hv => ?_
  obtain ⟨hown, hname⟩ := declarator_ok hv
  exact ⟨spelled_type hd hk htype hown, hname⟩

end Reading

end Ast

end KiteCompiler
