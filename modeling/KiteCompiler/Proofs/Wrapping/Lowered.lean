import KiteCompiler.Proofs.Lowering
import KiteCompiler.Proofs.Reading.Inversion
import KiteCompiler.Proofs.Wrapping.Printing

/-!
# Java of accepted sources

The texts in abstract syntax are those of tokens that the lexer made: names, operators and literals. So the Java that
becomes of an accepted source is clean (`clean_of_stands`), and its `try` statements have what those have that are
lowered from the source. The proof goes along `Stands`; what it needs of the trees is that their nodes are formed
(`Lowerable`).
-/

namespace KiteCompiler

open Token (Tame Genuine)
open Text (byte)

/-! ## Texts of nodes -/

namespace Cst

section

variable (tried : Java .stmt → Prop)

/-- The node is formed. If it is a `try`, what it is lowered to has the property. -/
structure Lowerable (t : Cst) : Prop extends Formed t where
  tried : t.kind = .tryStmt → ∀ s : Ast .stmt, (Ast.Reading.decorate t).read .stmt = .ok s → ∀ x ∈ s.lower, tried x

/-- All nodes of the trees are so. -/
def AllLowerable (us : List Cst) : Prop := ∀ u ∈ us, u.Every (Lowerable tried)

end

variable {tried : Java .stmt → Prop}

/-- How to take rows of trees apart. -/
theorem allLowerable_parts : (AllLowerable tried [] ↔ True) ∧
    (∀ t us, AllLowerable tried (t :: us) ↔ t.Every (Lowerable tried) ∧ AllLowerable tried us) ∧
    (∀ us vs, AllLowerable tried (us ++ vs) ↔ AllLowerable tried us ∧ AllLowerable tried vs) ∧
    ∀ l us, Tree.Every (Lowerable tried) (.node l us) ↔ Lowerable tried (.node l us) ∧ AllLowerable tried us :=
  ⟨iff_true_intro (List.forall_mem_nil _), fun _ _ => List.forall_mem_cons, fun _ _ => List.forall_mem_append,
    fun _ _ => Tree.every_node⟩

theorem AllLowerable.one {t : Cst} (h : t.Every (Lowerable tried)) : AllLowerable tried [t] :=
  List.forall_mem_singleton.2 h

section

variable {l n o : Label} {ts : List Cst}

/-- The token of a node for one. -/
theorem Formed.exists_kind (h : Formed (.node n [])) (hn : n.kind.isToken = true) (hempty : n.kind ≠ .emptyStmt) :
    ∃ k, tokenKind (.node n []) = k ∧ n.kind.admits k = true ∧ (k = .eof ∨ Genuine (k, n.text)) := by
  obtain ⟨tok, htok, hgenuine, hadmits⟩ := h.token hn hempty
  have htoken : n.token = some tok := htok
  refine ⟨tok.kind, ?_, hadmits, hgenuine.imp_right fun h => ?_⟩
  · rw [tokenKind, htok]
    rfl
  · rw [Label.text, htoken]
    exact h

/-- Names, modifiers and primitive types are tame. -/
theorem Formed.tame (h : Formed (.node n [])) (hn : n.kind ∈ [.identifier, .simpleName, .modifier, .primitiveType]) :
    Tame n.text := by
  have hkinds : ∀ kind ∈ [Kind.identifier, .simpleName, .modifier, .primitiveType], kind.isToken = true ∧
      kind ≠ .emptyStmt ∧ ¬kind.admits .eof = true ∧
      (∀ k ∈ [Token.Kind.lineComment, .comment, .whitespace, .error], ¬kind.admits k = true) ∧
      ∀ k ∈ [Token.Kind.slash, .slashAssign], ¬kind.admits k = true := by decide
  obtain ⟨htoken, hempty, heof, hlayout, hslash⟩ := hkinds _ hn
  obtain ⟨k, -, hadmits, rfl | hgenuine⟩ := h.exists_kind htoken hempty
  · exact absurd hadmits heof
  · exact hgenuine.tame (fun hk => hlayout k hk hadmits) fun hk => hslash k hk hadmits

theorem Formed.tame_name (h : Formed (.node n [])) (hn : n.kind = .identifier) : Tame n.text :=
  h.tame (by rw [hn]; decide)

/-- The operator of an operation. -/
theorem Formed.operator_spelled (h : Formed (.node l ts)) (ho : operator? (.node l ts) = some (.node o []))
    (hk : o.kind = .operator) (hleaf : Formed (.node o [])) : ∃ k ∈ l.kind.operators, o.text = k.label := by
  have hoperators : ∀ kind : Kind, ∀ k ∈ kind.operators, k ≠ .eof ∧
      (k ∈ Token.Kind.punctuation ∨ k ∈ Token.Kind.words) := by
    intro kind
    cases kind <;> decide +kernel
  have hmem := h.operator _ ho hk
  obtain ⟨k, hkind, -, hgenuine⟩ := hleaf.exists_kind (show o.kind.isToken = true by rw [hk]) (by rw [hk]; decide)
  rw [hkind] at hmem
  obtain ⟨heof, hspelled⟩ := hoperators _ k hmem
  have hgenuine := hgenuine.resolve_left heof
  exact ⟨k, hmem, hspelled.elim hgenuine.punctuation hgenuine.word⟩

/-- The operator between two operands. -/
theorem tame_between {x : Cst} (hl : l.kind ∈ [.assignment, .binary]) (hk : o.kind = .operator)
    (h : Lowerable tried (.node l (x :: .node o [] :: ts))) (hleaf : Lowerable tried (.node o [])) :
    Tame (" " ++ o.text ++ " ") := by
  have hoperators : ∀ kind ∈ [Kind.assignment, .binary], ∀ k ∈ kind.operators, k ∈ Token.Kind.punctuation := by
    decide +kernel
  obtain ⟨k, hmem, htext⟩ := h.operator_spelled (operator?_between hl) hk hleaf.toFormed
  rw [htext]
  exact Token.tame_operator (hoperators _ hl k hmem)

/-- The operator before or behind its operand. -/
theorem tame_beside (hl : l.kind ∈ [.unary, .postIncDecSuffix]) (hk : o.kind = .operator)
    (h : Lowerable tried (.node l (.node o [] :: ts))) (hleaf : Lowerable tried (.node o [])) : Tame o.text := by
  have hoperators : ∀ kind ∈ [Kind.unary, .postIncDecSuffix], ∀ k ∈ kind.operators,
      ∀ b ∈ k.label, b ∉ [byte '"', byte '\'', byte '/'] := by decide +kernel
  obtain ⟨k, hmem, htext⟩ := h.operator_spelled (operator?_first hl) hk hleaf.toFormed
  rw [htext]
  exact .of_plain (hoperators _ hl k hmem)

/-- The name behind two colons, which can be `new`. -/
theorem tame_referenced (hl : l.kind = .methodRefSuffix) (hn : n.kind ∈ [.identifier, .operator])
    (h : Lowerable tried (.node l (ts ++ [.node n []]))) (hleaf : Lowerable tried (.node n [])) : Tame n.text := by
  rcases List.mem_pair.1 hn with hname | hoperator
  · exact hleaf.tame_name hname
  · have ho : operator? (.node l (ts ++ [.node n []])) = some (.node n []) := by
      rw [operator?_last hl, List.getLast?_concat]
    obtain ⟨k, hmem, htext⟩ := h.operator_spelled ho hoperator hleaf.toFormed
    rw [hl, show Kind.operators .methodRefSuffix = [.kwNew] from rfl, List.mem_singleton] at hmem
    rw [htext, hmem]
    exact .of_isPlain (by decide)

end

end Cst

/-! ## Clean Java -/

variable {tried : Java .stmt → Prop}

namespace Java

variable {c : Category}

theorem Clean.ofList {as : List (Java c)} (h : ∀ a ∈ as, a.Clean tried) : (ofList as).Clean tried := by
  induction as with
  | nil => exact .nil
  | cons a as ih =>
    rw [List.forall_mem_cons] at h
    exact .cons h.1 (ih h.2)

theorem Clean.flatten {ass : List (List (Java c))} (h : ∀ as ∈ ass, ∀ a ∈ as, a.Clean tried) :
    (Java.ofList ass.flatten).Clean tried :=
  .ofList (List.forall_mem_flatten.2 h)

theorem Clean.ofOption {a : Option (Java c)} (h : ∀ x ∈ a, x.Clean tried) : (ofOption a).Clean tried := by
  cases a with
  | none => exact .absent
  | some x => exact .present (h x rfl)

theorem Clean.mem_toList : {as : Java (.list c)} → as.Clean tried → ∀ a ∈ as.toList, a.Clean tried
  | .nil, _ => by
    rw [toList]
    exact List.forall_mem_nil _
  | .cons a as, h => by
    rw [toList]
    cases h with
    | cons ha has => exact List.forall_mem_cons.2 ⟨ha, has.mem_toList⟩

theorem Clean.ofOptionMap {α : Type} {x : Option α} {f : α → Java c} (h : ∀ y ∈ x, (f y).Clean tried) :
    (Java.ofOption (x.map f)).Clean tried := by
  cases x with
  | none => exact .absent
  | some y => exact .present (h y rfl)

theorem Clean.withDims {dims : List (Java .dim)} (hdims : ∀ d ∈ dims, d.Clean tried) {t : Java .type}
    (ht : t.Clean tried) : (withDims dims t).Clean tried := by
  cases ht with
  | type he hinner => exact .type he (.ofList (List.forall_mem_append.2 ⟨hdims, hinner.mem_toList⟩))

theorem Clean.plain {e : Java .element} (h : e.Clean tried) : (plain e).Clean tried := .type h .nil

theorem Clean.single {ss : List (Java .stmt)} (h : ∀ s ∈ ss, s.Clean tried) : (single ss).Clean tried := by
  unfold Java.single
  split
  · exact List.forall_mem_singleton.1 h
  · exact .ofBlock (.block (.ofList h))

theorem Clean.castTo {ts : List (Java .type)} (h : ∀ t ∈ ts, t.Clean tried) : (castTo ts).Clean tried := by
  unfold Java.castTo
  split
  · exact List.forall_mem_singleton.1 h
  · exact .plain (.intersection (.ofList h))

theorem clean_declarationGroups {vs : List (List (Java .dim) × Java .declarator)}
    (h : ∀ v ∈ vs, (∀ d ∈ v.1, d.Clean tried) ∧ v.2.Clean tried) :
    ∀ g ∈ declarationGroups vs, (∀ d ∈ g.1, d.Clean tried) ∧ ∀ v ∈ g.2, v.Clean tried := by
  induction vs with
  | nil => exact List.forall_mem_nil _
  | cons v vs ih =>
    obtain ⟨dims, v⟩ := v
    rw [List.forall_mem_cons] at h
    obtain ⟨⟨hdims, hv⟩, hvs⟩ := h
    have hgroups := ih hvs
    have halone : ∀ g ∈ (dims, [v]) :: declarationGroups vs, (∀ d ∈ g.1, d.Clean tried) ∧ ∀ v ∈ g.2, v.Clean tried :=
      List.forall_mem_cons.2 ⟨⟨hdims, List.forall_mem_singleton.2 hv⟩, hgroups⟩
    unfold declarationGroups
    split
    · next hgroup =>
      rw [hgroup, List.forall_mem_cons] at hgroups
      exact List.forall_mem_cons.2 ⟨⟨List.forall_mem_nil _, List.forall_mem_cons.2 ⟨hv, hgroups.1.2⟩⟩, hgroups.2⟩
    · exact halone

theorem clean_declarations {h : Java .header} {t : Java .type} {vs : List (List (Java .dim) × Java .declarator)}
    (hh : h.Clean tried) (ht : t.Clean tried) (hvs : ∀ v ∈ vs, (∀ d ∈ v.1, d.Clean tried) ∧ v.2.Clean tried) :
    ∀ d ∈ declarations h t vs, d.Clean tried := by
  refine List.forall_mem_map.2 fun g hg => ?_
  obtain ⟨hdims, hgroup⟩ := clean_declarationGroups hvs g hg
  exact .variableDecl hh (.withDims hdims ht) (.ofList hgroup)

theorem Clean.forLoop {ds : List (Java .variableDecl)} {loop : Java (.option .variableDecl) → Java .stmt}
    (hds : ∀ d ∈ ds, d.Clean tried) (hloop : ∀ d, d.Clean tried → (loop d).Clean tried) :
    (forLoop ds loop).Clean tried := by
  unfold Java.forLoop
  split
  · exact hloop _ (.present (List.forall_mem_singleton.1 hds))
  · refine .ofBlock
      (.block (.ofList (List.forall_mem_append.2 ⟨List.forall_mem_map.2 fun d hd => .ofVariables (hds d hd), ?_⟩)))
    exact List.forall_mem_singleton.2 (hloop _ .absent)

end Java

/-- What syntax is lowered to is clean. -/
def Category.Clean (tried : Java .stmt → Prop) : (c : Category) → c.Lowered → Prop
  | .list c, xs => ∀ x ∈ xs, c.Clean tried x
  | .option c, x => ∀ y ∈ x, c.Clean tried y
  | .reference, r => (∀ s ∈ r.scope, s.Clean tried) ∧ (∀ t ∈ r.typeArguments, t.Clean tried) ∧ Tame r.name
  | .stmt, ss | .block, ss => ∀ s ∈ ss, s.Clean tried
  | .catchParameter, p => p.1.Clean tried ∧ (∀ t ∈ p.2.1, t.Clean tried) ∧ Tame p.2.2
  | .declarator, v => (∀ d ∈ v.1, d.Clean tried) ∧ v.2.Clean tried
  | .variableDecl _, ds => ∀ d ∈ ds, d.Clean tried
  | .member, xs => ∀ x ∈ xs, x.Clean tried
  | .type, x | .classType, x | .typeParameter, x | .exception, x | .dim, x | .annotationUse, x | .memberValue, x
  | .header, x | .expr, x | .lambdaBody, x | .arrayElements, x | .level, x | .constructorCall, x | .resource, x
  | .catchClause, x | .switchGroup, x | .switchLabel, x | .parameter, x | .typeDecl, x => Java.Clean tried x

theorem Java.clean_callee {r : Java.Callee} (h : Category.reference.Clean tried r) : r.expr.Clean tried := by
  obtain ⟨scope, ts, n⟩ := r
  cases scope with
  | none => exact .name h.2.2
  | some e => exact .access h.2.2 (h.1 e rfl)

/-! ## Names, modifiers and literals -/

theorem tame_join {parts : List Text} (h : ∀ n ∈ parts, Tame n) : Tame (Text.join "." parts) := by
  induction parts with
  | nil => exact .nil
  | cons n parts ih =>
    rw [List.forall_mem_cons] at h
    cases parts with
    | nil =>
      have htext : Text.join "." [n] = n := List.append_nil n
      rw [htext]
      exact h.1
    | cons m parts => exact h.1.append (Tame.append (.of_isPlain (by decide)) (ih h.2))

theorem Cst.tame_dotted {t : Cst} {q : QualifiedName} (hq : Cst.Dotted t q.parts) (h : t.Every (Cst.Lowerable tried)) :
    Tame q.text := by
  obtain ⟨l, ts⟩ := t
  obtain ⟨-, ns, hts, hns, hparts⟩ := hq
  refine tame_join ?_
  rw [hparts]
  refine List.forall_mem_map.2 fun n hn => ?_
  have hmem : Tree.node n [] ∈ ts := (show ts = _ from hts) ▸ List.mem_map_of_mem hn
  exact ((Tree.every_node.1 h).2 _ hmem).root.tame (by rw [hns n hn]; decide)

namespace Ast

theorem tame_nameParts {c : Category} {a : Ast c} {parts : List Text} (h : a.nameParts = some parts)
    (hclean : c.Clean tried a.lower) : ∀ n ∈ parts, Tame n := by
  induction a generalizing parts with
  | name p n =>
    obtain rfl := Option.some.inj h
    exact List.forall_mem_singleton.2 hclean.2.2
  | access p e ts n ih _ =>
    cases ts with
    | nil =>
      obtain ⟨scope, hscope, rfl⟩ := Option.map_eq_some_iff.1 h
      exact List.forall_mem_append.2 ⟨ih hscope (hclean.1 _ rfl), List.forall_mem_singleton.2 hclean.2.2⟩
    | cons => cases h
  | ofReference r ih =>
    refine ih h ?_
    cases r with
    | name =>
      cases hclean with
      | name hn => exact ⟨fun _ h => (nomatch h), List.forall_mem_nil _, hn⟩
    | access p e ts n =>
      cases ts with
      | nil =>
        cases hclean with
        | access hn he => exact ⟨fun _ h => Option.some.inj h ▸ he, List.forall_mem_nil _, hn⟩
      | cons => cases h
  | _ => cases h

theorem clean_ofNames {p : Place} {first : Text} {more : List Text} (h : ∀ n ∈ first :: more, Tame n) :
    Category.classType.Clean tried (ofNames p first more).lower := by
  have hfold (t : Ast .classType) (ht : Category.classType.Clean tried t.lower) (hmore : ∀ n ∈ more, Tame n) :
      Category.classType.Clean tried (more.foldl (fun t n => segment p (.present t) .nil n .nil false) t).lower := by
    clear h
    induction more generalizing t with
    | nil => exact ht
    | cons n more ih =>
      rw [List.forall_mem_cons] at hmore
      exact ih _ (.segment hmore.1 (.present ht) .nil .nil) hmore.2
  rw [List.forall_mem_cons] at h
  exact hfold _ (.segment h.1 .absent .nil .nil) h.2

theorem tame_modifiers {complete : List Modifier → List Modifier} {l : Cst.Label} {ts : List Cst}
    {as : Ast (.list .annotationUse)} {ms : List Modifier}
    (hts : ∀ t ∈ ts, t.kind = .annotationUse ∨ t.kind = .modifier ∧ t.children = [])
    (hcomplete : complete = id ∨ complete = Modifier.immutableByDefault)
    (hms : Keyworded complete (.node l ts) (header as ms)) (h : Cst.AllLowerable tried ts) :
    ∀ m ∈ Java.modifiers ms, Tame m := by
  obtain ⟨-, written, hwritten, hkeywords⟩ := hms
  have hsource : ∀ m ∈ written.map (·.keyword), Tame m := by
    rw [hkeywords]
    refine List.forall_mem_map.2 fun t ht => ?_
    obtain ⟨ht, hk⟩ := List.mem_filter.1 ht
    obtain ⟨n, us⟩ := t
    have hn : n.kind = .modifier := of_decide_eq_true hk
    obtain rfl : us = [] := ((hts _ ht).resolve_left fun h => absurd (hn.symm.trans h) (by decide)).2
    exact (h _ ht).root.tame (by rw [hn]; decide)
  have hcompleted : ∀ m ∈ ms.map (·.keyword), Tame m := by
    rw [show ms = complete written from hwritten]
    rcases hcomplete with rfl | rfl
    · exact hsource
    · unfold Modifier.immutableByDefault
      split
      · exact hsource
      · rw [List.map_append]
        exact List.forall_mem_append.2 ⟨hsource, List.forall_mem_singleton.2 (.of_isPlain (by decide))⟩
  exact fun m hm => hcompleted m (List.mem_of_mem_filter hm)

/-- Quotes that are taken off a literal are put back around it. -/
theorem unquote_quoted {n : Cst.Label} {quote : UInt8} {u t : Text} (htext : n.text = quote :: (u ++ [quote]))
    (h : Reading.unquote ⟨n, []⟩ = .ok t) : [quote] ++ t ++ [quote] = n.text := by
  have hliteral : Branch.literal ⟨n, []⟩ = quote :: (u ++ [quote]) := htext
  unfold Reading.unquote at h
  rw [hliteral] at h
  split at h
  · cases h
  · have hmiddle : t = u := by
      rw [← Except.ok.inj h]
      simp
    rw [hmiddle, htext]
    rfl

theorem tame_literal {n : Cst.Label} {v : Literal} (hn : n.kind = .literal) (hv : Reading.literal ⟨n, []⟩ = .ok v)
    (h : Cst.Lowerable tried (.node n [])) : Tame (Java.literalText v) := by
  obtain ⟨k, hk, -, hgenuine⟩ := h.exists_kind (show n.kind.isToken = true by rw [hn]) (by rw [hn]; decide)
  have hkind : Branch.tokenKind ⟨n, []⟩ = k := hk
  have hwritten (hk : k ∈ [.intLiteral, .floatLiteral, .charLiteral, .stringLiteral]) :
      Genuine (k, n.text) ∧ Tame n.text := by
    have hkinds : ∀ k ∈ [Token.Kind.intLiteral, .floatLiteral, .charLiteral, .stringLiteral], k ≠ .eof ∧
        k ∉ [Token.Kind.lineComment, .comment, .whitespace, .error] ∧ k ∉ [Token.Kind.slash, .slashAssign] := by decide
    obtain ⟨heof, hlayout, hslash⟩ := hkinds k hk
    exact ⟨hgenuine.resolve_left heof, (hgenuine.resolve_left heof).tame hlayout hslash⟩
  unfold Reading.literal at hv
  rw [hkind] at hv
  split at hv
  · have htame := (hwritten (by decide)).2
    split at hv
    · split at hv
      all_goals exact Except.ok.inj hv ▸ htame
    · exact Except.ok.inj hv ▸ htame
  · exact Except.ok.inj hv ▸ (hwritten (by decide)).2
  · obtain ⟨hquoted, htame⟩ := hwritten (by decide)
    obtain ⟨t, ht, rfl⟩ := Result.map_ok.1 hv
    obtain ⟨u, hu⟩ := hquoted.quotes (byte '\'') (by decide)
    rw [← unquote_quoted hu ht] at htame
    exact htame
  · obtain ⟨hquoted, htame⟩ := hwritten (by decide)
    obtain ⟨t, ht, rfl⟩ := Result.map_ok.1 hv
    obtain ⟨u, hu⟩ := hquoted.quotes (byte '"') (by decide)
    rw [← unquote_quoted hu ht] at htame
    exact htame
  all_goals first | exact Except.ok.inj hv ▸ .of_isPlain (by decide) | cases hv

/-- Annotations before a class type. -/
theorem clean_annotated {p q : Place} {scope : Ast (.option .classType)} {outer inner : List (Ast .annotationUse)}
    {n : Text} {ts : Ast (.list .type)} {d : Bool}
    (houter : Category.Clean tried (.list .annotationUse) (ofList outer).lower)
    (h : Category.classType.Clean tried (segment p scope (ofList inner) n ts d).lower) :
    Category.classType.Clean tried (segment q scope (ofList (outer ++ inner)) n ts d).lower := by
  cases h with
  | segment hn hscope hinner hts =>
    refine .segment hn hscope (.ofList ?_) hts
    have hinner := hinner.mem_toList
    rw [Java.toList_ofList, lower_ofList] at hinner
    rw [lower_ofList] at houter
    rw [lower_ofList, List.map_append]
    exact List.forall_mem_append.2 ⟨houter, hinner⟩

theorem clean_lower_withDims {t : Ast .type} {ds : List (Ast .dim)} (ht : Category.type.Clean tried t.lower)
    (hds : Category.Clean tried (.list .dim) (ofList ds).lower) : Category.type.Clean tried (withDims t ds).lower := by
  rw [lower_ofList] at hds
  rw [lower_withDims]
  exact .withDims hds ht

theorem clean_of_stands {direct : Prop} {c : Category} {us : List Cst} {a : Ast c} (h : Stands direct us a)
    (hus : Cst.AllLowerable tried us) : c.Clean tried a.lower := by
  induction h with try simp only [Cst.allLowerable_parts, and_true] at hus
  | nil => exact List.forall_mem_nil _
  | one _ ih => exact List.forall_mem_singleton.2 (ih hus)
  | append _ _ ih ih' =>
    have hclean := And.intro (ih hus.1) (ih' hus.2)
    rw [lower_ofList, lower_ofList] at hclean
    rw [lower_ofList, List.map_append]
    exact List.forall_mem_append.2 hclean
  | absent => exact fun _ h => nomatch h
  | present _ ih => exact fun _ h => Option.some.inj h ▸ ih hus
  | within _ _ _ ih => exact ih hus.2
  | primitive hn _ ih => exact .plain (.primitive (hus.2.tame (by rw [hn]; decide)) (.ofList (ih hus.1)))
  | classRef _ ih => exact .plain (.classRef (ih hus))
  | withDims _ _ iht ihd => exact clean_lower_withDims (iht hus.1) (ihd hus.2)
  | wildcard _ ih => exact .plain (.wildcard (.ofList (ih hus)) .absent .absent)
  | wildcardUpper _ _ _ ih iht => exact .plain (.wildcard (.ofList (ih hus.1)) (.present (iht hus.2.2)) .absent)
  | wildcardLower _ _ _ ih iht => exact .plain (.wildcard (.ofList (ih hus.1)) .absent (.present (iht hus.2.2)))
  | void => exact .plain .void
  | segment hl hn _ _ _ ihs iha iht =>
    obtain ⟨hscope, -, has, hname, hts⟩ := hus
    exact .segment (hname.tame_name hn) (.ofOption (ihs hscope)) (.ofList (iha has)) (.ofList (iht hts))
  | annotated _ _ iho ihs => exact clean_annotated (iho hus.1) (ihs hus.2)
  | named he _ ih => exact clean_ofNames (tame_nameParts he (ih hus))
  | typeParameter hn _ _ iha ihb =>
    exact .typeParameter (hus.2.1.tame_name hn) (.ofList (iha hus.1)) (.ofList (ihb hus.2.2))
  | exception _ ih => exact ih hus
  | dim _ ih => exact .dim (.ofList (ih hus))
  | marker hl hq => exact .annotationUse (Cst.tame_dotted hq hus.2) .absent .nil
  | single hl hq _ ih => exact .annotationUse (Cst.tame_dotted hq hus.2.1) (.present (ih hus.2.2)) .nil
  | normal hl hq _ ih => exact .annotationUse (Cst.tame_dotted hq hus.2.1) .absent (.ofList (ih hus.2.2))
  | memberValue hn _ ih => exact .memberValue (hus.1.tame_name hn) (ih hus.2)
  | header hts hcomplete hms _ ih =>
    exact .header (tame_modifiers hts hcomplete hms hus.2)
      (.ofList (ih fun t ht => hus.2 t (List.mem_of_mem_filter ht)))
  | literal hn hv => exact .literal (tame_literal hn hv hus)
  | name hn => exact ⟨fun _ h => (nomatch h), List.forall_mem_nil _, hus.tame (by rw [hn]; decide)⟩
  | access hl hn _ _ ihe iht => exact ⟨fun _ h => Option.some.inj h ▸ ihe hus.1, iht hus.2.2.1, hus.2.2.2.tame_name hn⟩
  | ofReference _ _ ih => exact Java.clean_callee (ih hus)
  | call _ _ ihr ihe =>
    obtain ⟨hscope, hts, hn⟩ := ihr hus.1
    exact .call hn (.ofOption hscope) (.ofList hts) (.ofList (ihe hus.2))
  | index _ _ iha ihi => exact .index (iha hus.1) (ihi hus.2)
  | methodRef hl hn _ _ ihe iht =>
    obtain ⟨he, hsuffix, hts, hname⟩ := hus
    exact .methodRef (Cst.tame_referenced hl hn hsuffix hname) (ihe he) (.ofList (iht hts))
  | arrayRef hl hn _ _ _ iht ihd iha =>
    obtain ⟨ht, hsuffix, hds, hts, hname⟩ := hus
    rw [← List.append_assoc] at hsuffix
    exact .methodRef (Cst.tame_referenced hl hn hsuffix hname) (.typeExpr (clean_lower_withDims (iht ht) (ihd hds)))
      (.ofList (iha hts))
  | typeExpr _ ih => exact .typeExpr (ih hus)
  | objectCreation hl _ _ _ _ _ _ ihs iha iht ihe ihb =>
    obtain ⟨hscope, -, hts, ht, hes, hbody⟩ := hus
    cases iht ht with
    | type hclass _ =>
      cases hclass with
      | classRef hclass =>
        exact .objectCreation (.ofOption (ihs hscope)) (.ofList (iha hts)) hclass
          (.ofList (ihe hes)) (.ofOptionMap fun xs hxs => .flatten (ihb hbody xs hxs))
  | arrayCreation _ _ _ iht ihl ihe =>
    exact .arrayCreation (iht hus.1) (.ofList (ihl hus.2.1)) (.ofOption (ihe hus.2.2))
  | level _ _ iha ihe => exact .level (.ofList (iha hus.1)) (.ofOption (ihe hus.2))
  | arrayElements _ ih => exact .arrayElements (.ofList (ih hus))
  | ofArrayElements _ ih => exact .ofArrayElements (ih hus)
  | ofAnnotationUse _ ih => exact .ofAnnotationUse (ih hus)
  | lambdaBare hl hn _ _ ih =>
    exact .lambda (.cons (.parameter (hus.2.1.tame_name hn) (.header (List.forall_mem_nil _) .nil) .absent .nil) .nil)
      (ih hus.2.2)
  | lambda hl hk _ _ _ ihp ihb => exact .lambda (.ofList (ihp hus.2.1.2)) (ihb hus.2.2)
  | blockBody _ ih => exact .blockBody (.block (.ofList (ih hus)))
  | exprBody _ ih => exact .exprBody (ih hus)
  | thisRef => exact .thisRef .nil
  | superRef => exact .superRef .nil
  | thisOf hl _ he _ _ _ ih => exact .thisRef (tame_join (tame_nameParts he (ih hus.1)))
  | superOf hl _ he _ _ _ ih => exact .superRef (tame_join (tame_nameParts he (ih hus.1)))
  | typeLiteral _ ih => exact .classLiteral (ih hus)
  | binary hl ho _ _ ihx ihy =>
    obtain ⟨hnode, hx, hoperator, hy⟩ := hus
    exact .binary (Cst.tame_between (by rw [hl]; decide) ho hnode hoperator) (ihx (.one hx)) (ihy hy)
  | unary hl ho _ ih => exact .unary (Cst.tame_beside (by rw [hl]; decide) ho hus.1 hus.2.1) (ih hus.2.2)
  | unaryBehind hl ho _ ih => exact .unary (Cst.tame_beside (by rw [hl]; decide) ho hus.2.1 hus.2.2) (ih hus.1)
  | assign hl ho _ _ ihx ihy =>
    obtain ⟨hnode, hx, hoperator, hy⟩ := hus
    exact .assign (Cst.tame_between (by rw [hl]; decide) ho hnode hoperator) (ihx (.one hx)) (ihy hy)
  | conditional _ _ _ ihx ihy ihz => exact .conditional (ihx hus.1) (ihy hus.2.1) (ihz hus.2.2)
  | cast _ _ iht ihe => exact .cast (.castTo (iht hus.1)) (ihe hus.2)
  | instanceOf _ _ ihe iht => exact .instanceOf (ihe hus.1) (iht hus.2)
  | enclosed _ ih => exact .enclosed (ih hus)
  | block _ ih => exact List.forall_mem_flatten.2 (ih hus)
  | ofBlock _ ih => exact List.forall_mem_singleton.2 (.ofBlock (.block (.ofList (ih hus))))
  | ofVariables _ ih => exact List.forall_mem_map.2 fun d hd => .ofVariables (ih hus d hd)
  | emptyStmt => exact List.forall_mem_singleton.2 .emptyStmt
  | exprStmt _ ih => exact List.forall_mem_singleton.2 (.exprStmt (ih hus))
  | ifStmt _ _ _ ihe ihy ihn =>
    exact List.forall_mem_singleton.2 (.ifStmt (ihe hus.1) (.single (ihy hus.2.1))
      (.ofOptionMap fun ss hss => .single (ihn hus.2.2 ss hss)))
  | whileStmt _ _ ihe ihs => exact List.forall_mem_singleton.2 (.whileStmt (ihe hus.1) (.single (ihs hus.2)))
  | doStmt _ _ ihs ihe => exact List.forall_mem_singleton.2 (.doStmt (.single (ihs hus.1)) (ihe hus.2))
  | forStmt _ _ _ _ ihf ihc iht ihs =>
    exact List.forall_mem_singleton.2 (.forStmt .absent (.ofList (ihf hus.1)) (.ofOption (ihc hus.2.1))
      (.ofList (iht hus.2.2.1)) (.single (ihs hus.2.2.2)))
  | forVariables _ _ _ _ ihd ihc iht ihs =>
    refine List.forall_mem_singleton.2 (.forLoop (ihd hus.1) fun d hd => ?_)
    exact .forStmt hd .nil (.ofOption (ihc hus.2.1)) (.ofList (iht hus.2.2.1)) (.single (ihs hus.2.2.2))
  | forEachStmt _ _ _ _ ihb ihe ihs =>
    exact List.forall_mem_singleton.2 (.forEachStmt (ihb (.one hus.1)) (ihe hus.2.1) (.single (ihs hus.2.2)))
  | tryStmt hl hread _ _ _ _ ihr ihb ihh ihf =>
    obtain ⟨hnode, hrs, hb, hhs, hf⟩ := hus
    refine List.forall_mem_singleton.2 (.tryStmt (hnode.tried hl _ hread _ List.mem_cons_self) (.ofList (ihr hrs))
      (.block (.ofList (ihb hb))) (.ofList (ihh hhs)) (.ofOptionMap fun b hb' => .block (.ofList (ihf hf b hb'))))
  | switchStmt _ _ ihe ihg => exact List.forall_mem_singleton.2 (.switchStmt (ihe hus.1) (.ofList (ihg hus.2)))
  | synchronizedStmt _ _ ihe ihb =>
    exact List.forall_mem_singleton.2 (.synchronizedStmt (ihe hus.1) (.block (.ofList (ihb hus.2))))
  | labeledStmt hn _ ih =>
    exact List.forall_mem_singleton.2 (.labeledStmt (hus.1.tame_name hn) (.single (ih hus.2)))
  | breakStmt => exact List.forall_mem_singleton.2 (.breakStmt .nil)
  | breakTo hn => exact List.forall_mem_singleton.2 (.breakStmt (hus.tame_name hn))
  | continueStmt => exact List.forall_mem_singleton.2 (.continueStmt .nil)
  | continueTo hn => exact List.forall_mem_singleton.2 (.continueStmt (hus.tame_name hn))
  | returnStmt _ ih => exact List.forall_mem_singleton.2 (.returnStmt (.ofOption (ih hus)))
  | throwStmt _ ih => exact List.forall_mem_singleton.2 (.throwStmt (ih hus))
  | assertStmt _ _ ihe ihm => exact List.forall_mem_singleton.2 (.assertStmt (ihe hus.1) (.ofOption (ihm hus.2)))
  | resource hl hn _ _ _ _ _ _ ihh iht ihe =>
    obtain ⟨-, hm, ht, hname, he⟩ := hus
    exact .declaredResource (hname.tame_name hn) (ihh (.one hm)) (iht ht) (ihe he)
  | namedResource hl _ _ ih => exact .namedResource (ih hus.2)
  | catchClause hl hn _ _ _ _ _ _ ihh iht ihb =>
    obtain ⟨-, hm, hts, hname, hb⟩ := hus
    exact .catchClause (hname.tame_name hn) (ihh (.one hm)) (.ofList (iht hts)) (.block (.ofList (ihb hb)))
  | switchGroup _ _ ihl ihs => exact .switchGroup (.ofList (ihl hus.1)) (.flatten (ihs hus.2))
  | switchLabel _ ih => exact .switchLabel (.ofOption (ih hus))
  | declarator hl hn _ _ ihd ihe =>
    obtain ⟨-, hname, hds, he⟩ := hus
    exact ⟨ihd hds, .declarator (hname.tame_name hn) (.ofOption (ihe he))⟩
  | variableDecl hl _ _ _ _ _ _ ihh iht ihd =>
    obtain ⟨-, hm, ht, hds⟩ := hus
    exact Java.clean_declarations (ihh (.one hm)) (iht (.one ht)) (ihd hds)
  | bareParameter hn => exact .parameter (hus.tame_name hn) (.header (List.forall_mem_nil _) .nil) .absent .nil
  | parameter hl hn _ _ _ _ _ _ _ _ ihh iht iha ihd =>
    obtain ⟨-, hm, ht, has, hname, hds⟩ := hus
    exact .parameter (hname.tame_name hn) (ihh (.one hm)) (.present (.withDims (ihd hds) (iht ht))) (.ofList (iha has))
  | parameters hl _ ih => exact ih hus.2
  | classDecl hl hn _ _ _ _ _ _ _ _ _ _ ihh iht ihb ihi ihm =>
    obtain ⟨-, hm, hname, hts, hbase, his, hms⟩ := hus
    exact .classDecl (hname.tame_name hn) (ihh (.one hm)) (.ofList (iht hts))
      (.ofOption (ihb hbase)) (.ofList (ihi his)) (.flatten (ihm hms))
  | interfaceDecl hl hn _ _ _ _ _ _ _ _ ihh iht ihi ihm =>
    obtain ⟨-, hm, hname, hts, his, hms⟩ := hus
    exact .interfaceDecl (hname.tame_name hn) (ihh (.one hm)) (.ofList (iht hts)) (.ofList (ihi his))
      (.flatten (ihm hms))
  | annotationTypeDecl hl hn _ _ _ _ ihh ihm =>
    obtain ⟨-, hm, hname, hms⟩ := hus
    exact .annotationTypeDecl (hname.tame_name hn) (ihh (.one hm)) (.flatten (ihm hms))
  | ofTypeDecl _ ih => exact List.forall_mem_singleton.2 (.ofTypeDecl (ih hus))
  | ofField _ ih => exact List.forall_mem_map.2 fun d hd => .ofField (ih hus d hd)
  | ofConstant _ ih => exact List.forall_mem_map.2 fun d hd => .ofField (ih hus d hd)
  | methodDecl hl hn _ _ _ _ _ _ _ _ _ _ _ _ _ _ ihh iht ihr ihp ihd ihe ihb =>
    obtain ⟨-, hm, hts, hr, hname, hps, hds, hes, hb⟩ := hus
    exact List.forall_mem_singleton.2 (.methodDecl (hname.tame_name hn) (ihh (.one hm))
      (.ofList (iht hts)) (.withDims (ihd hds) (ihr hr)) (.ofList (ihp hps))
      (.ofList (ihe hes)) (.ofOptionMap fun b hb' => .block (.ofList (ihb hb b hb'))))
  | annotationMemberDecl hl hn _ _ _ _ _ _ _ _ ihh iht ihd ihe =>
    obtain ⟨-, hm, ht, hname, hds, he⟩ := hus
    exact List.forall_mem_singleton.2 (.annotationMemberDecl (hname.tame_name hn) (ihh (.one hm))
      (.withDims (ihd hds) (iht ht)) (.ofOption (ihe he)))
  | constructorDecl hl hk hn _ _ _ _ _ _ _ _ _ _ ihh iht ihp ihe iho ihs =>
    obtain ⟨-, hm, hts, hname, hps, hes, -, ho, hss⟩ := hus
    have hbody :=
      List.forall_mem_append.2 ⟨fun s hs => iho ho s (Option.mem_toList.1 hs), List.forall_mem_flatten.2 (ihs hss)⟩
    exact List.forall_mem_singleton.2 (.constructorDecl (hname.tame_name hn) (ihh (.one hm))
      (.ofList (iht hts)) (.ofList (ihp hps)) (.ofList (ihe hes)) (.block (.ofList hbody)))
  | constructorCall _ _ _ _ ihs iht iha =>
    exact .constructorCall (.ofOption (ihs hus.1)) (.ofList (iht hus.2.1)) (.ofList (iha hus.2.2.2))
  | initializerDecl _ ih => exact List.forall_mem_singleton.2 (.initializerDecl (.block (.ofList (ih hus))))
  | staticInitializer _ _ ih => exact List.forall_mem_singleton.2 (.initializerDecl (.block (.ofList (ih hus.2))))

end Ast

/-! ## Files -/

theorem PackageDecl.Stands.clean {direct : Prop} {us : List Cst} {package : PackageDecl} (h : package.Stands direct us)
    (hus : Cst.AllLowerable tried us) :
    ∀ p ∈ package.name.map fun name => (⟨.ofList package.annotations.lower, name.text⟩ : Java.Package),
    p.Clean tried := by
  cases h with
  | none => exact fun _ h => nomatch h
  | some hl hq has =>
    simp only [Cst.allLowerable_parts, and_true] at hus
    exact fun _ h => Option.some.inj h ▸ ⟨.ofList (Ast.clean_of_stands has hus.2.1), Cst.tame_dotted hq hus.2.2⟩

theorem ImportDecl.Stands.tame {t : Cst} {i : ImportDecl} (h : i.Stands t) (ht : t.Every (Cst.Lowerable tried)) :
    Tame i.name.text := by
  cases h with
  | intro words stars hl hwords hstars hq =>
    simp only [Cst.allLowerable_parts] at ht
    exact Cst.tame_dotted hq ht.2.2.1

theorem ImportDecl.tame_of_stands {ts : List Cst} {is : List ImportDecl} (h : List.Forall₂ ImportDecl.Stands ts is)
    (hts : Cst.AllLowerable tried ts) : ∀ i ∈ is, Tame i.name.text := by
  induction h with
  | nil => exact List.forall_mem_nil _
  | cons ht _ ih =>
    simp only [Cst.allLowerable_parts] at hts
    exact List.forall_mem_cons.2 ⟨ht.tame hts.1, ih hts.2⟩

theorem CompilationUnit.Stands.clean {direct : Prop} {t : Cst} {u : CompilationUnit} (h : u.Stands direct t)
    (ht : t.Every (Cst.Lowerable tried)) : u.lower.Clean tried := by
  cases h with
  | intro hl hpackage himports htype =>
    simp only [Cst.allLowerable_parts, and_true] at ht
    obtain ⟨-, hus, his, htree⟩ := ht
    exact ⟨hpackage.clean hus, List.forall_mem_map.2 (ImportDecl.tame_of_stands himports his),
      List.forall_mem_singleton.2 (Ast.clean_of_stands htype (.one htree))⟩

end KiteCompiler
