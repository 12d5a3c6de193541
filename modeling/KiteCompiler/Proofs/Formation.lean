import KiteCompiler.Proofs.Precedence
import KiteCompiler.Proofs.Termination.Loops

/-!
# How accepted trees are formed

In what is read without errors, the nodes for one token hold a token that the lexer made and that can stand there, the
operators are those of their operation, and a member with type arguments is called right behind its name
(`formed_of_no_errors`). So what is read off a tree keeps type arguments only where they are used, and the texts in it
are names, operators and literals.
-/

namespace KiteCompiler

namespace Cst

/-- The operators of an operation. -/
def Kind.operators : Kind → List Token.Kind
  | .assignment => Grammar.assignmentOperators
  | .binary => Grammar.binaryLevels.flatten.filter (· ≠ .kwInstanceof)
  | .unary => [.plusPlus, .minusMinus, .plus, .minus, .bang, .tilde]
  | .postIncDecSuffix => [.plusPlus, .minusMinus]
  | .methodRefSuffix => [.kwNew]
  | _ => []

/-- The child of an operation that can be its operator. -/
def operator? (t : Cst) : Option Cst :=
  match t.kind with
  | .assignment | .binary => t.children[1]?
  | .unary | .postIncDecSuffix => t.children.head?
  | .methodRefSuffix => t.children.getLast?
  | _ => none

section

variable {l : Label} {ts : List Cst}

theorem operator?_between (h : l.kind ∈ [.assignment, .binary]) : operator? (.node l ts) = ts[1]? := by
  obtain h | h := (by simpa using h : l.kind = .assignment ∨ l.kind = .binary) <;>
    rw [operator?, show kind (.node l ts) = _ from h] <;> rfl

theorem operator?_first (h : l.kind ∈ [.unary, .postIncDecSuffix]) : operator? (.node l ts) = ts.head? := by
  obtain h | h := (by simpa using h : l.kind = .unary ∨ l.kind = .postIncDecSuffix) <;>
    rw [operator?, show kind (.node l ts) = _ from h] <;> rfl

theorem operator?_last (h : l.kind = .methodRefSuffix) : operator? (.node l ts) = ts.getLast? := by
  rw [operator?, show kind (.node l ts) = _ from h]
  rfl

end

/-- A member with type arguments is called at once. -/
def Called : List Cst → Prop
  | [] => True
  | t :: ts =>
    (t.kind = .fieldSuffix → t.has .typeArguments = true → ts.head?.map Cst.kind = some .callSuffix) ∧ Called ts

/-- What holds of a node that is read without errors. -/
structure Formed (t : Cst) : Prop where
  token (h : t.kind.isToken = true) (hempty : t.kind ≠ .emptyStmt) : ∃ tok, t.label.token = some tok ∧
    (tok.kind = .eof ∨ Token.Genuine tok.lexeme) ∧ t.kind.admits tok.kind = true
  operator : ∀ o, t.operator? = some o → o.kind = .operator → o.tokenKind ∈ t.kind.operators
  suffixes (h : t.kind = .suffixed) : Called t.children.tail

/-- Operations and nodes with suffixes apart, only the token matters. -/
theorem formed_of_kind {t : Cst}
    (hkind : t.kind ∉ [.assignment, .binary, .unary, .postIncDecSuffix, .methodRefSuffix, .suffixed])
    (htoken : t.kind.isToken = true → t.kind ≠ .emptyStmt → ∃ tok, t.label.token = some tok ∧
      (tok.kind = .eof ∨ Token.Genuine tok.lexeme) ∧ t.kind.admits tok.kind = true) : t.Formed := by
  refine ⟨htoken, fun o ho => ?_, fun h => ?_⟩
  · unfold operator? at ho
    split at ho <;> simp_all
  · simp [h] at hkind

theorem formed_framed {t : Cst} (h : t.kind.isFramed = true) : t.Formed := by
  have hframed : ∀ k : Kind, k.isFramed = true → k.isToken = false ∧
      k ∉ [.assignment, .binary, .unary, .postIncDecSuffix, .methodRefSuffix, .suffixed] := by
    intro k
    cases k <;> decide
  obtain ⟨htoken, hkind⟩ := hframed _ h
  exact formed_of_kind hkind fun h => absurd (htoken.symm.trans h) (by decide)

theorem formed_leaf {l : Label} {tok : Token} (hl : l.token = some tok) (h : l.kind.isToken = true)
    (hgenuine : tok.kind = .eof ∨ Token.Genuine tok.lexeme) (hadmits : l.kind.admits tok.kind = true) :
    Formed (.node l []) := by
  have hkind : ∀ k : Kind, k.isToken = true →
      k ∉ [.assignment, .binary, .unary, .postIncDecSuffix, .methodRefSuffix, .suffixed] := by
    intro k
    cases k <;> decide
  exact formed_of_kind (hkind _ h) fun _ _ => ⟨tok, hl, hgenuine, hadmits⟩

/-- An operation whose operator is one of its own. -/
theorem formed_operation {t : Cst}
    (hkind : t.kind ∈ [.assignment, .binary, .unary, .postIncDecSuffix, .methodRefSuffix])
    (h : ∀ o, t.operator? = some o → o.kind = .operator → o.tokenKind ∈ t.kind.operators) : t.Formed := by
  have hoperation : ∀ k ∈ [Kind.assignment, .binary, .unary, .postIncDecSuffix, .methodRefSuffix],
      k.isToken = false ∧ k ≠ .suffixed := by
    decide
  obtain ⟨htoken, hsuffixed⟩ := hoperation _ hkind
  exact ⟨fun h => absurd (htoken.symm.trans h) (by decide), h, fun h => absurd h hsuffixed⟩

theorem formed_suffixed {l : Label} (hl : l.kind = .suffixed) {first : Cst} {ts : List Cst} (h : Called ts) :
    Formed (.node l (first :: ts)) where
  token ht := absurd (show l.kind.isToken = true from ht) (by rw [hl]; decide)
  operator o ho := by
    rw [operator?, show kind (.node l (first :: ts)) = _ from hl] at ho
    cases ho
  suffixes _ := h

theorem called_of_forall {ts : List Cst} (h : ∀ t ∈ ts, t.has .typeArguments = false) : Called ts := by
  induction ts with
  | nil => trivial
  | cons t ts ih =>
    obtain ⟨ht, hts⟩ := List.forall_mem_cons.1 h
    exact ⟨fun _ hhas => absurd (ht.symm.trans hhas) (by decide), ih hts⟩

end Cst

namespace Grammar

open Cst (Formed Called)

/-! ## The law -/

/-- Without errors, nodes are formed. -/
def formation : NodeLaw where
  errors := []
  Start := State.Ready
  Holds := Formed
  start_onward h := h.ready
  framed _ _ h := Cst.formed_framed h
  empty l h := Cst.formed_of_kind (show l.kind ∉ _ from h ▸ (by decide)) fun _ hempty => absurd h hempty
  leaf s hs _ h hk := by
    refine Cst.formed_leaf rfl h ?_ hk
    by_cases heof : s.current.kind = .eof
    · exact .inl heof
    · exact .inr (hs.genuine_current heof)
  error _ he := absurd he (by simp)
  endingAt _ _ h := ⟨h.token, h.operator, h.suffixes⟩

/-- Nodes that are neither framed nor tokens, and of which the law says nothing. -/
abbrev unformed : List Cst.Kind := [.instanceOf, .conditional, .tryStmt, .typeArguments, .typeParameters]

theorem free_formation {k : Cst.Kind} (hk : k ∈ unformed) : Free formation k := by
  have hplain : ∀ k ∈ unformed, k.isToken = false ∧
      k ∉ [.assignment, .binary, .unary, .postIncDecSuffix, .methodRefSuffix, .suffixed] := by
    decide
  refine ⟨fun l ts hl => ?_⟩
  obtain ⟨htoken, hkind⟩ := hplain l.kind (hl ▸ hk)
  exact Cst.formed_of_kind hkind fun h _ => absurd (htoken.symm.trans h) (by decide)

instance : Free formation .instanceOf := free_formation (by decide)

instance : Free formation .conditional := free_formation (by decide)

instance : Free formation .tryStmt := free_formation (by decide)

instance : Free formation .typeArguments := free_formation (by decide)

instance : Free formation .typeParameters := free_formation (by decide)

theorem Keeps.obeyed {α : Type} [Parts α] {p : Parser α} [hp : Forward p] (h : Keeps formation p) :
    Gives p (Obeys formation) :=
  ⟨fun s hs herrors => h.obeys s hs (by rw [herrors]; exact List.nil_subset _), hp⟩

theorem Keeps.formed {p : Parser Cst} [Forward p] (h : Keeps formation p) : Gives p fun t => t.Every Formed :=
  h.obeyed.mono fun _ ht => ht.tree

theorem Gives.keeps_formed {p : Parser Cst} (h : Gives p fun t => t.Every Formed) : Keeps formation p :=
  ⟨fun s hs herrors => .of_tree (h.gives s hs (List.subset_nil.1 herrors))⟩

section

variable (rules : Rules) [∀ p, Forward (rules p)] [hrules : ∀ p, Keeps formation (rules p)]

theorem root_identifier : Gives identifier fun t => t.kind = .identifier :=
  .skipping fun _ => .choice ⟨fun _ _ _ => rfl, inferInstance⟩
  (.skipping fun _ => (Gives.reportHere_never inferInstance).never)

/-! ## Operations -/

omit [∀ p, Forward (rules p)] hrules in
/-- The node of an operator is formed. -/
theorem every_operator_formed {s : State} (hs : s.Ready) :
    Tree.Every Formed (.node { kind := .operator, span := s.current.span, token := some s.current } [] : Cst) :=
  Tree.every_node.2 ⟨formation.leaf s hs .operator rfl rfl, List.forall_mem_nil _⟩

omit [∀ p, Forward (rules p)] hrules in
/-- An operator behind the first operand. -/
theorem formed_between {k : Cst.Kind} (hk : k ∈ [.assignment, .binary]) {left : Cst} (hleft : left.Every Formed)
    {p : Parser Cst} (hp : Gives p fun t => t.Every Formed) :
    GivesWhen (fun s => s.current.kind ∈ k.operators) (nodeFrom k left do
      let operator ← leaf .operator
      return [operator, ← p]) fun t => t.Every Formed := by
  have hforward := hp.forward
  refine ⟨fun s hs hs' herrors => ?_, inferInstance⟩
  have hright := hp.gives s.advance hs.advance herrors
  refine Tree.every_node.2 ⟨Cst.formed_operation ?_ fun o ho _ => ?_, ?_⟩
  · exact List.mem_append_left [.unary, .postIncDecSuffix, .methodRefSuffix] hk
  · have hoperator : o = .node { kind := .operator, span := s.current.span, token := some s.current } [] := by
      rw [Cst.operator?_between hk] at ho
      exact (Option.some.inj ho).symm
    rw [hoperator]
    exact hs'
  · exact List.forall_mem_cons.2 ⟨hleft, List.forall_mem_cons.2
      ⟨every_operator_formed hs, List.forall_mem_singleton.2 hright⟩⟩

theorem formed_binary {levels : List (List Token.Kind)} (hlevels : levels ⊆ binaryLevels) :
    Gives (binary rules levels) fun t => t.Every Formed := by
  induction levels with
  | nil => exact (hrules .unary).formed
  | cons level tighter ih =>
    obtain ⟨hlevel, htighter⟩ := List.cons_subset.1 hlevels
    have htighter := ih htighter
    have hinstanceOf {left : Cst} (hleft : left.Every Formed) : Gives (nodeFrom .instanceOf left do
        skip
        return [← rules .type]) fun t => t.Every Formed := by
      have : Obeys formation left := .of_tree hleft
      exact Keeps.formed inferInstance
    unfold binary
    refine .seq htighter (fun first hfirst => .growOf (fun left hleft => ?_) inferInstance hfirst) inferInstance
    refine GivesWhen.always (.asked fun any => ?_)
    cases any with
    | false => exact (Gives.of_has fun _ hnone => nomatch hnone).when
    | true =>
      refine .asked fun test => ?_
      cases test with
      | true => exact GivesWhen.some (hinstanceOf hleft).when
      | false =>
        have hnode := GivesWhen.some (formed_between (k := .binary) (by decide) hleft htighter)
        refine ⟨fun s hs hs' => hnode.gives s hs (List.mem_filter.2 ⟨?_, ?_⟩), inferInstance⟩
        · exact List.mem_flatten.2 ⟨level, hlevel, List.contains_iff_mem.1 hs'.1.2⟩
        · exact decide_eq_true (beq_eq_false_iff_ne.1 hs'.2)

set_option synthInstance.maxSize 2000 in
theorem formed_conditional : Gives (conditional rules) fun t => t.Every Formed := by
  refine .seq (formed_binary rules (List.Subset.refl _)) (fun condition hcondition => ?_) inferInstance
  have : Obeys formation condition := .of_tree hcondition
  refine .skipping fun _ => .choice (Keeps.formed ?_) (.of_has hcondition)
  dsimp only
  infer_instance

theorem formed_expression : Gives (expression rules) fun t => t.Every Formed := by
  have hlambda : Gives (lambda rules) fun t => t.Every Formed := Keeps.formed inferInstance
  refine .skipping fun _ => .choice hlambda (.seq (hrules .conditional).formed (fun target htarget => ?_) inferInstance)
  refine .test (C := fun s => s.current.kind ∈ assignmentOperators) (fun s hs => List.contains_iff_mem.1 hs) ?_
    (.of_has htarget)
  exact formed_between (k := .assignment) (by decide) htarget (hrules .expression).formed

/-! ## Suffixes -/

omit [∀ p, Forward (rules p)] hrules in
/-- The operator stands alone, or before its operand. -/
theorem formed_prefix {k : Cst.Kind} (hk : k ∈ [.unary, .postIncDecSuffix]) {s : State} (hs : s.Ready)
    (hs' : s.current.kind ∈ k.operators) (l : Cst.Label) (hl : l.kind = k) {ts : List Cst}
    (hts : ∀ t ∈ ts, t.Every Formed) :
    Tree.Every Formed
      (.node l (.node { kind := .operator, span := s.current.span, token := some s.current } [] :: ts) : Cst) := by
  refine Tree.every_node.2 ⟨Cst.formed_operation ?_ fun o ho _ =>
    ?_, List.forall_mem_cons.2 ⟨every_operator_formed hs, hts⟩⟩
  · exact List.mem_append_left [.methodRefSuffix] (List.mem_append_right [.assignment, .binary]
      (show l.kind ∈ _ from hl ▸ hk))
  · have hoperator : o = .node { kind := .operator, span := s.current.span, token := some s.current } [] := by
      rw [Cst.operator?_first (hl ▸ hk)] at ho
      exact (Option.some.inj ho).symm
    rw [hoperator]
    exact (show s.current.kind ∈ l.kind.operators from hl ▸ hs')

theorem formed_methodRefSuffix (dimensions : Option Cst) [hd : Obeys formation dimensions] :
    Gives (methodRefSuffix rules dimensions) fun t => t.Every Formed := by
  have hnew : GivesWhen (fun s => s.current.kind = .kwNew) (leaf .operator) fun t =>
      t.Every Formed ∧ (t.kind = .operator → t.tokenKind = .kwNew) :=
    ⟨fun s hs hs' _ => ⟨every_operator_formed hs, fun _ => hs'⟩, inferInstance⟩
  have hname : Gives identifier fun t => t.Every Formed ∧ (t.kind = .operator → t.tokenKind = .kwNew) :=
    (Keeps.formed inferInstance).and (root_identifier.mono fun t ht h => absurd (ht.symm.trans h) (by decide))
  have hfinish (start : Position) (ts : Known (List Cst) formation) {t : Cst}
      (ht : t.Every Formed ∧ (t.kind = .operator → t.tokenKind = .kwNew)) :
      Gives (finish .methodRefSuffix start (dimensions.toList ++ ts.1 ++ [t])) fun t => t.Every Formed := by
    have hts : Obeys formation (dimensions.toList ++ ts.1) := inferInstance
    have hkind : Cst.Kind.methodRefSuffix ∈ [.assignment, .binary, .unary, .postIncDecSuffix, .methodRefSuffix] := by
      decide
    refine ⟨fun s hs _ => Tree.every_node.2 ⟨Cst.formed_operation hkind fun o ho h => ?_, ?_⟩, inferInstance⟩
    · rw [Cst.operator?_last rfl, List.getLast?_concat, Option.some.injEq] at ho
      exact List.mem_singleton.2 (ho ▸ ht.2 (ho ▸ h))
    · exact List.forall_mem_append.2 ⟨hts.every, List.forall_mem_singleton.2 ht.1⟩
  have hrest (start : Position) : Gives (do
      expect .colonColon
      let typeArguments ← optionalAt .less (typeArguments rules)
      let member ← if ← check .kwNew then leaf .operator else identifier
      finish .methodRefSuffix start (dimensions.toList ++ typeArguments ++ [member])) fun t => t.Every Formed := by
    refine .skipping fun _ => .seq (Keeps.obeyed inferInstance) (fun ts hts => ?_) inferInstance
    refine .test (C := fun s => s.current.kind = .kwNew) (fun _ h => beq_iff_eq.1 h)
      (hnew.seq (fun t ht => ?_) inferInstance) (.seq hname (fun t ht => ?_) inferInstance)
    · exact hfinish start ⟨ts, hts⟩ ht
    · exact hfinish start ⟨ts, hts⟩ ht
  unfold methodRefSuffix
  cases dimensions with
  | none => exact .skipping fun start => hrest start
  | some d =>
    dsimp only
    rw [pure_bind]
    exact hrest d.span.first

theorem formed_arrayTypeSuffix : Gives (arrayTypeSuffix rules) fun t => t.Every Formed := by
  refine .skipping fun start => .seq (Keeps.obeyed inferInstance) (fun d hd => .skipping fun _ => ?_) inferInstance
  exact .choice (formed_methodRefSuffix rules d) (Keeps.formed inferInstance)

set_option synthInstance.maxSize 2000 in
theorem formed_suffix : Gives (suffix rules) fun o => ∀ t, o = some t → t.Every Formed := by
  have hpostfix : GivesWhen (fun s => s.current.kind ∈ Cst.Kind.postIncDecSuffix.operators) (node .postIncDecSuffix do
      return [← leaf .operator]) fun t => t.Every Formed :=
    ⟨fun s hs hs' _ => formed_prefix (by decide) hs hs' _ rfl (List.forall_mem_nil _), inferInstance⟩
  have hkeeps {C : State → Prop} {p : Parser Cst} [Forward p] [h : Keeps formation p] :
      GivesWhen C (do return some (← p)) fun o => ∀ t, o = some t → t.Every Formed := .some h.formed.when
  refine .peeked fun t => ?_
  split
  · exact hkeeps
  · refine .asked fun b => ?_
    cases b with
    | true => exact .some (formed_arrayTypeSuffix rules).when
    | false => exact hkeeps
  · exact hkeeps
  · exact .some (formed_methodRefSuffix rules none).when
  · next hk => exact .some (.mono hpostfix fun s hs => by rw [hs, hk]; decide)
  · next hk => exact .some (.mono hpostfix fun s hs => by rw [hs, hk]; decide)
  · exact (Gives.of_has fun _ h => by cases h).when

end

/-! ### Members that are called -/

section

variable (rules : Rules)

/-- Without an error, the result and the state behind the reader are related. -/
def Arrives {α : Type} (p : Parser α) (Q : α → State → Prop) : Prop := ∀ s, (p s).2.errors = [] → Q (p s).1 (p s).2

section

variable {α β : Type} {Q : α → State → Prop}

theorem Arrives.past {p : Parser β} {f : β → Parser α} (hf : ∀ b, Arrives (f b) Q) : Arrives (p >>= f) Q :=
  fun s => hf (p s).1 (p s).2

theorem Arrives.choice {c : Prop} [Decidable c] {p q : Parser α} (hp : Arrives p Q) (hq : Arrives q Q) :
    Arrives (if c then p else q) Q := by
  split <;> assumption

theorem Arrives.mono {p : Parser α} {R : α → State → Prop} (hp : Arrives p Q) (h : ∀ a s, Q a s → R a s) :
    Arrives p R :=
  fun s herrors => h _ _ (hp s herrors)

theorem Arrives.node {k : Cst.Kind} {p : Parser (List Cst)} {Q : State → Prop} (hp : Arrives p fun _ => Q) :
    Arrives (node k p) fun _ => Q :=
  hp

theorem Arrives.some {p : Parser α} (hp : Arrives p Q) :
    Arrives (do return Option.some (← p)) fun o s => ∀ a, o = Option.some a → Q a s :=
  fun s h _ ha => Option.some.inj ha ▸ hp s h

end

/-- Behind a member with type arguments stands an opening parenthesis. -/
def AtCall (t : Cst) (s : State) : Prop :=
  t.kind = .fieldSuffix → t.has .typeArguments = true → s.current.kind = .lparen

theorem arrives_of_kind {k : Cst.Kind} (hk : k ≠ .fieldSuffix) (p : Parser (List Cst)) : Arrives (node k p) AtCall :=
  fun _ _ h => absurd h hk

theorem kind_identifier (s : State) : (identifier s).1.kind = .identifier ∨ (identifier s).1.kind = .error := by
  change ((if s.current.kind.isName = true then leaf .identifier else _ : Parser Cst) s).1.kind = _ ∨
    ((if _ then _ else _ : Parser Cst) s).1.kind = _
  split
  · exact .inl rfl
  · exact .inr rfl

/-- A member without type arguments. -/
theorem arrives_member {p : Parser Cst} (hp : ∀ s, (p s).1.kind ≠ .typeArguments) : Arrives (node .fieldSuffix do
    skip
    return [← p]) AtCall := by
  intro s _ _ hhas
  have hkind : ((p s.advance).1.kind == .typeArguments || false) = true := hhas
  simp [hp] at hkind

/-- A member with type arguments, where a missing call is reported. -/
theorem arrives_typed (dot : Token) : Arrives (node .fieldSuffix do
    skip
    let typeArguments ← typeArguments rules
    let name ← identifier
    if !(← check .lparen) then let _ ← report (.typeArgumentsWithoutCall dot) (← here)
    return [typeArguments, name]) AtCall := by
  have hcall (ts : List Cst) : Arrives (do
      if !(← check .lparen) then let _ ← report (.typeArgumentsWithoutCall dot) (← here)
      return ts) fun _ s => s.current.kind = .lparen := by
    intro s h
    change ((if (!(s.current.kind == .lparen)) = true then _ else _ : Parser (List Cst)) s).2.errors = [] at h
    change ((if (!(s.current.kind == .lparen)) = true then _ else _ : Parser (List Cst)) s).2.current.kind = _
    split at h
    · exact absurd h (s.errors_record_ne_nil _)
    · next hparen =>
      have hkind : s.current.kind = .lparen := by simpa using hparen
      rw [if_neg hparen]
      exact hkind
  have hparts : Arrives (do
      skip
      let typeArguments ← typeArguments rules
      let name ← identifier
      if !(← check .lparen) then let _ ← report (.typeArgumentsWithoutCall dot) (← here)
      return [typeArguments, name]) fun _ s => s.current.kind = .lparen :=
    .past fun _ => .past fun typeArguments => .past fun name => hcall _
  exact hparts.node.mono fun _ _ h _ _ => h

theorem arrives_dotSuffix : Arrives (dotSuffix rules) AtCall := by
  refine .past fun dot => .past fun s => ?_
  split
  · exact arrives_of_kind (by decide) _
  · exact arrives_of_kind (by decide) _
  · exact arrives_member fun _ => (by decide : Cst.Kind.thisRef ≠ .typeArguments)
  · exact arrives_member fun _ => (by decide : Cst.Kind.superRef ≠ .typeArguments)
  · exact arrives_typed rules dot
  · refine .choice (arrives_member fun s h => ?_) (.past fun _ s h => (errors_errorNode_ne_nil _ _ s h).elim)
    obtain hname | hname := kind_identifier s <;> exact absurd (hname.symm.trans h) (by decide)

theorem arrives_finish {k : Cst.Kind} (hk : k ≠ .fieldSuffix) (start : Position) (ts : List Cst) :
    Arrives (finish k start ts) AtCall :=
  fun _ _ h => absurd h hk

theorem arrives_methodRefSuffix (dimensions : Option Cst) : Arrives (methodRefSuffix rules dimensions) AtCall := by
  unfold methodRefSuffix
  split
  all_goals
    refine .past fun _ => .past fun _ => .past fun _ => .past fun _ => .choice ?_ ?_ <;>
      exact .past fun _ => arrives_finish (by decide) _ _

theorem arrives_suffix : Arrives (suffix rules) fun o s => ∀ t, o = some t → AtCall t s := by
  have harray : Arrives (arrayTypeSuffix rules) AtCall := by
    refine .past fun start => .past fun d => .past fun b => .choice (arrives_methodRefSuffix rules d) ?_
    exact .past fun _ => .past fun _ => arrives_finish (by decide) _ _
  refine .past fun t => ?_
  split
  · exact .some (arrives_dotSuffix rules)
  · exact .past fun b => .choice (.some harray) (.some (arrives_of_kind (by decide) _))
  · exact .some (arrives_of_kind (by decide) _)
  · exact .some (arrives_methodRefSuffix rules none)
  · exact .some (arrives_of_kind (by decide) _)
  · exact .some (arrives_of_kind (by decide) _)
  · exact fun _ _ _ h => by cases h

/-- At an opening parenthesis stands a call. -/
theorem suffix_of_lparen {s : State} (h : s.current.kind = .lparen) :
    ∃ t s', suffix rules s = (some t, s') ∧ Cst.kind t = .callSuffix := by
  refine ⟨(node .callSuffix (do return [← arguments rules]) s).1,
    (node .callSuffix (do return [← arguments rules]) s).2, ?_, rfl⟩
  rw [suffix, bind_run (show peek s = (s.current, s) from rfl), h]
  rfl

instance after_looks (r : Receiver) (t : Cst) : Looks (r.after t) := by
  have hreport (c : SyntaxError.Cause) (p : Position) : Looks (report c p) :=
    ⟨fun {s} h => absurd h (s.errors_record_ne_nil _)⟩
  have hdemand (b : Bool) (c : SyntaxError.Cause) : Looks (unless b do let _ ← report c t.span.first) := inferInstance
  unfold Receiver.after
  dsimp only
  split
  · infer_instance
  · split
    · infer_instance
    · infer_instance
  all_goals infer_instance

/-- The chain is not cut off by the bound of the loop, since every suffix takes a token. -/
theorem called_repeatUpTo [∀ p, Forward (rules p)] (n : Nat) {s : State} (hs : s.Ready) (hn : s.remaining < n)
    (r : Receiver) (h : (repeatUpTo (suffixTurn rules) n r s).2.errors = []) :
    Called (repeatUpTo (suffixTurn rules) n r s).1 ∧
      (s.current.kind = .lparen → (repeatUpTo (suffixTurn rules) n r s).1.head?.map Cst.kind = some .callSuffix) := by
  induction n generalizing s r with
  | zero => omega
  | succ n ih =>
    obtain ⟨o, s₁, hsuffix⟩ : ∃ o s₁, suffix rules s = (o, s₁) := ⟨_, _, rfl⟩
    cases o with
    | none =>
      have hturn : suffixTurn rules r s = (.last [], s₁) := bind_run hsuffix
      rw [repeatUpTo_last hturn]
      refine ⟨trivial, fun hparen => ?_⟩
      obtain ⟨t, s', hcall, -⟩ := suffix_of_lparen rules hparen
      cases hsuffix.symm.trans hcall
    | some t =>
      have hturn : suffixTurn rules r s = (.more [t] (r.after t s₁).1, (r.after t s₁).2) := bind_run hsuffix
      have hpaced := (Paced.suffixTurn rules r).moves hs rfl (by rw [hturn]; rfl)
      rw [repeatUpTo_more hturn] at h ⊢
      rw [Moves, hturn] at hpaced
      have hafter : (r.after t s₁).2 = s₁ := Looks.stays ((Forward.repeatUpTo n _).errors h)
      rw [hafter] at h hpaced ⊢
      have honward : Onward s s₁ := by
        have honward := Forward.onward (p := suffix rules) s
        rwa [hsuffix] at honward
      have hatCall : AtCall t s₁ := by
        have hatCall := arrives_suffix rules s (by rw [hsuffix]; exact (Forward.repeatUpTo n _).errors h)
        rw [hsuffix] at hatCall
        exact hatCall t rfl
      have hremaining : s₁.remaining < n := by
        have hpos := (honward.ready hs).pos_lt
        rw [State.remaining] at hn ⊢
        rw [← honward.size] at hn
        omega
      obtain ⟨hcalled, hfirst⟩ := ih (honward.ready hs) hremaining _ h
      refine ⟨⟨fun hk hhas => hfirst (hatCall hk hhas), hcalled⟩, fun hparen => ?_⟩
      obtain ⟨t', s', hcall, hk⟩ := suffix_of_lparen rules hparen
      cases hsuffix.symm.trans hcall
      exact congrArg some hk

end

section

variable (rules : Rules) [∀ p, Forward (rules p)] [hrules : ∀ p, Keeps formation (rules p)]

theorem formed_suffixed : Gives (suffixed rules) fun t => t.Every Formed := by
  have hturn (r : Receiver) : Gives (suffixTurn rules r) (Gives.Adds fun t : Cst => t.Every Formed) := by
    refine .seq (formed_suffix rules) (fun o ho => ?_) fun o => by split <;> infer_instance
    cases o with
    | none => exact .of_has (Gives.adds_nil _)
    | some t => exact .past fun r' => .of_has (Gives.adds_one (ho t rfl) _)
  have hchain (r : Receiver) : Gives (repeatFrom r (suffixTurn rules)) fun ts =>
      (∀ t ∈ ts, t.Every Formed) ∧ Called ts := by
    refine .and (.skipping fun s => .repeatUpTo hturn _ r) ⟨fun s hs h => ?_, inferInstance⟩
    exact (called_repeatUpTo rules _ hs (Nat.lt_succ_self _) r h).1
  unfold suffixed
  refine .seq (Keeps.formed inferInstance) (fun first hfirst => .choice (.of_has hfirst) ?_) inferInstance
  refine .seq (hchain _) (fun ts hts => .choice (.of_has hfirst) ?_) inferInstance
  refine .nodeFromOf (Q := fun ts => (∀ t ∈ ts, t.Every Formed) ∧ Called ts) (.of_has hts) fun l ts hl hts => ?_
  exact Tree.every_node.2 ⟨Cst.formed_suffixed hl hts.2, List.forall_mem_cons.2 ⟨hfirst, hts.1⟩⟩

theorem formed_unary : Gives (unary rules) fun t => t.Every Formed := by
  have hnode : GivesWhen (fun s => s.current.kind ∈ Cst.Kind.unary.operators) (node .unary do
      let operator ← leaf .operator
      return [operator, ← rules .unary]) fun t => t.Every Formed := by
    refine ⟨fun s hs hs' herrors => ?_, inferInstance⟩
    have hoperand := (hrules .unary).formed.gives s.advance hs.advance herrors
    exact formed_prefix (by decide) hs hs' _ rfl (List.forall_mem_singleton.2 hoperand)
  refine .peeked fun t => ?_
  split
  case h_7 => exact (Gives.skipping fun _ => .choice (Keeps.formed inferInstance) (formed_suffixed rules)).when
  case h_8 => exact (formed_suffixed rules).when
  all_goals next hk => exact hnode.mono fun s hs => by rw [hs, hk]; decide

end

instance keepsScope_formation : Keeps.KeepsScope formation := by
  have hfirst : GivesWhen (fun s => s.current.kind.isName = true) (leaf .simpleName) fun t => t.Every Formed := by
    refine ⟨fun s hs hs' _ => Tree.every_node.2 ⟨formation.leaf s hs .simpleName rfl hs', List.forall_mem_nil _⟩,
      inferInstance⟩
  have hmember : Gives (node .fieldSuffix do
      skip
      return [← identifier]) fun t => t.Every Formed ∧ t.has .typeArguments = false := by
    refine (Keeps.formed inferInstance).and ⟨fun s _ _ => ?_, inferInstance⟩
    change ((identifier s.advance).1.kind == .typeArguments || false) = false
    obtain h | h := kind_identifier s.advance <;> rw [h] <;> rfl
  have hscope : GivesWhen (fun s => s.current.kind.isName = true) constructorScope fun t => t.Every Formed := by
    refine hfirst.seq (fun first hfirst => .seq (.manyWhile_all hmember) (fun ts hts => ?_) inferInstance) inferInstance
    refine .choice (.of_has hfirst) ⟨fun s hs _ => Tree.every_node.2 ⟨?_, ?_⟩, inferInstance⟩
    · exact Cst.formed_suffixed rfl (Cst.called_of_forall fun t ht => (hts t ht).2)
    · exact List.forall_mem_cons.2 ⟨hfirst, fun t ht => (hts t ht).1⟩
  exact ⟨⟨fun s hs hs' h => .of_tree (hscope.gives s hs hs' (List.subset_nil.1 h))⟩⟩

instance formed_rulesUpTo (depth : Nat) (p : Production) : Keeps formation (rulesUpTo depth p) := by
  induction depth generalizing p with
  | zero => exact .rulesUpTo_zero p
  | succ depth ih =>
    exact .production _ (formed_expression _).keeps_formed (formed_conditional _).keeps_formed
      (formed_unary _).keeps_formed p

/-- All nodes of what is read without errors are formed. -/
theorem formed_of_no_errors {start : Rules → Parser Cst} [∀ depth, Forward (start (rulesUpTo depth))]
    [hstart : ∀ depth, Keeps formation (start (rulesUpTo depth))] {source : Text}
    (h : (parse start source).errors = []) : (parse start source).tree.Every Formed := by
  rw [tree_parse]
  exact (hstart _).formed.gives _ (initial_ready source) ((errors_parse_nil start source).1 h)

end Grammar

end KiteCompiler
