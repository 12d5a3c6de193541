import KiteCompiler.Proofs.Contract.Declarations
import KiteCompiler.Proofs.Parsing.Start

/-!
# Operators are grouped by precedence

In a tree without errors every operation is grouped as the precedence of its operator demands (`Grouped`): operands on
the left of a binary operator bind at least as tightly as it does, those on the right more tightly, and what is looser
than all of them stands in parentheses. This is a law of nodes of which only the operations are not free. What binds
tightly enough is known from the root of a tree (`Tight`): the reader of the levels from the `n`-th one on makes only
trees that are tight on level `n` (`gives_binary`).
-/

namespace KiteCompiler

namespace Grammar

/-- The index of the level that a binary operator is on. -/
def levelOf? (k : Token.Kind) : Option Nat := binaryLevels.findIdx? (·.contains k)

theorem levelOf?_of_mem {looser tighter : List (List Token.Kind)} {level : List Token.Kind} {k : Token.Kind}
    (h : binaryLevels = looser ++ level :: tighter) (hk : k ∈ level) : levelOf? k = some looser.length := by
  have hall : ∀ n < binaryLevels.length, ∀ k ∈ binaryLevels.getD n [], levelOf? k = some n := by decide
  refine hall _ ?_ k ?_
  · rw [h, List.length_append, List.length_cons]
    omega
  · rw [h, List.getD_eq_getElem?_getD, List.getElem?_append_right (Nat.le_refl _), Nat.sub_self]
    exact hk

end Grammar

namespace Cst

/-- The index of the level of a tree's operator, if the tree is a binary operation or a type test. -/
def level? (t : Cst) : Option Nat :=
  match t.kind with
  | .binary => t.children[1]?.bind fun operator => Grammar.levelOf? (tokenKind operator)
  | .instanceOf => Grammar.levelOf? .kwInstanceof
  | _ => none

/-- Expressions without operators and suffixes. -/
def primaryKinds : List Kind :=
  [.literal, .simpleName, .thisRef, .superRef, .parens, .objectCreation, .arrayCreation, .typeLiteral, .typeReference]

/-- What a prefix operator can stand before. -/
def operandKinds : List Kind := .unary :: .cast :: .suffixed :: primaryKinds

/-- What is looser than all binary operators. -/
def looseKinds : List Kind := [.conditional, .assignment, .lambda]

/-- If the root is an operation, its operands are such that no parentheses are missing around them. -/
structure Grouped (t : Cst) : Prop where
  binary (h : t.kind = .binary) : ∃ left operator right n, t.children = [left, operator, right] ∧ t.level? = some n ∧
    (∀ m ∈ level? left, n ≤ m) ∧ (∀ m ∈ level? right, n < m) ∧ kind left ∉ looseKinds ∧ kind right ∉ looseKinds
  instanceOf (h : t.kind = .instanceOf) : ∃ left right n, t.children = [left, right] ∧ t.level? = some n ∧
    (∀ m ∈ level? left, n ≤ m) ∧ kind left ∉ looseKinds ∧ kind right = .type
  conditional (h : t.kind = .conditional) : ∃ condition yes no, t.children = [condition, yes, no] ∧
    kind condition ∉ looseKinds ∧ kind no ≠ .assignment
  assignment (h : t.kind = .assignment) : ∃ target operator value, t.children = [target, operator, value] ∧
    kind target ∉ [.assignment, .lambda]
  unary (h : t.kind = .unary) : ∃ operator operand, t.children = [operator, operand] ∧ kind operand ∈ operandKinds

/-! ## Tight trees -/

/-- The tree can be an operand of an operator on level `n` without parentheses. -/
def Tight (n : Nat) (t : Cst) : Prop := t.kind ∈ operandKinds ∨ ∃ m, t.level? = some m ∧ n ≤ m

section

variable {t : Cst} {m n : Nat}

theorem kind_of_level? (h : t.level? = some n) : t.kind = .binary ∨ t.kind = .instanceOf := by
  unfold level? at h
  split at h
  · exact .inl ‹_›
  · exact .inr ‹_›
  · cases h

theorem level?_of_mem_operandKinds (h : t.kind ∈ operandKinds) : t.level? = none := by
  cases hlevel : t.level? with
  | none => rfl
  | some n => rcases kind_of_level? hlevel with hk | hk <;> rw [hk] at h <;> exact absurd h (by decide)

theorem Tight.mono (h : t.Tight n) (hmn : m ≤ n) : t.Tight m := by
  rcases h with h | ⟨l, hl, hn⟩
  · exact .inl h
  · exact .inr ⟨l, hl, Nat.le_trans hmn hn⟩

theorem Tight.le (h : t.Tight n) : ∀ m ∈ t.level?, n ≤ m := by
  intro m hm
  rcases h with h | ⟨l, hl, hn⟩
  · rw [level?_of_mem_operandKinds h] at hm
    cases hm
  · rw [hl] at hm
    exact Option.some.inj hm ▸ hn

theorem Tight.not_loose (h : t.Tight n) : t.kind ∉ looseKinds := by
  have hoperand : ∀ k ∈ operandKinds, k ∉ looseKinds := by decide
  rcases h with h | ⟨l, hl, -⟩
  · exact hoperand _ h
  · rcases kind_of_level? hl with hk | hk <;> rw [hk] <;> decide

end

/-! ## Nodes -/

section

variable {l : Label} {left operator right : Cst} {n : Nat}

theorem level?_binary (hk : l.kind = .binary) : level? (.node l [left, operator, right]) =
    Grammar.levelOf? operator.tokenKind := by
  unfold level?
  rw [show kind (.node l [left, operator, right]) = .binary from hk]
  rfl

theorem level?_instanceOf (hk : l.kind = .instanceOf) :
    level? (.node l [left, right]) = Grammar.levelOf? .kwInstanceof := by
  unfold level?
  rw [show kind (.node l [left, right]) = .instanceOf from hk]

theorem grouped_binary (hk : l.kind = .binary) (hn : Grammar.levelOf? operator.tokenKind = some n)
    (hleft : left.Tight n) (hright : right.Tight (n + 1)) : Grouped (.node l [left, operator, right]) := by
  refine ⟨fun _ => ⟨left, operator, right, n, rfl, (level?_binary hk).trans hn, hleft.le, hright.le, hleft.not_loose,
    hright.not_loose⟩, ?_, ?_, ?_, ?_⟩
  all_goals exact fun h => absurd (hk.symm.trans h) (by decide)

theorem grouped_instanceOf (hk : l.kind = .instanceOf) (hn : Grammar.levelOf? .kwInstanceof = some n)
    (hleft : left.Tight n) (hright : right.kind = .type) : Grouped (.node l [left, right]) := by
  have hlevel : level? (.node l [left, right]) = some n := (level?_instanceOf hk).trans hn
  refine ⟨?_, fun _ => ⟨left, right, n, rfl, hlevel, hleft.le, hleft.not_loose, hright⟩, ?_, ?_, ?_⟩
  all_goals exact fun h => absurd (hk.symm.trans h) (by decide)

theorem grouped_conditional {yes no : Cst} (hk : l.kind = .conditional) (hleft : left.kind ∉ looseKinds)
    (hno : no.kind ≠ .assignment) : Grouped (.node l [left, yes, no]) := by
  refine ⟨?_, ?_, fun _ => ⟨left, yes, no, rfl, hleft, hno⟩, ?_, ?_⟩
  all_goals exact fun h => absurd (hk.symm.trans h) (by decide)

theorem grouped_assignment (hk : l.kind = .assignment) (hleft : left.kind ∉ [.assignment, .lambda]) :
    Grouped (.node l [left, operator, right]) := by
  refine ⟨?_, ?_, ?_, fun _ => ⟨left, operator, right, rfl, hleft⟩, ?_⟩
  all_goals exact fun h => absurd (hk.symm.trans h) (by decide)

theorem grouped_unary (hk : l.kind = .unary) (hright : right.kind ∈ operandKinds) :
    Grouped (.node l [operator, right]) := by
  refine ⟨?_, ?_, ?_, ?_, fun _ => ⟨operator, right, rfl, hright⟩⟩
  all_goals exact fun h => absurd (hk.symm.trans h) (by decide)

end

/-- Nodes that are neither framed nor tokens, and no operations either. -/
abbrev notOperations : List Kind :=
  [.suffixed, .methodRefSuffix, .postIncDecSuffix, .tryStmt, .typeArguments, .typeParameters]

/-- The nodes that are no operations have nothing to be grouped. -/
theorem grouped_of_kind {t : Cst} (h : t.kind.isFramed = true ∨ t.kind.isToken = true ∨ t.kind ∈ notOperations) :
    t.Grouped := by
  have hkind : ∀ k ∈ [Kind.binary, .instanceOf, .conditional, .assignment, .unary],
      ¬(k.isFramed = true ∨ k.isToken = true ∨ k ∈ notOperations) := by
    decide
  constructor <;> intro hk <;> exact absurd h (hkind _ (by rw [hk]; decide))

end Cst

namespace Grammar

open Cst (Grouped Tight operandKinds looseKinds)

/-! ## The law -/

/-- Without errors, operations are grouped. -/
def grouping : NodeLaw where
  errors := []
  Start := State.Ready
  Holds := Grouped
  start_onward h := h.ready
  framed _ _ h := Cst.grouped_of_kind (.inl h)
  empty l h := Cst.grouped_of_kind (.inr (.inl (show l.kind.isToken = true from h ▸ rfl)))
  leaf _ _ _ h _ := Cst.grouped_of_kind (.inr (.inl h))
  error _ he := absurd he (by simp)
  endingAt _ _ h := ⟨h.binary, h.instanceOf, h.conditional, h.assignment, h.unary⟩

theorem free_grouping {k : Cst.Kind} (h : k ∈ Cst.notOperations) : Free grouping k :=
  ⟨fun l _ hk => Cst.grouped_of_kind (.inr (.inr (show l.kind ∈ _ from hk ▸ h)))⟩

instance : Free grouping .suffixed := free_grouping (by decide)

instance : Free grouping .methodRefSuffix := free_grouping (by decide)

instance : Free grouping .postIncDecSuffix := free_grouping (by decide)

instance : Free grouping .tryStmt := free_grouping (by decide)

instance : Free grouping .typeArguments := free_grouping (by decide)

instance : Free grouping .typeParameters := free_grouping (by decide)

theorem gives_of_keeps {p : Parser Cst} [hp : Forward p] (h : Keeps grouping p) : Gives p fun t => t.Every Grouped :=
  ⟨fun s hs herrors => (h.obeys s hs (by rw [herrors]; exact List.nil_subset _)).tree, hp⟩

theorem keeps_of_gives {p : Parser Cst} {R : Cst → Prop} (h : Gives p fun t => t.Every Grouped ∧ R t) :
    Keeps grouping p :=
  ⟨fun s hs herrors => .of_tree (h.gives s hs (List.subset_nil.1 herrors)).1⟩

theorem Gives.and {α : Type} {p : Parser α} {Q R : α → Prop} (hQ : Gives p Q) (hR : Gives p R) :
    Gives p fun a => Q a ∧ R a :=
  ⟨fun s hs h => ⟨hQ.gives s hs h, hR.gives s hs h⟩, hQ.forward⟩

/-! ## Roots -/

section

variable (rules : Rules) [∀ p, Forward (rules p)]

/-- What the last part of a sequence gives does not depend on the parts before. -/
theorem Gives.past {α β : Type} {Q : α → Prop} {p : Parser β} {f : β → Parser α} [Forward p] (hf : ∀ b, Gives (f b) Q) :
    Gives (p >>= f) Q :=
  seq (Q := fun _ => True) ⟨fun _ _ _ => trivial, inferInstance⟩ (fun b _ => hf b) fun b => (hf b).forward

variable {K : List Cst.Kind} {k : Cst.Kind} (hk : k ∈ K)

include hk

theorem root_finish (start : Position) (ts : List Cst) : Gives (finish k start ts) fun t => t.kind ∈ K :=
  ⟨fun _ _ _ => hk, inferInstance⟩

theorem root_leaf : Gives (leaf k) fun t => t.kind ∈ K := ⟨fun _ _ _ => hk, inferInstance⟩

theorem root_node (p : Parser (List Cst)) [Forward p] : Gives (node k p) fun t => t.kind ∈ K :=
  ⟨fun _ _ _ => hk, inferInstance⟩

omit hk

theorem root_type : Gives (type rules) fun t => t.kind ∈ [.type] := by
  refine .past fun start => .past fun annotations => .past fun t => .choice ?_ (.choice ?_ (Gives.errorNode _ _).never)
  · exact .past fun name => .past fun dimensions => root_finish (by decide) _ _
  · exact .past fun name => .past fun dimensions => root_finish (by decide) _ _

theorem root_creation : Gives (creation rules) fun t => t.kind ∈ Cst.primaryKinds := by
  refine .past fun start => .past fun _ => .past fun _ => .past fun type => .past fun _ => .choice ?_ ?_
  · exact .past fun tail => root_finish (by decide) _ _
  · exact .past fun tail => root_finish (by decide) _ _

set_option synthInstance.maxSize 2000 in
theorem root_primitiveTypeExpression : Gives (primitiveTypeExpression rules) fun t => t.kind ∈ Cst.primaryKinds := by
  rw [primitiveTypeExpression_eq]
  refine .past fun _ => .choice (root_node (by decide) _) (.past fun ahead => ?_)
  obtain ⟨dimensions, isReference⟩ := ahead
  exact .choice (root_node (by decide) _) (root_node (by decide) _)

/-- A primary expression is of one of the primary kinds. -/
theorem root_primary : Gives (primary rules) fun t => t.kind ∈ Cst.primaryKinds := by
  have herror (construct : Construct) : Gives (errorNode construct expressionRecovery) fun t =>
      t.kind ∈ Cst.primaryKinds :=
    (Gives.errorNode _ _).never
  refine .past fun t => ?_
  split
  case h_8 => exact root_leaf (by decide)
  case h_9 => exact .past fun _ => .choice (root_leaf (by decide)) (herror _)
  case h_10 => exact root_creation rules
  case h_11 => exact root_node (by decide) _
  case h_12 =>
    refine .choice (root_primitiveTypeExpression rules) (.choice (.past fun _ => .choice ?_ ?_) (herror _))
    · exact root_node (by decide) _
    · exact root_leaf (by decide)
  all_goals exact root_leaf (by decide)

theorem root_suffixed : Gives (suffixed rules) fun t => t.kind ∈ operandKinds := by
  have hprimary := (root_primary rules).mono fun t ht =>
    (List.mem_cons_of_mem _ (List.mem_cons_of_mem _ (List.mem_cons_of_mem _ ht)) : t.kind ∈ operandKinds)
  unfold suffixed
  dsimp only
  refine .seq hprimary (fun first hfirst => .choice (.of_has hfirst) (.past fun ts => .choice (.of_has hfirst) ?_))
    inferInstance
  exact ⟨fun _ _ _ => (by decide : Cst.Kind.suffixed ∈ operandKinds), inferInstance⟩

set_option synthInstance.maxSize 2000 in
theorem root_unary : Gives (unary rules) fun t => t.kind ∈ operandKinds := by
  refine .past fun t => ?_
  split
  case h_7 =>
    refine .past fun _ => .choice ?_ (root_suffixed rules)
    exact root_node (by decide) _
  case h_8 => exact root_suffixed rules
  all_goals exact root_node (by decide) _

end

/-! ## Operations -/

/-- Readers of the inner productions that keep the law, with what is known of the roots of their trees. -/
structure Orderly (rules : Rules) : Prop where
  keeps (p : Production) : Keeps grouping (rules p)
  unary : Gives (rules .unary) fun t => t.kind ∈ operandKinds
  conditional : Gives (rules .conditional) fun t => t.kind ∉ [.assignment, .lambda]
  type : Gives (rules .type) fun t => t.kind = .type

section

variable {rules : Rules} [∀ p, Forward (rules p)] (h : Orderly rules)

include h

omit h in
/-- A node that starts with a tree that has been read already. -/
theorem Gives.nodeFromOf {k : Cst.Kind} {first : Cst} {p : Parser (List Cst)} {Q : List Cst → Prop} {R : Cst → Prop}
    (hp : Gives p Q) (hR : ∀ l ts, l.kind = k → Q ts → R (.node l (first :: ts))) :
    Gives (Grammar.nodeFrom k first p) R := by
  have hforward := hp.forward
  exact ⟨fun s hs herrors => hR _ _ rfl (hp.gives s hs herrors), inferInstance⟩

omit h in
/-- What is given is wrapped up. -/
theorem GivesWhen.some {C : State → Prop} {p : Parser Cst} {R : Cst → Prop} (hp : GivesWhen C p R) :
    GivesWhen C (do return Option.some (← p)) fun o => ∀ u, o = Option.some u → R u :=
  hp.seq (fun _ ht => .of_has fun _ hu => Option.some.inj hu ▸ ht) inferInstance

theorem gives_rule (p : Production) : Gives (rules p) fun t => t.Every Grouped := gives_of_keeps (h.keeps p)

omit h in
/-- The node of an operator consists of this operator. -/
theorem every_operator (t : Token) : Tree.Every Grouped
    (.node { kind := .operator, span := t.span, token := some t } [] : Cst) :=
  Tree.every_node.2 ⟨Cst.grouped_of_kind (.inr (.inl rfl)), List.forall_mem_nil _⟩

/-! ### Binary operators -/

section

variable {looser tighter : List (List Token.Kind)} {level : List Token.Kind}
  (hlevels : binaryLevels = looser ++ level :: tighter)
  (htighter : Gives (binary rules tighter) fun t => t.Every Grouped ∧ t.Tight (looser.length + 1))
  {left : Cst} (hleft : left.Every Grouped ∧ left.Tight looser.length)

include hlevels hleft

theorem gives_instanceOf (hlevel : .kwInstanceof ∈ level) : Gives (nodeFrom .instanceOf left do
    skip
    return [← rules .type]) fun t => t.Every Grouped ∧ t.Tight looser.length := by
  have htype := (gives_rule h .type).and h.type
  have hn := levelOf?_of_mem hlevels hlevel
  refine .nodeFromOf (Q := fun ts => ∃ t, ts = [t] ∧ t.Every Grouped ∧ Cst.kind t = .type) ?_ ?_
  · exact .skipping fun _ => .seq htype (fun t ht => .of_has ⟨t, rfl, ht⟩) inferInstance
  · rintro l _ hk ⟨t, rfl, ht, htype⟩
    refine ⟨Tree.every_node.2 ⟨Cst.grouped_instanceOf hk hn hleft.2 htype, ?_⟩, .inr ⟨_, ?_, Nat.le_refl _⟩⟩
    · exact List.forall_mem_cons.2 ⟨hleft.1, List.forall_mem_singleton.2 ht⟩
    · exact (Cst.level?_instanceOf hk).trans hn

omit h in
include htighter in
theorem gives_binaryNode : GivesWhen (fun s => s.current.kind ∈ level) (nodeFrom .binary left do
    let operator ← leaf .operator
    return [operator, ← binary rules tighter]) fun t => t.Every Grouped ∧ t.Tight looser.length := by
  refine ⟨fun s hs hs' herrors => ?_, inferInstance⟩
  have hn := levelOf?_of_mem hlevels hs'
  have hright := htighter.gives s.advance hs.advance herrors
  refine ⟨Tree.every_node.2 ⟨Cst.grouped_binary rfl hn hleft.2 hright.2, ?_⟩, .inr ⟨_, ?_, Nat.le_refl _⟩⟩
  · exact List.forall_mem_cons.2 ⟨hleft.1, List.forall_mem_cons.2
      ⟨every_operator _, List.forall_mem_singleton.2 hright.1⟩⟩
  · exact (Cst.level?_binary rfl).trans hn

end

/-- The reader of the levels from the `n`-th one on makes trees that are tight on that level. -/
theorem gives_binary (looser : List (List Token.Kind)) {levels : List (List Token.Kind)}
    (hlevels : binaryLevels = looser ++ levels) :
    Gives (binary rules levels) fun t => t.Every Grouped ∧ t.Tight looser.length := by
  induction levels generalizing looser with
  | nil => exact ((gives_rule h .unary).and h.unary).mono fun t ht => ⟨ht.1, .inl ht.2⟩
  | cons level tighter ih =>
    have htighter := ih (looser ++ [level]) (by rw [hlevels, List.append_assoc]; rfl)
    rw [List.length_append, List.length_singleton] at htighter
    have hfirst := htighter.mono fun t ht => (⟨ht.1, ht.2.mono (Nat.le_succ _)⟩ : _ ∧ Tight looser.length t)
    unfold binary
    refine .seq hfirst (fun first hfirst => .growOf (fun left hleft => ?_) inferInstance hfirst) inferInstance
    refine GivesWhen.always (.asked fun any => ?_)
    cases any with
    | false => exact (Gives.of_has fun _ hnone => nomatch hnone).when
    | true =>
      refine .asked fun test => ?_
      cases test with
      | true =>
        refine ⟨fun s hs hwhen herrors => ?_, inferInstance⟩
        obtain ⟨⟨-, hany⟩, htest⟩ := hwhen
        have hlevel : .kwInstanceof ∈ level := beq_iff_eq.1 htest ▸ List.contains_iff_mem.1 hany
        exact ((gives_instanceOf h hlevels hleft hlevel).when (C := fun _ => True)).some.gives s hs trivial herrors
      | false =>
        have hwhen := (gives_binaryNode hlevels htighter hleft).some
        exact ⟨fun s hs hs' => hwhen.gives s hs (List.contains_iff_mem.1 hs'.1.2), inferInstance⟩

/-! ### The other operations -/

theorem gives_unary : Gives (unary rules) fun t => t.Every Grouped ∧ t.kind ∈ operandKinds := by
  have hkeeps := h.keeps
  have hoperand := (gives_rule h .unary).and h.unary
  have hnode : Gives (node .unary do
      let operator ← leaf .operator
      return [operator, ← rules .unary]) fun t => t.Every Grouped := by
    refine .nodeOf (Q := fun ts => ∃ operator t : Cst, ts = [operator, t] ∧ (operator.Every Grouped ∧ t.Every Grouped) ∧
      t.kind ∈ operandKinds) ?_ ?_
    · refine .seq (gives_of_keeps inferInstance) (fun operator hoperator => ?_) inferInstance
      exact .seq hoperand (fun t ht => .of_has ⟨operator, t, rfl, ⟨hoperator, ht.1⟩, ht.2⟩) inferInstance
    · rintro l _ hk ⟨operator, t, rfl, hevery, ht⟩
      exact Tree.every_node.2 ⟨Cst.grouped_unary hk ht, by simpa using hevery⟩
  refine .and ?_ (root_unary rules)
  refine .past fun t => ?_
  split
  case h_7 => exact .past fun _ => .choice (gives_of_keeps inferInstance) (gives_of_keeps inferInstance)
  case h_8 => exact gives_of_keeps inferInstance
  all_goals exact hnode

set_option synthInstance.maxSize 2000 in
theorem gives_conditional : Gives (conditional rules) fun t => t.Every Grouped ∧ t.kind ∉ [.assignment, .lambda] := by
  have hkeeps := h.keeps
  have hlambda : Gives (lambda rules) fun t => t.Every Grouped ∧ t.kind ≠ .assignment :=
    (gives_of_keeps inferInstance).and ((root_node (K := [.lambda]) (by decide) _).mono fun t ht => by
      rw [List.mem_singleton.1 ht]
      decide)
  have hno : Gives (rules .conditional) fun t => t.Every Grouped ∧ t.kind ≠ .assignment :=
    (gives_rule h .conditional).and (h.conditional.mono fun t ht hk => ht (by rw [hk]; decide))
  refine .seq (gives_binary h [] rfl) (fun condition hcondition => .skipping fun _ => .choice ?_ ?_) inferInstance
  · refine .nodeFromOf (Q := fun ts => ∃ yes no : Cst, ts = [yes, no] ∧ (yes.Every Grouped ∧ no.Every Grouped) ∧
      no.kind ≠ .assignment) ?_ ?_
    · refine .skipping fun _ => .seq (gives_rule h .expression) (fun yes hyes => .skipping fun _ => .skipping fun _ =>
        ?_) inferInstance
      dsimp only
      exact .joined hlambda hno (fun no hno => .of_has ⟨yes, no, rfl, ⟨hyes, hno.1⟩, hno.2⟩) inferInstance
    · rintro l _ hk ⟨yes, no, rfl, hevery, hne⟩
      refine ⟨Tree.every_node.2 ⟨Cst.grouped_conditional hk hcondition.2.not_loose hne, ?_⟩, ?_⟩
      · simpa using ⟨hcondition.1, hevery⟩
      · rw [show Cst.kind (.node l [condition, yes, no]) = .conditional from hk]
        decide
  · refine .of_has ⟨hcondition.1, fun hk => hcondition.2.not_loose ?_⟩
    exact List.mem_cons_of_mem _ hk

theorem keeps_expression : Keeps grouping (expression rules) := by
  have hkeeps := h.keeps
  have hlambda : Gives (lambda rules) fun t => t.Every Grouped := gives_of_keeps inferInstance
  have htarget := (gives_rule h .conditional).and h.conditional
  refine keeps_of_gives (R := fun _ => True) (.mono (Q := fun t => t.Every Grouped) ?_ fun t ht => ⟨ht, trivial⟩)
  refine .skipping fun _ => .choice hlambda (.seq htarget (fun target htarget => ?_) inferInstance)
  refine .skipping fun _ => .choice ?_ (.of_has htarget.1)
  refine .nodeFromOf (Q := fun ts => ∃ operator value : Cst, ts = [operator, value] ∧ operator.Every Grouped ∧
    value.Every Grouped) ?_ ?_
  · refine .seq (gives_of_keeps inferInstance) (fun operator hoperator => ?_) inferInstance
    exact .seq (gives_rule h .expression) (fun value hvalue => .of_has ⟨operator, value, rfl, hoperator, hvalue⟩)
      inferInstance
  · rintro l _ hk ⟨operator, value, rfl, hevery⟩
    refine Tree.every_node.2 ⟨Cst.grouped_assignment hk htarget.2, ?_⟩
    simpa using ⟨htarget.1, hevery⟩

theorem Orderly.production : Orderly (production rules) := by
  have hkeeps := h.keeps
  refine ⟨fun p => ?_, root_unary rules, (gives_conditional h).mono fun _ => And.right, ?_⟩
  · exact .production rules (keeps_expression h) (keeps_of_gives (gives_conditional h))
      (keeps_of_gives (gives_unary h)) p
  · exact (root_type rules).mono fun t ht => List.mem_singleton.1 ht

end

theorem orderly_rulesUpTo (depth : Nat) : Orderly (rulesUpTo depth) := by
  induction depth with
  | zero =>
    have hnever (p : Production) : Gives (rulesUpTo 0 p) Never := .skipping fun t => .report_never inferInstance
    exact ⟨.rulesUpTo_zero, (hnever _).never, (hnever _).never, (hnever _).never⟩
  | succ depth ih => exact ih.production

/-- Operators are grouped by precedence wherever an expression stands in what is read without errors. -/
theorem grouped_of_no_errors (source : Text) (h : (parseExpression source).errors = []) :
    (parseExpression source).tree.Every Grouped := by
  have hkeeps : ∀ p, Keeps grouping (rulesUpTo (depth source) p) := (orderly_rulesUpTo _).keeps
  have hstart : Keeps grouping (standaloneExpression (rulesUpTo (depth source))) := inferInstance
  have herrors := (errors_parse_nil standaloneExpression source).1 h
  rw [parseExpression, tree_parse]
  rw [run] at herrors ⊢
  exact (gives_of_keeps hstart).gives _ (initial_ready source) herrors

/-- Operators of three levels, a cast, a test of a type and a conditional in the place of an argument. -/
theorem grouped_of_no_errors_mixed :
    (parseExpression "x = a + b * -(T) c < d instanceof E ? f(p ? q : r) : g").errors = [] ∧
    (parseExpression "x = a + b * -(T) c < d instanceof E ? f(p ? q : r) : g").tree.Every Grouped := by
  have h : (parseExpression "x = a + b * -(T) c < d instanceof E ? f(p ? q : r) : g").errors = [] := by decide +kernel
  exact ⟨h, grouped_of_no_errors "x = a + b * -(T) c < d instanceof E ? f(p ? q : r) : g" h⟩

end Grammar

end KiteCompiler
