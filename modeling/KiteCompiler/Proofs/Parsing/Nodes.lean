import KiteCompiler.Proofs.Parsing.Looking

/-!
# Laws of nodes

A law says what holds of the nodes of a tree. Most nodes are free: the law holds of them whatever their children are.
For such a law it suffices to look at the operations, the nodes that tell how operands are grouped, and at the nodes
with suffixes; then all nodes of what a reader makes obey it (`Keeps`, `Keeps.production`). Errors are never taken back,
so a reader is followed up to a list that holds all errors in the end. Like `Forward`, the property is found by instance
search; what is known of the trees that were read before (`Obeys`) is passed on as an instance.
-/

namespace KiteCompiler

namespace Cst.Kind

/-- Nodes that have parts. The others stand for one token, or for none. -/
abbrev isInner : Kind → Bool
  | .error | .identifier | .operator | .modifier | .primitiveType | .voidType | .emptyStmt | .literal | .simpleName
  | .thisRef | .superRef => false
  | _ => true

/-- Nodes that stand for something that could be read. -/
abbrev isProper : Kind → Bool
  | .error => false
  | _ => true

/-- Nodes that stand for one token. -/
abbrev isToken : Kind → Bool
  | .identifier | .operator | .modifier | .primitiveType | .voidType | .emptyStmt | .literal | .simpleName | .thisRef
  | .superRef => true
  | _ => false

/-- The tokens that a node for one token stands for, where it is read as the text of its token. -/
abbrev admits : Kind → Token.Kind → Bool
  | .identifier, k | .simpleName, k => k.isName
  | .modifier, k => k.isModifier
  | .primitiveType, k => k.isPrimitive
  | _, _ => true

/-- Nodes that have parts and are neither operations on expressions nor made of suffixes nor `try` statements nor lists
between angle brackets. -/
abbrev isFramed : Kind → Bool
  | .error | .identifier | .operator | .modifier | .primitiveType | .voidType | .emptyStmt | .literal | .simpleName
  | .thisRef | .superRef | .assignment | .conditional | .binary | .instanceOf | .unary | .suffixed | .methodRefSuffix
  | .postIncDecSuffix | .tryStmt | .typeArguments | .typeParameters => false
  | _ => true

theorem isProper_iff {k : Kind} : k.isProper = true ↔ k ≠ .error := by cases k <;> simp [isProper]

theorem isProper_of_isInner {k : Kind} (h : k.isInner = true) : k.isProper = true := by cases k <;> simp_all

theorem isProper_of_isToken {k : Kind} (h : k.isToken = true) : k.isProper = true := by cases k <;> simp_all

theorem isInner_of_isFramed {k : Kind} (h : k.isFramed = true) : k.isInner = true := by cases k <;> simp_all

end Cst.Kind

namespace Grammar

/-- What holds of all nodes that are read from states of the kind `Start` on, if no errors but the given ones come
up. -/
structure NodeLaw where
  errors : List SyntaxError
  Start : State → Prop
  Holds : Cst → Prop
  start_onward {s s' : State} (h : Onward s s') (hs : Start s) : Start s'
  framed (l : Cst.Label) (ts : List Cst) (h : l.kind.isFramed = true) : Holds (.node l ts)
  empty (l : Cst.Label) (h : l.kind = .emptyStmt) : Holds (.node l [])
  leaf (s : State) (hs : Start s) (k : Cst.Kind) (h : k.isToken = true) (hk : k.admits s.current.kind = true) :
    Holds (.node { kind := k, span := s.current.span, token := some s.current } [])
  error (l : Cst.Label) (he : ∃ e ∈ errors, e.pos.offset = l.span.first.offset) : Holds (.node l [])
  endingAt (t : Cst) (last : Position) (h : Holds t) : Holds (t.endingAt last)

/-- A law about all nodes but the free ones, in what is read without errors. -/
def NodeLaw.about (isFree : Cst.Kind → Bool) (hfree : ∀ k, isFree k = false → (k.isFramed || k.isToken) = false)
    (Start : State → Prop) (hstart : ∀ {s s' : State}, Onward s s' → Start s → Start s') (P : Cst → Prop)
    (hP : ∀ t last, P t → P (t.endingAt last)) : NodeLaw where
  errors := []
  Start := Start
  Holds t := isFree t.kind = false → P t
  start_onward := hstart
  framed l _ h hk := absurd (hfree l.kind hk) (by rw [h]; simp)
  empty l h hk := absurd (hfree l.kind hk) (by rw [h]; decide)
  leaf _ _ k h _ hk := absurd (hfree k hk) (by rw [h]; simp)
  error _ he := absurd he (by simp)
  endingAt t last h hk := hP t last (h hk)

/-! ## Trees in results -/

/-- The syntax trees that a result consists of. -/
class Parts (α : Type) where
  parts : α → List Cst

namespace Parts

instance (priority := low) other {α : Type} : Parts α := ⟨fun _ => []⟩

instance tree : Parts Cst := ⟨fun t => [t]⟩

instance list : Parts (List Cst) := ⟨id⟩

instance option : Parts (Option Cst) := ⟨Option.toList⟩

instance turn {σ : Type} : Parts (Turn σ) := ⟨Turn.added⟩

instance prod {α β : Type} [Parts α] [Parts β] : Parts (α × β) := ⟨fun x => parts x.1 ++ parts x.2⟩

end Parts

/-- A Boolean that is known to be true. -/
class Holds (b : Bool) : Prop where
  eq_true : b = true

instance : Holds true := ⟨rfl⟩

variable {α β σ : Type} [Parts α] [Parts β] {L : NodeLaw}

/-- The law holds of all nodes of this kind. -/
class Free (L : NodeLaw) (k : Cst.Kind) : Prop where
  holds (l : Cst.Label) (ts : List Cst) (hk : l.kind = k) : L.Holds (.node l ts)

instance {k : Cst.Kind} [h : Holds k.isFramed] : Free L k := ⟨fun l ts hk => L.framed l ts (hk ▸ h.eq_true)⟩

theorem Free.about {isFree : Cst.Kind → Bool} {hfree Start hstart P hP} {k : Cst.Kind} (hk : isFree k = true) :
    Free (.about isFree hfree Start hstart P hP) k :=
  ⟨fun l _ hl h => absurd (hk.symm.trans (hl ▸ show isFree l.kind = false from h)) (by decide)⟩

/-- The nodes in all trees of a result obey the law. -/
class Obeys (L : NodeLaw) (a : α) : Prop where
  every : ∀ t ∈ Parts.parts a, t.Every L.Holds

/-- The results of which this is known. -/
abbrev Known (α : Type) [Parts α] (L : NodeLaw) := { a : α // Obeys L a }

namespace Obeys

instance known (a : Known α L) : Obeys L a.1 := a.2

instance other {α : Type} {a : α} : @Obeys α Parts.other L a := ⟨fun _ h => nomatch h⟩

instance nil : Obeys L ([] : List Cst) := ⟨fun _ h => nomatch h⟩

instance cons {t : Cst} {ts : List Cst} [ht : Obeys L t] [hts : Obeys L ts] : Obeys L (t :: ts) :=
  ⟨List.forall_mem_cons.2 ⟨ht.every t (List.mem_singleton_self t), hts.every⟩⟩

instance append {ts us : List Cst} [hts : Obeys L ts] [hus : Obeys L us] : Obeys L (ts ++ us) :=
  ⟨List.forall_mem_append.2 ⟨hts.every, hus.every⟩⟩

instance none : Obeys L (none : Option Cst) := ⟨fun _ h => nomatch h⟩

instance some {t : Cst} [ht : Obeys L t] : Obeys L (some t) := ⟨ht.every⟩

instance toList {t : Option Cst} [ht : Obeys L t] : Obeys L t.toList := ⟨ht.every⟩

instance more {ts : List Cst} {a : σ} [hts : Obeys L ts] : Obeys L (Turn.more ts a) := ⟨hts.every⟩

instance last {ts : List Cst} [hts : Obeys L ts] : Obeys L (Turn.last ts : Turn σ) := ⟨hts.every⟩

instance prod {a : α} {b : β} [ha : Obeys L a] [hb : Obeys L b] : Obeys L (a, b) :=
  ⟨List.forall_mem_append.2 ⟨ha.every, hb.every⟩⟩

instance fst {x : α × β} [hx : Obeys L x] : Obeys L x.1 :=
  ⟨fun t ht => hx.every t (List.mem_append_left _ ht)⟩

instance ite {c : Prop} [Decidable c] {a b : α} [ha : Obeys L a] [hb : Obeys L b] :
    Obeys L (if c then a else b) := by
  split <;> assumption

theorem of_tree {t : Cst} (h : t.Every L.Holds) : Obeys L t := ⟨List.forall_mem_singleton.2 h⟩

theorem tree {t : Cst} (h : Obeys L t) : t.Every L.Holds := h.every t (List.mem_singleton_self t)

instance node {l : Cst.Label} {ts : List Cst} [h : Free L l.kind] [hts : Obeys L ts] : Obeys L (Tree.node l ts : Cst) :=
  of_tree (Tree.every_node.2 ⟨h.holds l ts rfl, hts.every⟩)

theorem bare {l : Cst.Label} (h : L.Holds (.node l [])) : Obeys L (Tree.node l [] : Cst) :=
  of_tree (Tree.every_node.2 ⟨h, fun _ h => nomatch h⟩)

instance endingAt {t : Cst} {last : Position} [h : Obeys L t] : Obeys L (t.endingAt last) :=
  of_tree (Tree.every_node.2 ⟨L.endingAt t last h.tree.root, fun _ hc => h.tree.child hc⟩)

end Obeys

theorem State.exists_mem_record (s : State) (e : SyntaxError) :
    ∃ e' ∈ (s.record e).errors, e'.pos.offset = e.pos.offset := by
  unfold State.record
  repeat' split
  · rename_i last _ hlast hsame
    exact ⟨last, by rw [hlast]; exact List.mem_cons_self, hsame⟩
  · exact ⟨e, List.mem_cons_self, rfl⟩
  · exact ⟨e, List.mem_cons_self, rfl⟩

/-- Any token can stand in a node of this kind. -/
class Open (k : Cst.Kind) : Prop where
  admits (t : Token.Kind) : k.admits t = true

instance : Open .operator := ⟨fun _ => rfl⟩

instance : Open .voidType := ⟨fun _ => rfl⟩

instance : Open .literal := ⟨fun _ => rfl⟩

instance : Open .thisRef := ⟨fun _ => rfl⟩

instance : Open .superRef := ⟨fun _ => rfl⟩

/-! ## Readers -/

/-- If the errors behind the reader are those of the law, the nodes of its result obey the law. -/
class Keeps (L : NodeLaw) (p : Parser α) : Prop where
  obeys (s : State) (hs : L.Start s) (h : (p s).2.errors ⊆ L.errors) : Obeys L (p s).1

namespace Keeps

instance other {α : Type} {p : Parser α} : @Keeps α Parts.other L p := ⟨fun _ _ _ => Obeys.other⟩

instance pure {a : α} [ha : Obeys L a] : Keeps L (pure a : Parser α) := ⟨fun _ _ _ => ha⟩

instance bind {p : Parser α} {f : α → Parser β} [hp : Keeps L p] [hp' : Forward p] [hf : ∀ a, Forward (f a)]
    [hf' : ∀ a : Known α L, Keeps L (f a.1)] : Keeps L (p >>= f) := by
  refine ⟨fun s hs h => ?_⟩
  have hbefore : (p s).2.errors ⊆ L.errors := fun e he => h (((hf (p s).1).onward (p s).2).errors.subset he)
  exact (hf' ⟨(p s).1, hp.obeys s hs hbefore⟩).obeys _ (L.start_onward (hp'.onward s) hs) h

/-- The parts of a sequence keep the law. -/
theorem seq {p : Parser α} {f : α → Parser β} [Forward p] (hp : Keeps L p) (hf : ∀ a, Forward (f a))
    (hf' : ∀ a : Known α L, Keeps L (f a.1)) : Keeps L (p >>= f) := bind

/-- What is done depends on whether there is a tree. -/
theorem optional {p : Parser (Option Cst)} {f : Option Cst → Parser α} [Forward p] (hp : Keeps L p)
    (hf : ∀ o, Forward (f o)) (hnone : Keeps L (f none)) (hsome : ∀ t, Obeys L t → Keeps L (f (some t))) :
    Keeps L (p >>= f) := by
  refine seq hp hf fun ⟨o, ho⟩ => ?_
  cases o with
  | none => exact hnone
  | some t => exact hsome t ⟨ho.every⟩

instance ite {c : Prop} [Decidable c] {p q : Parser α} [hp : Keeps L p] [hq : Keeps L q] :
    Keeps L (if c then p else q) := by
  split <;> assumption

/-- What follows the report of an error may have an error node at its place. -/
theorem reported {t : Token} {c : SyntaxError.Cause} {f : SyntaxError → Parser Unit} [hf : ∀ e, Forward (f e)] :
    Keeps L (do
      let e ← report c t.span.first
      f e
      return (.node { kind := .error, span := t.span, error := some e } [] : Cst)) := by
  refine ⟨fun s hs h => .of_tree (Tree.every_node.2 ⟨L.error _ ?_, fun _ h => nomatch h⟩)⟩
  obtain ⟨e, he, hoffset⟩ := s.exists_mem_record ⟨c, t.span.first⟩
  exact ⟨e, h (((hf _).onward _).errors.subset he), hoffset⟩

instance finish {kind : Cst.Kind} {start : Position} {ts : List Cst} [h : Free L kind] [hts : Obeys L ts] :
    Keeps L (finish kind start ts) :=
  ⟨fun _ _ _ => .of_tree (Tree.every_node.2 ⟨h.holds _ ts rfl, hts.every⟩)⟩

instance {kind : Cst.Kind} {p : Parser (List Cst)} [Free L kind] [Forward p] [Keeps L p] :
    Keeps L (node kind p) := by unfold node; infer_instance

theorem holds_node {kind : Cst.Kind} [h : Free L kind] (p : Parser (List Cst)) (s : State) :
    L.Holds (Grammar.node kind p s).1 :=
  h.holds _ _ rfl

/-- A node of whose root something is known. -/
theorem rooted {kind : Cst.Kind} {p : Parser (List Cst)} (hp : Keeps L p)
    (hroot : ∀ s, L.Start s → (Grammar.node kind p s).2.errors ⊆ L.errors → L.Holds (Grammar.node kind p s).1) :
    Keeps L (Grammar.node kind p) :=
  ⟨fun s hs h => .of_tree (Tree.every_node.2 ⟨hroot s hs h, (hp.obeys s hs h).every⟩)⟩

instance {kind : Cst.Kind} {t : Cst} {p : Parser (List Cst)} [Free L kind] [Obeys L t]
    [Forward p] [Keeps L p] : Keeps L (nodeFrom kind t p) := by unfold nodeFrom; infer_instance

instance extend {t : Cst} [h : Obeys L t] : Keeps L (extend t) := ⟨fun _ _ _ => Obeys.endingAt⟩

instance leaf {kind : Cst.Kind} [h : Holds kind.isToken] [hopen : Open kind] : Keeps L (leaf kind) :=
  ⟨fun s hs _ => .bare (L.leaf s hs kind h.eq_true (hopen.admits _))⟩

instance errorNode {construct : Construct} {recovery : List Token.Kind} : Keeps L (errorNode construct recovery) :=
  ⟨fun s hs h => (reported (t := s.current) (f := fun _ => recover recovery)).obeys s hs h⟩

end Keeps

/-- The same of a reader that starts where a condition holds. -/
structure KeepsWhen (L : NodeLaw) (C : State → Prop) (p : Parser α) : Prop where
  obeys (s : State) (hs : L.Start s) (hC : C s) (h : (p s).2.errors ⊆ L.errors) : Obeys L (p s).1

section

variable {C : State → Prop}

theorem Keeps.when {p : Parser α} (hp : Keeps L p) : KeepsWhen L C p := ⟨fun s hs _ h => hp.obeys s hs h⟩

theorem KeepsWhen.seq {p : Parser α} {f : α → Parser β} [hp' : Forward p] (hp : KeepsWhen L C p)
    (hf : ∀ a, Forward (f a)) (hf' : ∀ a : Known α L, Keeps L (f a.1)) : KeepsWhen L C (p >>= f) := by
  refine ⟨fun s hs hC h => ?_⟩
  have hbefore : (p s).2.errors ⊆ L.errors := fun e he => h (((hf (p s).1).onward (p s).2).errors.subset he)
  exact (hf' ⟨(p s).1, hp.obeys s hs hC hbefore⟩).obeys _ (L.start_onward (hp'.onward s) hs) h

theorem KeepsWhen.node {kind : Cst.Kind} {p : Parser (List Cst)} [h : Free L kind] (hp : KeepsWhen L C p) :
    KeepsWhen L C (node kind p) :=
  ⟨fun s hs hC herrors => .of_tree (Tree.every_node.2 ⟨h.holds _ _ rfl, (hp.obeys s hs hC herrors).every⟩)⟩

/-- A node for a token of the right kind. -/
theorem KeepsWhen.leaf {kind : Cst.Kind} (h : kind.isToken = true) (hC : ∀ s, C s → kind.admits s.current.kind = true) :
    KeepsWhen L C (leaf kind) :=
  ⟨fun s hs hs' _ => .bare (L.leaf s hs kind h (hC s hs'))⟩

/-- What is done depends on the current token. -/
theorem Keeps.peeked {f : Token → Parser α} (hf : ∀ t, KeepsWhen L (fun s => s.current = t) (f t)) :
    Keeps L (peek >>= f) :=
  ⟨fun s hs h => (hf s.current).obeys s hs rfl h⟩

/-- Going back to the start, one finds a token there that has not been split. -/
theorem Onward.kind_current {s s' : State} (h : Onward s s') (hpos : s'.pos = s.pos)
    (hk : afterAngle s.current.kind = none) : s'.current.kind = s.current.kind := by
  have hkind (i : Nat) (hi : ∀ t, s.tokens[i]? = some t → t = s.current) :
      (s'.tokens[i]?).map (·.kind) = (s.tokens[i]?).map (·.kind) := by
    cases ht : s.tokens[i]? with
    | none =>
      rw [Array.getElem?_eq_none_iff, ← h.size] at ht
      rw [Array.getElem?_eq_none_iff.2 ht]
    | some t =>
      obtain ⟨t', ht', hremains⟩ := h.kinds i t ht
      rw [ht', Option.map_some, Option.map_some, hremains.eq (hi t ht ▸ hk)]
  have hcurrent := hkind s.pos fun t ht => by rw [State.current, ht]
  cases ht : s.tokens[s.pos]? with
  | some t =>
    obtain ⟨t', ht', -⟩ := h.kinds _ t ht
    rw [ht, ht', Option.map_some, Option.map_some, Option.some.injEq] at hcurrent
    rw [State.current, hpos, ht', State.current, ht]
    exact hcurrent
  | none =>
    have hnone : s'.tokens[s'.pos]? = none := by
      rw [Array.getElem?_eq_none_iff, h.size, hpos]
      exact Array.getElem?_eq_none_iff.1 ht
    have hlast := hkind (s.tokens.size - 1) fun t ht' => by rw [State.current, ht, Array.back?, ht']; rfl
    rw [State.current, hnone, State.current, ht, Array.back?, Array.back?, h.size]
    generalize s'.tokens[s.tokens.size - 1]? = x, s.tokens[s.tokens.size - 1]? = y at hlast
    cases x <;> cases y <;> simp_all

theorem afterAngle_of_isName (k : Token.Kind) (h : k.isName = true) : afterAngle k = none := by
  cases k <;> first | rfl | cases h

theorem afterAngle_of_isPrimitive (k : Token.Kind) (h : k.isPrimitive = true) : afterAngle k = none := by
  cases k <;> first | rfl | cases h

/-- After looking ahead, the same token is current. -/
theorem KeepsWhen.ahead {p : Parser α} {f : α → Parser β} [hp' : Forward p] [hp : Keeps L p] {K : Token.Kind → Bool}
    (hK : ∀ k, K k = true → afterAngle k = none) (hf : ∀ a, Forward (f a))
    (hf' : ∀ a : Known α L, KeepsWhen L (fun s => K s.current.kind = true) (f a.1)) :
    KeepsWhen L (fun s => K s.current.kind = true) (lookAhead p >>= f) := by
  refine ⟨fun s hs hC h => ?_⟩
  have honward : Onward s (lookAhead p s).2 := (hp'.onward s).back
  have hbefore : (p s).2.errors ⊆ L.errors := fun e he => h (((hf (p s).1).onward (lookAhead p s).2).errors.subset he)
  have hkind := honward.kind_current rfl (hK _ hC)
  exact (hf' ⟨(p s).1, hp.obeys s hs hbefore⟩).obeys _ (L.start_onward honward hs) (hkind.symm ▸ hC) h

/-- A question that leaves the state as it is, and whose answer tells something of it. -/
theorem KeepsWhen.asked {γ : Type} {c : Parser γ} {f : γ → Parser β} (hstays : ∀ s, (c s).2 = s)
    (hf : ∀ a, KeepsWhen L (fun s => C s ∧ (c s).1 = a) (f a)) : KeepsWhen L C (c >>= f) := by
  refine ⟨fun s hs hC h => ?_⟩
  have hrun : (c >>= f) s = f (c s).1 s := bind_run (Prod.ext rfl (hstays s))
  rw [hrun] at h ⊢
  exact (hf _).obeys s hs ⟨hC, rfl⟩ h

theorem KeepsWhen.mono {C' : State → Prop} {p : Parser α} (hp : KeepsWhen L C p) (h : ∀ s, C' s → C s) :
    KeepsWhen L C' p :=
  ⟨fun s hs hC => hp.obeys s hs (h s hC)⟩

/-- A test that leaves the state as it is and tells something of it. -/
theorem Keeps.test {c : Parser Bool} {p q : Parser α} (hstays : ∀ s, (c s).2 = s) (hc : ∀ s, (c s).1 = true → C s)
    (hp : KeepsWhen L C p) (hq : Keeps L q) : Keeps L (do if ← c then p else q) := by
  refine ⟨fun s hs h => ?_⟩
  have hrun : (do if ← c then p else q) s = (if (c s).1 = true then p else q) s := bind_run (Prod.ext rfl (hstays s))
  rw [hrun] at h ⊢
  split at h
  · next hyes => exact if_pos hyes ▸ hp.obeys s hs (hc s hyes) h
  · next hno => exact if_neg hno ▸ hq.obeys s hs h

end

theorem isModifier_apply (s : State) : isModifier s =
    (match s.current.kind with
      | .kwDefault => !((s.ahead 1).kind == .colon)
      | .kwSynchronized => !((s.ahead 1).kind == .lparen)
      | k => k.isModifier, s) := by
  change (match s.current.kind with
      | .kwDefault => not <$> checkAhead 1 .colon
      | .kwSynchronized => not <$> checkAhead 1 .lparen
      | k => return k.isModifier : Parser Bool) s = _
  split <;> simp_all <;> rfl

namespace Keeps

instance identifier : Keeps L identifier := by
  have hmissing : Keeps L (do
      let t ← peek
      let e ← reportHere .missingIdentifier
      return (.node { kind := .error, span := t.span, error := some e } [] : Cst)) :=
    ⟨fun s hs h => (reported (t := s.current) (f := fun _ => Pure.pure ())).obeys s hs h⟩
  exact test (fun _ => rfl) (fun _ h => h) (.leaf rfl fun _ h => h) hmissing

/-! ## Loops -/

instance repeatUpTo {turn : σ → Parser (Turn σ)} [∀ a, Forward (turn a)] [∀ a, Keeps L (turn a)] (n : Nat) (a : σ) :
    Keeps L (repeatUpTo turn n a) := by
  induction n generalizing a with
  | zero => exact pure
  | succ n ih =>
    refine seq inferInstance (fun t => by split <;> infer_instance) fun t => ?_
    have hadded : Obeys L t.1.added := ⟨t.2.every⟩
    split <;> infer_instance

instance {turn : σ → Parser (Turn σ)} [∀ a, Forward (turn a)] [∀ a, Keeps L (turn a)] (a : σ) :
    Keeps L (repeatFrom a turn) := by unfold repeatFrom; infer_instance

instance {turn : Parser (Turn Unit)} [Forward turn] [Keeps L turn] : Keeps L (repeatTurns turn) := by
  unfold repeatTurns; infer_instance

theorem growUpTo {turn : Cst → Parser (Option Cst)} [∀ t, Forward (turn t)]
    [∀ t : Known Cst L, Keeps L (turn t.1)] (n : Nat) (t : Known Cst L) : Keeps L (growUpTo turn n t.1) := by
  induction n generalizing t with
  | zero => exact pure
  | succ n ih =>
    exact optional inferInstance (fun t => by split <;> infer_instance) pure fun u hu => ih ⟨u, hu⟩

instance grow {turn : Cst → Parser (Option Cst)} [∀ t, Forward (turn t)]
    [∀ t : Known Cst L, Keeps L (turn t.1)] (t : Cst) [ht : Obeys L t] : Keeps L (grow t turn) :=
  seq inferInstance inferInstance fun _ => growUpTo _ ⟨t, ht⟩

section

variable {condition : Parser Bool} {item : Parser Cst} [Forward condition] [Forward item] [Keeps L item]

instance : Keeps L (optionalIf condition item) := by unfold optionalIf; infer_instance

omit [Forward condition] in
instance (k : Token.Kind) : Keeps L (optionalAt k item) := by unfold optionalAt; infer_instance

instance : Keeps L (manyWhile condition item) := by unfold manyWhile whileTurn; infer_instance

omit [Forward condition] in
instance (k : Token.Kind) : Keeps L (manyAt k item) := by unfold manyAt; infer_instance

omit [Forward condition] in
instance (k : Token.Kind) : Keeps L (itemTurn k item) := by unfold itemTurn; infer_instance

omit [Forward condition] in
instance (k : Token.Kind) : Keeps L (separated k item) := by unfold separated; infer_instance

omit [Forward condition] in
instance (stop k : Token.Kind) : Keeps L (separatedUntil stop k item) := by
  unfold separatedUntil untilTurn
  infer_instance

set_option synthInstance.maxSize 2000 in
instance {p : Parser α} [Forward p] [Keeps L p] : Keeps L (guarded p) := by unfold guarded; infer_instance

omit [Forward condition] in
instance : Keeps L (guardedTurn item) := by unfold guardedTurn; dsimp only; infer_instance

omit [Forward condition] in
instance (stops : List Token.Kind) : Keeps L (guardedUntil stops item) := by
  unfold guardedUntil guardedUntilTurn
  infer_instance

omit [Forward condition] in
set_option synthInstance.maxSize 2000 in
instance (stops : List Token.Kind) : Keeps L (declarationsUntil stops item) := by
  unfold declarationsUntil declarationTurn
  infer_instance

end

set_option synthInstance.maxSize 2000 in
instance : Keeps L qualifiedName := by unfold qualifiedName; infer_instance

/-! ## Productions -/

section

-- A production is a long program, whose instance is made of as many as it has steps.
set_option synthInstance.maxSize 100000

variable (rules : Rules) [∀ p, Forward (rules p)] [∀ p, Keeps L (rules p)]

instance : Keeps L (annotationUse rules) := by unfold annotationUse elementValuePair; dsimp only; infer_instance

instance : Keeps L (annotations rules) := by unfold annotations; infer_instance

instance elementValue : Keeps L (elementValue rules) := by unfold Grammar.elementValue; infer_instance

instance modifiers : Keeps L (modifiers rules) := by
  have hword :
      Keeps L (do if ← isModifier then return Turn.more [← Grammar.leaf .modifier] () else return .last []) := by
    refine test (C := fun s => s.current.kind.isModifier = true) (fun s => by rw [isModifier_apply])
      (fun s h => ?_) ?_ pure
    · rw [isModifier_apply] at h
      dsimp only at h
      split at h
      · next hk => rw [hk]; rfl
      · next hk => rw [hk]; rfl
      · exact h
    · exact .seq (.leaf rfl fun _ h => h) inferInstance fun _ => inferInstance
  unfold Grammar.modifiers modifierTurn; infer_instance

/-- The law holds of the lists between angle brackets. -/
class Bracketed (L : NodeLaw) (rules : Rules) : Prop where
  arguments (s : State) (hs : L.Start s) (h : (typeArguments rules s).2.errors ⊆ L.errors) :
    L.Holds (typeArguments rules s).1
  parameters (s : State) (hs : L.Start s) (h : (typeParameters rules s).2.errors ⊆ L.errors) :
    L.Holds (typeParameters rules s).1

instance [Free L .typeArguments] [Free L .typeParameters] : Bracketed L rules :=
  ⟨fun s _ _ => holds_node _ s, fun s _ _ => holds_node _ s⟩

variable [hbracketed : Bracketed L rules]

instance : Keeps L (typeArguments rules) := by
  have hroot := hbracketed.arguments
  unfold typeArguments typeArgument wildcard at hroot ⊢
  exact rooted inferInstance hroot

instance : Keeps L (classType rules) := by unfold classType segmentTurn classTypeElement; infer_instance

instance : Keeps L (dims rules) := by unfold dims dim; infer_instance

instance : Keeps L (dimsHere rules) := by unfold dimsHere; infer_instance

instance elementType (otherwise : Parser Cst) (more : Parser (List Cst)) [Forward otherwise] [Keeps L otherwise]
    [Forward more] [Keeps L more] : Keeps L (elementType rules otherwise more) := by
  refine seq inferInstance inferInstance fun start => ?_
  refine seq inferInstance inferInstance fun annotations => peeked fun t => ?_
  dsimp only
  split
  · next hprimitive =>
    exact .seq (.leaf rfl fun s hs => hs ▸ hprimitive) inferInstance fun name => inferInstance
  · exact Keeps.when inferInstance

instance type : Keeps L (type rules) := by unfold Grammar.type; infer_instance

instance : Keeps L (typeParameters rules) := by
  have hroot := hbracketed.parameters
  unfold typeParameters typeParameter at hroot ⊢
  exact rooted inferInstance hroot

instance : Keeps L (typeList rules) := by unfold typeList; infer_instance

instance : Keeps L (variableInitializer rules) := by unfold variableInitializer; infer_instance

instance arrayInitializer : Keeps L (arrayInitializer rules) := by unfold Grammar.arrayInitializer; infer_instance

instance : Keeps L (variableDeclarators rules) := by unfold variableDeclarators variableDeclarator; infer_instance

instance : Keeps L (localVarDecl rules) := by unfold localVarDecl; infer_instance

instance : Keeps L (formalParameter rules) := by unfold formalParameter varargs; infer_instance

instance : Keeps L (formalParameters rules) := by unfold formalParameters; infer_instance

instance : Keeps L (blockStatement rules) := by unfold blockStatement; infer_instance

instance : Keeps L (block rules) := by unfold block; infer_instance

instance : Keeps L (expressionList rules) := by unfold expressionList; infer_instance

instance : Keeps L (parenthesized rules) := by unfold parenthesized; infer_instance

instance : Keeps L (arguments rules) := by unfold arguments; infer_instance

instance : Keeps L (lambda rules) := by unfold lambda lambdaParameters; infer_instance

/-- Does the token start a class literal of a primitive type or of `void`? -/
def namesPrimitive (k : Token.Kind) : Bool := k.isPrimitive || k == .kwVoid

omit hbracketed in
theorem primitiveTypeExpression :
    KeepsWhen L (fun s => namesPrimitive s.current.kind = true) (primitiveTypeExpression rules) := by
  have hliteral (dimensions : Option Cst) : KeepsWhen L (fun s => s.current.kind.isPrimitive = true)
      (Grammar.node .typeLiteral do
      let word ← Grammar.leaf .primitiveType
      let dimensions ← if dimensions.isSome then Pure.pure (← dims rules).toList else Pure.pure []
      expect .dot
      expect .kwClass
      return word :: dimensions) :=
    .node (.seq (.leaf rfl fun _ h => h) inferInstance fun word => by dsimp only; infer_instance)
  rw [primitiveTypeExpression_eq]
  refine .asked (fun _ => rfl) fun void => ?_
  cases void with
  | true =>
    rw [if_pos rfl]
    exact Keeps.when inferInstance
  | false =>
    rw [if_neg Bool.false_ne_true]
    refine .mono (.ahead afterAngle_of_isPrimitive (fun _ => by dsimp only; infer_instance) fun x => ?_) ?_
    · obtain ⟨⟨dimensions, isReference⟩, hx⟩ := x
      cases isReference with
      | true => exact Keeps.when (inferInstance : Keeps L (Grammar.node .typeReference do return [← rules .type]))
      | false => exact hliteral dimensions
    · rintro s ⟨hs, hvoid⟩
      simpa [namesPrimitive, show (s.current.kind == .kwVoid) = false from hvoid] using hs

instance : Keeps L (createdType rules) := by unfold createdType; infer_instance

instance : Keeps L (creationTail rules) := by unfold creationTail; infer_instance

instance : Keeps L (creation rules) := by unfold creation arrayCreationTail dimExpr; infer_instance

instance primary : Keeps L (primary rules) := by
  refine peeked fun t => ?_
  split
  case h_12 =>
    split
    · next hprimitive =>
      refine (primitiveTypeExpression rules).mono fun s hs => ?_
      rw [hs]
      simpa [namesPrimitive] using hprimitive
    · split
      · next hname =>
        refine KeepsWhen.mono (C := fun s => s.current.kind.isName = true) ?_ fun s hs => hs ▸ hname
        refine .ahead afterAngle_of_isName inferInstance fun generic => ?_
        split
        · exact Keeps.when inferInstance
        · exact .leaf rfl fun _ h => h
      · exact Keeps.when inferInstance
  all_goals exact Keeps.when inferInstance

instance dotSuffix : Keeps L (dotSuffix rules) := by
  refine seq inferInstance (fun _ => Forward.seq inferInstance fun s => by split <;> infer_instance) fun _ =>
    seq inferInstance (fun s => by split <;> infer_instance) fun s => ?_
  split <;> infer_instance

section

variable [Free L .methodRefSuffix] [Free L .postIncDecSuffix] [Free L .suffixed]

omit [Free L .postIncDecSuffix] [Free L .suffixed] in
instance methodRefSuffix (dimensions : Option Cst) [Obeys L dimensions] :
    Keeps L (methodRefSuffix rules dimensions) := by
  unfold Grammar.methodRefSuffix
  split <;> (dsimp only; infer_instance)

omit [Free L .postIncDecSuffix] [Free L .suffixed] in
instance : Keeps L (arrayTypeSuffix rules) := by unfold arrayTypeSuffix; infer_instance

omit [Free L .suffixed] in
instance suffix : Keeps L (suffix rules) := by
  refine seq inferInstance (fun t => by split <;> infer_instance) fun t => ?_
  split <;> infer_instance

omit [Free L .suffixed] in
instance (r : Receiver) : Keeps L (suffixTurn rules r) :=
  optional inferInstance (fun t => by split <;> infer_instance) pure fun _ _ => inferInstance

instance suffixed : Keeps L (suffixed rules) := by
  unfold Grammar.suffixed
  dsimp only
  infer_instance

end

instance : Keeps L (cast rules) := by unfold cast; infer_instance

instance : Keeps L (resource rules) := by unfold resource; infer_instance

instance : Keeps L (catchClause rules) := by unfold catchClause; infer_instance

/-- A `try` statement obeys the law if its parts do. -/
class KeepsTry (L : NodeLaw) : Prop where
  keeps (rules : Rules) [∀ p, Forward (rules p)] [∀ p, Keeps L (rules p)] [Bracketed L rules] :
    Keeps L (tryStatement rules)

instance [Free L .tryStmt] : KeepsTry L := ⟨fun rules => by unfold tryStatement; infer_instance⟩

instance switchLabel : Keeps L (switchLabel rules) := by
  -- the label of the node that is finished is that of a label, whatever it consists of
  have hlabel (t : Token) (value : Known (List Cst) L) : Keeps L (do
      expect .colon
      let label ← Grammar.finish .switchLabel t.span.first value.1
      return (.node { label.label with token := some t } value.1 : Cst)) :=
    ⟨fun _ _ _ => .of_tree (Tree.every_node.2 ⟨L.framed _ _ rfl, value.2.every⟩)⟩
  refine seq inferInstance inferInstance fun t => ?_
  dsimp only
  split
  · exact seq inferInstance inferInstance fun value => seq inferInstance inferInstance fun value => hlabel _ value
  · exact seq inferInstance inferInstance fun value => hlabel _ value

instance (kind : Cst.Kind) (operand : Parser Cst) [Free L kind] [Forward operand]
    [Keeps L operand] : Keeps L (jumpStatement kind operand) := by unfold jumpStatement; infer_instance

instance statement [htry : KeepsTry L] : Keeps L (statement rules) := by
  have htry := htry.keeps rules
  have hempty : Keeps L (Grammar.node .emptyStmt do
      skip
      return []) := ⟨fun _ _ _ => .bare (L.empty _ rfl)⟩
  unfold Grammar.statement ifStatement whileStatement doStatement forStatement forEachParts forParts switchStatement
    groupTurn switchGroup synchronizedStatement throwStatement assertStatement labeledStatement expressionStatement
  refine seq inferInstance (fun t => by split <;> infer_instance) fun t => ?_
  split <;> infer_instance

instance (kind : Cst.Kind) (modifiers : Cst) (parts : Parser (List Cst)) [Free L kind]
    [Obeys L modifiers] [Forward parts] [Keeps L parts] :
    Keeps L (declaration kind modifiers parts) := by unfold declaration; infer_instance

instance (modifiers : Cst) [Obeys L modifiers] : Keeps L (typeDecl? rules modifiers) := by
  unfold typeDecl? classDecl interfaceDecl annotationTypeDecl; infer_instance

instance : Keeps L (throwsClause rules) := by unfold throwsClause; infer_instance

instance : Keeps L (returnType rules) := by unfold returnType; infer_instance

instance (kind : Cst.Kind) (modifiers : Cst) (typeParameters : List Cst) (returnType : Cst)
    [Free L kind] [Obeys L modifiers] [Obeys L typeParameters] [Obeys L returnType] :
    Keeps L (methodDecl rules kind modifiers typeParameters returnType) := by unfold methodDecl; infer_instance

instance (kind : Cst.Kind) (modifiers type : Cst) [Free L kind] [Obeys L modifiers]
    [Obeys L type] : Keeps L (fieldDecl rules kind modifiers type) := by unfold fieldDecl; infer_instance

instance typeOr {rest : Cst → Parser Cst} [∀ t, Forward (rest t)] [∀ t : Known Cst L, Keeps L (rest t.1)] :
    Keeps L (typeOr rules rest) :=
  seq inferInstance (fun _ => .seq inferInstance fun o => by split <;> infer_instance) fun _ =>
    optional inferInstance (fun o => by split <;> infer_instance) inferInstance fun _ _ => pure

/-- The object before the call of a constructor is a name, which is followed by members. -/
class KeepsScope (L : NodeLaw) : Prop where
  keeps : KeepsWhen L (fun s => s.current.kind.isName = true) constructorScope

instance [Free L .suffixed] : KeepsScope L :=
  ⟨.seq (.leaf rfl fun _ h => h) inferInstance fun _ => inferInstance⟩

section

variable [hscope : KeepsScope L]

instance constructorCall : Keeps L (constructorCall rules) := by
  have hoptional : Keeps L (optionalIf checkName do
      let scope ← constructorScope
      expect .dot
      return scope) :=
    test (fun _ => rfl) (fun _ h => h) (.seq (.seq hscope.keeps inferInstance fun _ => inferInstance) inferInstance
      fun _ => inferInstance) pure
  unfold Grammar.constructorCall; infer_instance

instance (modifiers : Cst) (typeParameters : List Cst) [Obeys L modifiers]
    [Obeys L typeParameters] : Keeps L (constructorDecl rules modifiers typeParameters) := by
  unfold constructorDecl constructorBody; infer_instance

instance (method field : Cst.Kind) (construct : Construct) (modifiers : Cst) (typeParameters : List Cst)
    [Free L method] [Free L field] [Obeys L modifiers] [Obeys L typeParameters] :
    Keeps L (methodOrField rules method field construct modifiers typeParameters) := by
  unfold methodOrField
  infer_instance

instance classMember : Keeps L (classMember rules) := by
  have hstatic : KeepsWhen L (fun s => s.current.kind = .kwStatic) (Grammar.node .initializer do
      let word ← Grammar.leaf .modifier
      return [word, ← block rules]) :=
    .node (.seq (.leaf rfl fun _ h => h ▸ rfl) inferInstance fun _ => inferInstance)
  have hinitializer : ∀ s, ((check .kwStatic <&&> checkAhead 1 .lbrace) s).2 = s := fun s => by
    rw [and_run]
    split <;> rfl
  have hrest (q : Parser Cst) [hq : Keeps L q] := test hinitializer (fun s h => beq_iff_eq.1 (and_left h)) hstatic hq
  unfold Grammar.classMember; infer_instance

end

instance interfaceMember : Keeps L (interfaceMember rules) := by unfold Grammar.interfaceMember; infer_instance

instance annotationTypeMember : Keeps L (annotationTypeMember rules) := by
  unfold Grammar.annotationTypeMember
  infer_instance

instance (kind : Cst.Kind) (member : Parser Cst) [Free L kind] [Forward member] [Keeps L member] :
    Keeps L (body kind member) := by unfold body; infer_instance

omit [∀ p, Forward (rules p)] [∀ p, Keeps L (rules p)] in
instance importDecl : Keeps L (importDecl) := by
  have hword : Keeps L (optionalAt .kwStatic (Grammar.leaf .modifier)) :=
    test (C := fun s => s.current.kind = .kwStatic) (fun _ => rfl) (fun _ h => beq_iff_eq.1 h)
      (.seq (.leaf rfl fun _ h => h ▸ rfl) inferInstance fun _ => inferInstance) pure
  unfold Grammar.importDecl; dsimp only; infer_instance

instance topLevelType : Keeps L (topLevelType rules) := by unfold Grammar.topLevelType; infer_instance

instance : Keeps L (topLevelTypes rules) := by unfold topLevelTypes typeTurn countedType; dsimp only; infer_instance

instance : Keeps L (compilationUnit rules) := by unfold compilationUnit packageDecl; infer_instance

instance : Keeps L (standaloneExpression rules) := by unfold standaloneExpression; infer_instance

end

/-- If the operations obey the law, all productions do. -/
theorem production (rules : Rules) [∀ p, Forward (rules p)] [∀ p, Keeps L (rules p)] [Bracketed L rules] [KeepsScope L]
    [KeepsTry L] (hexpression : Keeps L (Grammar.expression rules)) (hconditional : Keeps L (Grammar.conditional rules))
    (hunary : Keeps L (Grammar.unary rules)) (p : Production) : Keeps L (Grammar.production rules p) := by
  cases p with
  | expression => exact hexpression
  | conditional => exact hconditional
  | unary => exact hunary
  | elementValue => exact elementValue rules
  | type => exact type rules
  | statement => exact statement rules
  | classBody => exact (inferInstance : Keeps L (Grammar.body .classBody (Grammar.classMember rules)))
  | interfaceBody => exact (inferInstance : Keeps L (Grammar.body .interfaceBody (Grammar.interfaceMember rules)))
  | annotationTypeBody =>
    exact (inferInstance : Keeps L (Grammar.body .annotationTypeBody (Grammar.annotationTypeMember rules)))
  | arrayInitializer => exact arrayInitializer rules

/-- Where the nesting is too deep, only an error node is made. -/
theorem rulesUpTo_zero (p : Production) : Keeps L (rulesUpTo 0 p) :=
  ⟨fun s hs h => (reported (t := s.current) (f := fun _ => Pure.pure ())).obeys s hs h⟩

/-! ## Laws of which operations are free -/

section

set_option synthInstance.maxSize 100000

variable (rules : Rules) [∀ p, Forward (rules p)] [∀ p, Keeps L (rules p)]

theorem expression [Free L .assignment] : Keeps L (expression rules) := by unfold Grammar.expression; infer_instance

section

variable [Free L .binary] [Free L .instanceOf]

theorem binary (levels : List (List Token.Kind)) : Keeps L (binary rules levels) := by
  induction levels with
  | nil => exact inferInstanceAs (Keeps L (rules .unary))
  | cons level tighter ih => unfold Grammar.binary operatorTurn; infer_instance

theorem conditional [Free L .conditional] : Keeps L (conditional rules) := by
  have hbinary : Keeps L (Grammar.binary rules binaryLevels) := binary rules binaryLevels
  unfold Grammar.conditional; dsimp only; infer_instance

end

variable [Free L .suffixed] [Free L .methodRefSuffix] [Free L .postIncDecSuffix] [Bracketed L rules]

theorem unary [Free L .unary] : Keeps L (unary rules) := by
  refine seq inferInstance (fun t => by split <;> infer_instance) fun t => ?_
  split <;> infer_instance

end

theorem rulesUpTo [Free L .assignment] [Free L .conditional] [Free L .binary] [Free L .instanceOf] [Free L .unary]
    [Free L .suffixed] [Free L .methodRefSuffix] [Free L .postIncDecSuffix]
    [∀ depth, Bracketed L (Grammar.rulesUpTo depth)] [KeepsTry L] (depth : Nat) (p : Production) :
    Keeps L (rulesUpTo depth p) := by
  induction depth generalizing p with
  | zero => exact rulesUpTo_zero p
  | succ depth ih => exact production _ (expression _) (conditional _) (unary _) p

end Keeps

end KiteCompiler.Grammar
