import KiteCompiler.Proofs.Contract.Layout

/-!
# What a reader gives

If no error is recorded, what a reader gives satisfies the property that `Gives` finds for it: a tree fits its place in
the grammar, a list of trees is a row. The property is found by instance search, from the parts of a reader to the
whole; what is known of the results of earlier parts is passed on in their types.
-/

namespace KiteCompiler.Grammar

open Ast.Reading

variable {α β σ : Type}

/-! ## Values -/

/-- The value has a property, which depends on how it is made. -/
class Has (a : α) (Q : outParam (α → Prop)) : Prop where
  has : Q a

/-- Two rows one after the other. -/
class Joins (is js : List Item) (ks : outParam (List Item)) : Prop where
  row {ts us : List Cst} (hts : Row is ts) (hus : Row js us) : Row ks (ts ++ us)

namespace Joins

variable {is js ks : List Item} {X : Slot}

instance nil : Joins [] js js := ⟨fun {ts _} hts hus => by obtain rfl : ts = [] := hts; exact hus⟩

instance one [h : Joins is js ks] : Joins (.one X :: is) js (.one X :: ks) := by
  refine ⟨fun hts hus => ?_⟩
  obtain ⟨t, vs, rfl, ht, hvs⟩ := hts
  exact ⟨t, _, rfl, ht, h.row hvs hus⟩

instance opt [h : Joins is js ks] : Joins (.opt X :: is) js (.opt X :: ks) := by
  refine ⟨fun hts hus => ?_⟩
  obtain ⟨os, vs, rfl, hlength, hos, hvs⟩ := hts
  exact ⟨os, _, List.append_assoc .., hlength, hos, h.row hvs hus⟩

instance many [h : Joins is js ks] : Joins (.many X :: is) js (.many X :: ks) := by
  refine ⟨fun hts hus => ?_⟩
  obtain ⟨os, vs, rfl, hos, hvs⟩ := hts
  exact ⟨os, _, List.append_assoc .., hos, h.row hvs hus⟩

instance some [h : Joins is js ks] : Joins (.some X :: is) js (.some X :: ks) := by
  refine ⟨fun hts hus => ?_⟩
  obtain ⟨os, vs, rfl, hne, hos, hvs⟩ := hts
  exact ⟨os, _, List.append_assoc .., hne, hos, h.row hvs hus⟩

end Joins

/-- An optional tree, as `dims` gives it. -/
def OptFits (X : Slot) (o : Option Cst) : Prop := ∀ t, o = some t → Fits X t

theorem optFits_none (X : Slot) : OptFits X none := nofun

namespace Has

instance known {Q : α → Prop} (a : { a // Q a }) : Has a.1 Q := ⟨a.2⟩

instance nil : Has ([] : List Cst) (Row []) := ⟨rfl⟩

instance cons {X : Slot} {is : List Item} {t : Cst} {ts : List Cst} [ht : Has t (Fits X)] [hts : Has ts (Row is)] :
    Has (t :: ts) (Row (.one X :: is)) := ⟨⟨t, ts, rfl, ht.has, hts.has⟩⟩

instance append {is js ks : List Item} {ts us : List Cst} [hts : Has ts (Row is)] [hus : Has us (Row js)]
    [h : Joins is js ks] : Has (ts ++ us) (Row ks) := ⟨h.row hts.has hus.has⟩

instance toList {X : Slot} {o : Option Cst} [ho : Has o (OptFits X)] : Has o.toList (Row [.opt X]) := by
  refine ⟨o.toList, [], (List.append_nil _).symm, ?_, ?_, rfl⟩
  · cases o <;> simp
  · intro t ht
    exact ho.has t (Option.mem_toList.1 ht)

end Has

/-! ## Readers -/

/-- Results that hold no trees; nothing has to be known of them. -/
class Mute (α : Type) : Prop

instance : Mute Unit := ⟨⟩

instance : Mute Bool := ⟨⟩

instance : Mute Token := ⟨⟩

instance : Mute Position := ⟨⟩

instance : Mute State := ⟨⟩

instance : Mute SyntaxError := ⟨⟩

/-- Without an error, what the reader gives has the property. -/
class Gives (p : Parser α) (Q : outParam (α → Prop)) : Prop where
  gives (s : State) (hs : s.Ready) (h : (p s).2.errors = []) : Q (p s).1
  forward : Forward p

/-- Nothing is given: there is always an error. -/
def Never {α : Type} (_ : α) : Prop := False

namespace Gives

variable {Q R : α → Prop}

instance other [Mute α] {p : Parser α} [hp : Forward p] : Gives p fun _ => True := ⟨fun _ _ _ => trivial, hp⟩

theorem of_has {a : α} (h : Q a) : Gives (Pure.pure a : Parser α) Q := ⟨fun _ _ _ => h, inferInstance⟩

theorem mono {p : Parser α} (hp : Gives p Q) (h : ∀ a, Q a → R a) : Gives p R :=
  ⟨fun s hs herrors => h _ (hp.gives s hs herrors), hp.forward⟩

/-- What always ends in an error gives whatever is asked for. -/
theorem never {p : Parser α} (hp : Gives p Never) : Gives p Q := hp.mono fun _ h => h.elim

instance pure {a : α} [h : Has a Q] : Gives (pure a : Parser α) Q := ⟨fun _ _ _ => h.has, inferInstance⟩

instance bind {p : Parser α} {f : α → Parser β} {R : β → Prop} [hp : Gives p Q]
    [hf : ∀ a : { a // Q a }, Gives (f a.1) R] [hf' : ∀ a, Forward (f a)] : Gives (p >>= f) R := by
  have hforward := hp.forward
  refine ⟨fun s hs h => ?_, inferInstance⟩
  have hbefore : (p s).2.errors = [] := (hf' (p s).1).errors h
  exact (hf ⟨(p s).1, hp.gives s hs hbefore⟩).gives _ ((hp.forward.onward s).ready hs) h

/-- A sequence, of whose first part something is known. -/
theorem seq {p : Parser α} {f : α → Parser β} {R : β → Prop} (hp : Gives p Q) (hf : ∀ a, Q a → Gives (f a) R)
    (hf' : ∀ a, Forward (f a)) : Gives (p >>= f) R := by
  have hbound : ∀ a : { a // Q a }, Gives (f a.1) R := fun a => hf a.1 a.2
  exact bind

instance ite {c : Prop} [Decidable c] {p q : Parser α} [hp : Gives p Q] [hq : Gives q Q] :
    Gives (if c then p else q) Q := by
  split <;> assumption

instance iteElseNever {c : Prop} [Decidable c] {p q : Parser α} [hp : Gives p Q] [hq : Gives q Never] :
    Gives (if c then p else q) Q := by
  split
  · exact hp
  · exact hq.never

/-- Either no trees, or some of them. -/
instance iteNil {c : Prop} [Decidable c] {X : Slot} {q : Parser (List Cst)} [hq : Gives q (Row [.some X])] :
    Gives (if c then Pure.pure [] else q) (Row [.many X]) := by
  split
  · exact of_has row_many_nil
  · exact hq.mono fun _ => Row.many_of_some

/-- A choice whose outcomes are used in the same way. -/
theorem joined {c : Prop} [Decidable c] {p q : Parser β} {f : β → Parser α} {R : β → Prop} (hp : Gives p R)
    (hq : Gives q R) (hf : ∀ b, R b → Gives (f b) Q) (hf' : ∀ b, Forward (f b)) :
    Gives (if c then p >>= f else q >>= f) Q := by
  split
  · exact seq hp hf hf'
  · exact seq hq hf hf'

/-- No trees or some of them, which are used in the same way. -/
instance joinedNil {c : Prop} [Decidable c] {X : Slot} {q : Parser (List Cst)} {f : List Cst → Parser α}
    [hq : Gives q (Row [.some X])] [hf : ∀ ts : { ts // Row [.many X] ts }, Gives (f ts.1) Q]
    [hf' : ∀ ts, Forward (f ts)] :
    Gives (if c then Pure.pure [] >>= f else q >>= f) Q := by
  refine joined (R := Row [.many X]) (of_has row_many_nil) (hq.mono fun _ => Row.many_of_some)
    (fun ts hts => hf ⟨ts, hts⟩) hf'

/-- An optional tree, looked for only in some cases. -/
instance joinedOption {c : Prop} [Decidable c] {X : Slot} {p : Parser (Option Cst)} {f : List Cst → Parser α}
    [hp : Gives p (OptFits X)] [hf : ∀ ts : { ts // Row [.opt X] ts }, Gives (f ts.1) Q] [hf' : ∀ ts, Forward (f ts)] :
    Gives (if c then p >>= fun o => Pure.pure o.toList >>= f else Pure.pure [] >>= f) Q := by
  split
  · exact seq hp (fun o ho => hf ⟨o.toList, (@Has.toList _ _ ⟨ho⟩).has⟩) fun o => hf' o.toList
  · exact hf ⟨[], row_opt_nil⟩

/-- A tree that is read only in some cases. -/
instance joinedItem {c : Prop} [Decidable c] {X : Slot} {p : Parser Cst} {f : List Cst → Parser α}
    [hp : Gives p (Fits X)] [hf : ∀ ts : { ts // Row [.opt X] ts }, Gives (f ts.1) Q] [hf' : ∀ ts, Forward (f ts)] :
    Gives (if c then p >>= fun t => Pure.pure [t] >>= f else Pure.pure [] >>= f) Q := by
  split
  · exact seq hp (fun t ht => hf ⟨[t], Row.opt_of_one ⟨t, [], rfl, ht, rfl⟩⟩) fun t => hf' [t]
  · exact hf ⟨[], row_opt_nil⟩

/-- A part of which nothing has to be known. -/
theorem skipping [Mute β] {p : Parser β} {f : β → Parser α} [hp : Forward p] (hf : ∀ b, Gives (f b) Q) :
    Gives (p >>= f) Q :=
  seq (Q := fun _ => True) inferInstance (fun b _ => hf b) fun b => (hf b).forward

/-- A choice between two readers. -/
theorem choice {c : Prop} [Decidable c] {p q : Parser α} (hp : Gives p Q) (hq : Gives q Q) :
    Gives (if c then p else q) Q := ite

/-- A tree that is there. -/
theorem present {X : Slot} {p : Parser Cst} (hp : Gives p (Fits X)) : Gives (do return some (← p)) (OptFits X) := by
  have hforward := hp.forward
  exact seq hp (fun t ht => of_has fun u hu => Option.some.inj hu ▸ ht) inferInstance

/-! ## Nodes -/

section

variable {X : Slot} {k : Cst.Kind} {is : List Item}

instance finish {start : Position} {ts : List Cst} [hts : Has ts (Row is)] [h : Builds X k is] :
    Gives (finish k start ts) (Fits X) := ⟨fun _ _ _ => h.fits _ _ rfl hts.has, inferInstance⟩

instance node {p : Parser (List Cst)} [hp : Gives p (Row is)] [h : Builds X k is] : Gives (node k p) (Fits X) := by
  have hforward := hp.forward
  unfold Grammar.node
  infer_instance

/-- A node whose parts have a property of their own. -/
theorem nodeOf {p : Parser (List Cst)} {Q : List Cst → Prop} {R : Cst → Prop} (hp : Gives p Q)
    (h : ∀ l ts, l.kind = k → Q ts → R (.node l ts)) : Gives (Grammar.node k p) R := by
  have hforward := hp.forward
  exact skipping fun start => seq hp (fun ts hts => ⟨fun _ _ _ => h _ _ rfl hts, inferInstance⟩) inferInstance

instance nodeFrom {Y : Slot} {t : Cst} {p : Parser (List Cst)} [ht : Has t (Fits Y)] [hp : Gives p (Row is)]
    [h : Builds X k (.one Y :: is)] : Gives (nodeFrom k t p) (Fits X) := by
  have hforward := hp.forward
  unfold Grammar.nodeFrom
  infer_instance

/-- A node without children for a token: what it is read as depends on the token only. -/
theorem leafOf (h : ∀ l : Cst.Label, l.kind = k → Fits X (.node l [])) : Gives (leaf k) (Fits X) :=
  ⟨fun _ _ _ => h _ rfl, inferInstance⟩

theorem fits_token {l : Cst.Label} (hk : l.kind = k) : Fits (.token k) (.node l []) :=
  ⟨(show l.kind ∈ [k] from hk ▸ List.mem_singleton_self _), fun _ => trivial⟩

instance leaf (k : Cst.Kind) : Gives (leaf k) (Fits (.token k)) := leafOf fun _ => fits_token

theorem report_never {c : SyntaxError.Cause} {p : Position} {f : SyntaxError → Parser α} (hf : ∀ e, Forward (f e)) :
    Gives (report c p >>= f) Never := by
  refine ⟨fun s _ h => ?_, inferInstance⟩
  exact s.errors_record_ne_nil ⟨c, p⟩ ((hf ⟨c, p⟩).errors h)

theorem reportHere_never {c : Token → SyntaxError.Cause} {f : SyntaxError → Parser α} (hf : ∀ e, Forward (f e)) :
    Gives (reportHere c >>= f) Never := by
  refine ⟨fun s _ h => ?_, inferInstance⟩
  exact s.errors_record_ne_nil ⟨c s.current, s.current.span.first⟩ ((hf _).errors h)

instance errorNode (construct : Construct) (recovery : List Token.Kind) : Gives (errorNode construct recovery) Never :=
  ⟨fun s _ h => (errors_errorNode_ne_nil construct recovery s h).elim, inferInstance⟩

theorem fits_identifier {l : Cst.Label} (hk : l.kind = .identifier) : Fits .identifier (.node l []) := by
  refine ⟨(show l.kind ∈ _ by rw [hk]; decide), fun _ => ?_⟩
  rw [decorate_node]
  exact ⟨_, if_pos hk⟩

instance identifier : Gives identifier (Fits .identifier) := by
  have hname : Gives (Grammar.leaf .identifier) (Fits .identifier) := leafOf fun _ => fits_identifier
  exact skipping fun _ => choice hname (skipping fun t => (reportHere_never inferInstance).never)

end

end Gives

/-! ## What is known of the start -/

/-- The same of a reader that starts where a condition holds. -/
structure GivesWhen (C : State → Prop) (p : Parser α) (Q : α → Prop) : Prop where
  gives (s : State) (hs : s.Ready) (hC : C s) (h : (p s).2.errors = []) : Q (p s).1
  forward : Forward p

section

variable {C : State → Prop} {Q : α → Prop}

theorem Gives.when {p : Parser α} (hp : Gives p Q) : GivesWhen C p Q := ⟨fun s hs _ h => hp.gives s hs h, hp.forward⟩

theorem GivesWhen.always {p : Parser α} (hp : GivesWhen (fun _ => True) p Q) : Gives p Q :=
  ⟨fun s hs h => hp.gives s hs trivial h, hp.forward⟩

theorem GivesWhen.mono {C' : State → Prop} {p : Parser α} (hp : GivesWhen C p Q) (h : ∀ s, C' s → C s) :
    GivesWhen C' p Q :=
  ⟨fun s hs hC => hp.gives s hs (h s hC), hp.forward⟩

theorem GivesWhen.seq {p : Parser α} {f : α → Parser β} {R : β → Prop} (hp : GivesWhen C p Q)
    (hf : ∀ a, Q a → Gives (f a) R) (hf' : ∀ a, Forward (f a)) : GivesWhen C (p >>= f) R := by
  have hforward := hp.forward
  refine ⟨fun s hs hC h => ?_, inferInstance⟩
  have hbefore : (p s).2.errors = [] := (hf' (p s).1).errors h
  exact (hf _ (hp.gives s hs hC hbefore)).gives _ ((hp.forward.onward s).ready hs) h

theorem GivesWhen.node {X : Slot} {k : Cst.Kind} {p : Parser (List Cst)} {Q : List Cst → Prop} (hp : GivesWhen C p Q)
    (h : ∀ l ts, l.kind = k → Q ts → Fits X (.node l ts)) : GivesWhen C (node k p) (Fits X) := by
  have hforward := hp.forward
  exact ⟨fun s hs hC herrors => h _ _ rfl (hp.gives s hs hC herrors), inferInstance⟩

/-- The node for the current token is followed by something else. -/
theorem GivesWhen.leaf {k : Cst.Kind} {f : Cst → Parser α} (hf' : ∀ t, Forward (f t))
    (h : ∀ s : State, s.Ready → C s →
    Gives (f (.node { kind := k, span := s.current.span, token := some s.current } [])) Q) :
    GivesWhen C (Grammar.leaf k >>= f) Q :=
  ⟨fun s hs hC herrors => (h s hs hC).gives s.advance hs.advance herrors, inferInstance⟩

/-- A test that tells something of the state. -/
theorem Gives.test {c : Parser Bool} [hlooks : Looks c] [hc' : Forward c] {p q : Parser α}
    (hc : ∀ s : State, (c s).1 = true → C s) (hp : GivesWhen C p Q) (hq : Gives q Q) :
    Gives (do if ← c then p else q) Q := by
  have hp' := hp.forward
  have hq' := hq.forward
  refine ⟨fun s hs h => ?_, inferInstance⟩
  have hrun := Looks.run inferInstance h
  rw [hrun] at h ⊢
  cases hb : (c s).1 with
  | true =>
    rw [hb, if_pos rfl] at h
    rw [if_pos rfl]
    exact hp.gives s hs (hc s hb) h
  | false =>
    rw [hb, if_neg Bool.false_ne_true] at h
    rw [if_neg Bool.false_ne_true]
    exact hq.gives s hs h

/-- A question whose answer tells something of the state. -/
theorem GivesWhen.asked {c : Parser β} [hlooks : Looks c] [Forward c] {f : β → Parser α}
    (hf : ∀ b, GivesWhen (fun s => C s ∧ (c s).1 = b) (f b) Q) : GivesWhen C (c >>= f) Q := by
  have hforward := fun b => (hf b).forward
  refine ⟨fun s hs hC h => ?_, inferInstance⟩
  have hstate : (c s).2 = s := hlooks.stays ((hforward (c s).1).errors h)
  have hrun : (c >>= f) s = f (c s).1 s := by
    change f (c s).1 (c s).2 = _
    rw [hstate]
  rw [hrun] at h ⊢
  exact (hf (c s).1).gives s hs ⟨hC, rfl⟩ h

/-- Looking at the current token. -/
theorem Gives.peeked {f : Token → Parser α} (hf : ∀ t, GivesWhen (fun s => s.current = t) (f t) Q) :
    Gives (peek >>= f) Q := by
  have hforward := fun t => (hf t).forward
  exact ⟨fun s hs h => (hf s.current).gives s hs rfl h, inferInstance⟩

end

namespace Gives

/-! ## Loops -/

section

variable {X : Slot} {item : Parser Cst}

/-- The trees that a turn adds have a property. -/
def Adds (P : Cst → Prop) (t : Turn σ) : Prop := ∀ u ∈ t.added, P u

theorem repeatUpTo {P : Cst → Prop} {turn : σ → Parser (Turn σ)} (h : ∀ a, Gives (turn a) (Adds P)) (n : Nat) (a : σ) :
    Gives (repeatUpTo turn n a) (fun ts => ∀ t ∈ ts, P t) := by
  have hforward := fun a => (h a).forward
  induction n generalizing a with
  | zero => exact of_has nofun
  | succ n ih =>
    refine seq (h a) (fun t ht => ?_) fun t => by split <;> infer_instance
    split
    · exact seq (ih _) (fun ts hts => of_has (List.forall_mem_append.2 ⟨ht, hts⟩)) inferInstance
    · exact of_has ht

theorem repeatTurns_all {P : Cst → Prop} {turn : Parser (Turn Unit)} (h : Gives turn (Adds P)) :
    Gives (Grammar.repeatTurns turn) fun ts => ∀ t ∈ ts, P t := by
  have hforward := h.forward
  exact skipping fun _ => repeatUpTo (fun _ => h) _ _

theorem repeatTurns {turn : Parser (Turn Unit)} (h : Gives turn (Adds (Fits X))) :
    Gives (repeatTurns turn) (Row [.many X]) :=
  (repeatTurns_all h).mono fun ts hts => ⟨ts, [], (List.append_nil ts).symm, hts, rfl⟩

/-- If every turn adds a tree, the first one does. -/
theorem repeatTurns_some {turn : Parser (Turn Unit)} (h : Gives turn fun t => t.added ≠ [] ∧ Adds (Fits X) t) :
    Gives (Grammar.repeatTurns turn) (Row [.some X]) := by
  have hforward := h.forward
  have hturns : ∀ n, Gives (Grammar.repeatUpTo (fun _ => turn) (n + 1) ()) fun ts => ts ≠ [] ∧ ∀ t ∈ ts, Fits X t := by
    intro n
    refine seq h (fun t ht => ?_) fun t => by split <;> infer_instance
    split
    · refine seq (repeatUpTo (fun _ => h.mono fun _ => And.right) n _) (fun ts hts => of_has ?_) inferInstance
      exact ⟨List.append_ne_nil_of_left_ne_nil ht.1 _, List.forall_mem_append.2 ⟨ht.2, hts⟩⟩
    · exact of_has ht
  have hall : Gives (Grammar.repeatTurns turn) fun ts => ts ≠ [] ∧ ∀ t ∈ ts, Fits X t :=
    skipping fun s => hturns s.remaining
  exact hall.mono fun ts hts => ⟨ts, [], (List.append_nil ts).symm, hts.1, hts.2, rfl⟩

instance optionalIf {condition : Parser Bool} [Forward condition] [hitem : Gives item (Fits X)] :
    Gives (optionalIf condition item) (Row [.opt X]) := by
  have hforward := hitem.forward
  refine skipping fun _ => choice (seq hitem (fun t ht => of_has ?_) inferInstance) (of_has row_opt_nil)
  exact ⟨[t], [], rfl, Nat.le_refl 1, List.forall_mem_singleton.2 ht, rfl⟩

/-- An item that is read only where the condition holds. -/
theorem optionalIf_when {condition : Parser Bool} [Looks condition] [Forward condition]
    (hitem : GivesWhen (fun s => (condition s).1 = true) item (Fits X)) :
    Gives (Grammar.optionalIf condition item) (Row [.opt X]) := by
  have hforward := hitem.forward
  refine test (fun _ h => h) (hitem.seq (fun t ht => of_has ?_) inferInstance) (of_has row_opt_nil)
  exact ⟨[t], [], rfl, Nat.le_refl 1, List.forall_mem_singleton.2 ht, rfl⟩

instance (k : Token.Kind) [hitem : Gives item (Fits X)] : Gives (optionalAt k item) (Row [.opt X]) := by
  unfold optionalAt; infer_instance

theorem adds_one {P : Cst → Prop} {t : Cst} (ht : P t) (next : Option σ) : Adds P (⟨[t], next⟩ : Turn σ) :=
  List.forall_mem_singleton.2 ht

theorem adds_nil {P : Cst → Prop} (next : Option σ) : Adds P (⟨[], next⟩ : Turn σ) := nofun

theorem manyWhile_all {P : Cst → Prop} {condition : Parser Bool} [Forward condition] (hitem : Gives item P) :
    Gives (Grammar.manyWhile condition item) fun ts => ∀ t ∈ ts, P t := by
  have hforward := hitem.forward
  refine repeatTurns_all (skipping fun _ => choice ?_ (of_has (adds_nil _)))
  exact seq hitem (fun t ht => of_has (adds_one ht _)) inferInstance

instance manyWhile {condition : Parser Bool} [Forward condition] [hitem : Gives item (Fits X)] :
    Gives (manyWhile condition item) (Row [.many X]) :=
  (manyWhile_all hitem).mono fun ts hts => ⟨ts, [], (List.append_nil ts).symm, hts, rfl⟩

instance (k : Token.Kind) [hitem : Gives item (Fits X)] : Gives (manyAt k item) (Row [.many X]) := by
  unfold manyAt; infer_instance

theorem itemTurn (k : Token.Kind) (hitem : Gives item (Fits X)) :
    Gives (itemTurn k item) fun t => t.added ≠ [] ∧ Adds (Fits X) t := by
  have hforward := hitem.forward
  refine seq hitem (fun t ht => skipping fun _ => choice (skipping fun _ => of_has ?_) (of_has ?_)) inferInstance
  · exact ⟨List.cons_ne_nil _ _, adds_one ht _⟩
  · exact ⟨List.cons_ne_nil _ _, adds_one ht _⟩

instance separated (k : Token.Kind) [hitem : Gives item (Fits X)] : Gives (separated k item) (Row [.some X]) :=
  repeatTurns_some (itemTurn k hitem)

instance separatedUntil (stop k : Token.Kind) [hitem : Gives item (Fits X)] :
    Gives (separatedUntil stop k item) (Row [.many X]) := by
  have hforward := hitem.forward
  exact repeatTurns (skipping fun _ => choice (of_has (adds_nil _)) ((itemTurn k hitem).mono fun _ => And.right))

theorem guarded_when {C : State → Prop} {p : Parser α} {Q : α → Prop} (hp : GivesWhen C p Q) :
    GivesWhen C (Grammar.guarded p) fun a => Q a.1 := by
  have hforward := hp.forward
  have hpart (n : Nat) : GivesWhen C (do
      let a ← p
      if (← get).pos = n then
        unless ← check .eof do
          let _ ← reportHere .unexpected
          skip
        return (a, false)
      return (a, true)) fun a => Q a.1 := by
    refine hp.seq (fun a ha => skipping fun s' => choice ?_ (of_has ha)) inferInstance
    refine skipping fun b => ?_
    split
    · exact of_has ha
    · exact skipping fun _ => skipping fun _ => of_has ha
  exact ⟨fun s hs hC h => (hpart s.pos).gives s hs hC h, inferInstance⟩

theorem guardedTurn_when {C : State → Prop} (hitem : GivesWhen C item (Fits X)) :
    GivesWhen C (Grammar.guardedTurn item) (Adds (Fits X)) := by
  have hforward := hitem.forward
  refine (guarded_when hitem).seq (fun ⟨c, moved⟩ hc => of_has ?_) inferInstance
  cases moved <;> exact adds_one hc _

theorem guardedTurn (hitem : Gives item (Fits X)) : Gives (guardedTurn item) (Adds (Fits X)) :=
  (guardedTurn_when hitem.when).always

instance guardedUntil (stops : List Token.Kind) [hitem : Gives item (Fits X)] :
    Gives (guardedUntil stops item) (Row [.many X]) := by
  have hforward := hitem.forward
  exact repeatTurns (skipping fun _ => choice (of_has (adds_nil _)) (guardedTurn hitem))

instance declarationsUntil (stops : List Token.Kind) [hitem : Gives item (Fits X)] :
    Gives (declarationsUntil stops item) (Row [.many X]) := by
  have hforward := hitem.forward
  refine repeatTurns (skipping fun _ => choice (of_has (adds_nil _)) (skipping fun _ => choice ?_ (guardedTurn hitem)))
  exact skipping fun _ => of_has (adds_nil _)

/-- What a tree is made from step by step. -/
theorem growOf {P : Cst → Prop} {turn : Cst → Parser (Option Cst)}
    (h : ∀ t, P t → Gives (turn t) fun o => ∀ u, o = some u → P u) (hforward : ∀ t, Forward (turn t)) {t : Cst}
    (ht : P t) :
    Gives (Grammar.grow t turn) P := by
  have hloop : ∀ (n : Nat) (t : Cst), P t → Gives (growUpTo turn n t) P := by
    intro n
    induction n with
    | zero => exact fun t ht => of_has ht
    | succ n ih =>
      intro t ht
      refine seq (h t ht) (fun o ho => ?_) fun o => by split <;> infer_instance
      cases o with
      | none => exact of_has ht
      | some u => exact ih u (ho u rfl)
  exact skipping fun _ => hloop _ t ht

theorem grow {turn : Cst → Parser (Option Cst)} (h : ∀ t, Fits X t → Gives (turn t) (OptFits X))
    (hforward : ∀ t, Forward (turn t)) {t : Cst} (ht : Fits X t) : Gives (grow t turn) (Fits X) :=
  growOf h hforward ht

end

end Gives

/-! ## The first turn of a loop -/

theorem repeatUpTo_last {turn : σ → Parser (Turn σ)} {n : Nat} {a : σ} {ts : List Cst} {s s' : State}
    (h : turn a s = (.last ts, s')) : repeatUpTo turn (n + 1) a s = (ts, s') := by
  rw [repeatUpTo, bind_run h]
  rfl

theorem repeatUpTo_more {turn : σ → Parser (Turn σ)} {n : Nat} {a b : σ} {ts : List Cst} {s s' : State}
    (h : turn a s = (.more ts b, s')) :
    repeatUpTo turn (n + 1) a s = (ts ++ (repeatUpTo turn n b s').1, (repeatUpTo turn n b s').2) := by
  rw [repeatUpTo, bind_run h]
  rfl

section

variable {c : Parser Bool} {s : State} (item : Parser Cst)

theorem manyWhile_of_true (h : (c s).1 = true) :
    ∃ n, manyWhile c item s = (item >>= fun t => do
      return t :: (← repeatUpTo (fun _ => whileTurn c item) n ())) (c s).2 := by
  have hturn : whileTurn c item s = (.more [(item (c s).2).1] (), (item (c s).2).2) := by
    change (if (c s).1 = true then _ else _ : Parser (Turn Unit)) (c s).2 = _
    rw [if_pos h]
    rfl
  exact ⟨s.remaining, @repeatUpTo_more Unit (fun _ => _) _ () _ _ _ _ hturn⟩

theorem manyWhile_of_false (h : (c s).1 = false) : manyWhile c item s = ([], (c s).2) := by
  have hturn : whileTurn c item s = (.last [], (c s).2) := by
    change (if (c s).1 = true then _ else _ : Parser (Turn Unit)) (c s).2 = _
    rw [if_neg (by simp [h])]
    rfl
  exact @repeatUpTo_last Unit (fun _ => _) _ () _ _ _ hturn

/-- If the condition holds, something is read. -/
theorem manyWhile_ne_nil (h : (c s).1 = true) : (manyWhile c item s).1 ≠ [] := by
  obtain ⟨n, hn⟩ := manyWhile_of_true item h
  rw [hn]
  exact List.cons_ne_nil _ _

/-- Items of which there is one, since the condition holds at the start. -/
theorem Gives.manyWhile_some {X : Slot} {C : State → Prop} {item : Parser Cst} [Forward c] (hitem : Gives item (Fits X))
    (hc : ∀ s, C s → (c s).1 = true) : GivesWhen C (Grammar.manyWhile c item) (Row [.some X]) := by
  have hmany : Gives (Grammar.manyWhile c item) (Row [.many X]) := inferInstance
  refine ⟨fun s hs hC h => ?_, hmany.forward⟩
  have hne := manyWhile_ne_nil item (hc s hC)
  obtain ⟨os, us, hts, hos, rfl⟩ := hmany.gives s hs h
  rw [hts, List.append_nil] at hne
  exact ⟨os, [], hts, hne, hos, rfl⟩

end

end KiteCompiler.Grammar
