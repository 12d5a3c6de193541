import KiteCompiler.Proofs.NothingIgnored

/-!
# Brackets

Words of brackets are `Nested` if every opening bracket is closed by the one that belongs to it. Going over the tokens
with the closing brackets that are still awaited (`pass`) decides this: where none is awaited before and behind a word,
its brackets are nested (`nested_of_passAll`).

What a reader does to the awaited brackets is known before it runs, since it does not depend on what is read: a
production leaves them as they are, and only single tokens change them. `Nests C p before after` says so for a reader
that starts at a token with the property `C` and reports no error; it is found by instance search.
-/

namespace KiteCompiler

namespace Token.Kind

/-! ## Words of brackets -/

/-- The opening brackets, each with the one that closes it. -/
def bracketPairs : List (Kind × Kind) := [(.lparen, .rparen), (.lbrace, .rbrace), (.lbracket, .rbracket)]

/-- Is this a bracket, other than an angle bracket? -/
def isBracket (k : Kind) : Bool := bracketPairs.any fun pair => pair.1 == k || pair.2 == k

/-- Every bracket that is opened is closed by the one that belongs to it, and no other one is closed. -/
inductive Nested : List Kind → Prop
  | nil : Nested []
  | pair {opening closing : Kind} {inner rest : List Kind} (h : (opening, closing) ∈ bracketPairs)
    (hinner : Nested inner) (hrest : Nested rest) : Nested (opening :: inner ++ closing :: rest)

/-- The closing brackets that are awaited behind a token, the next one first; none if another one is awaited. -/
def pass (awaited : List Kind) (k : Kind) : Option (List Kind) :=
  match bracketPairs.lookup k with
  | some closing => some (closing :: awaited)
  | none =>
    if k.isBracket then if awaited.head? = some k then some awaited.tail else none
    else some awaited

/-- The closing brackets that are awaited behind a word. -/
def passAll (awaited : List Kind) (w : List Kind) : Option (List Kind) := w.foldlM pass awaited

theorem passAll_cons (awaited : List Kind) (k : Kind) (w : List Kind) :
    passAll awaited (k :: w) = (pass awaited k).bind fun awaited => passAll awaited w := rfl

theorem passAll_append (awaited : List Kind) (w w' : List Kind) :
    passAll awaited (w ++ w') = (passAll awaited w).bind fun awaited => passAll awaited w' := List.foldlM_append

/-- A token that is no bracket is passed over. -/
theorem pass_of_not_isBracket {k : Kind} (h : k.isBracket = false) (awaited : List Kind) :
    pass awaited k = some awaited := by
  have hlookup : ∀ k : Kind, k.isBracket = false → bracketPairs.lookup k = none := by
    intro k
    cases k <;> decide
  rw [pass, hlookup k h, h]
  rfl

/-- What a bracket does: it opens a pair, or closes the one that is awaited. -/
theorem pass_isBracket {k : Kind} {awaited after : List Kind} (hk : k.isBracket = true)
    (h : pass awaited k = some after) :
    (∃ closing, (k, closing) ∈ bracketPairs ∧ after = closing :: awaited) ∨ awaited = k :: after := by
  have hpairs : ∀ k : Kind, ∀ closing ∈ bracketPairs.lookup k, (k, closing) ∈ bracketPairs := by
    intro k
    cases k <;> decide
  unfold pass at h
  split at h
  · rename_i closing hlookup
    exact .inl ⟨closing, hpairs k closing hlookup, (Option.some.inj h).symm⟩
  · rw [if_pos hk] at h
    split at h
    · rename_i hhead
      obtain ⟨rest, rfl⟩ := List.head?_eq_some_iff.1 hhead
      exact .inr (congrArg _ (Option.some.inj h))
    · exact absurd h (Option.some_ne_none _).symm

/-- The awaited brackets are closed one after the other, with nested words before, between and behind them. -/
inductive Closes : List Kind → List Kind → Prop
  | nil {w : List Kind} (h : Nested w) : Closes [] w
  | cons {closing : Kind} {awaited inner rest : List Kind} (hinner : Nested inner) (hrest : Closes awaited rest) :
    Closes (closing :: awaited) (inner ++ closing :: rest)

/-- A pair in front of a word that closes what is awaited. -/
theorem Closes.pair {opening closing : Kind} {awaited inner rest : List Kind} (h : (opening, closing) ∈ bracketPairs)
    (hinner : Nested inner) (hrest : Closes awaited rest) : Closes awaited (opening :: inner ++ closing :: rest) := by
  cases hrest with
  | nil hnested => exact .nil (.pair h hinner hnested)
  | cons hinner' hrest =>
    rw [← List.cons_append, ← List.append_assoc]
    exact .cons (.pair h hinner hinner') hrest

theorem closes_of_passAll {w : List Kind} (hw : ∀ k ∈ w, k.isBracket = true) {awaited : List Kind}
    (h : passAll awaited w = some []) : Closes awaited w := by
  induction w generalizing awaited with
  | nil =>
    obtain rfl : awaited = [] := Option.some.inj h
    exact .nil .nil
  | cons k w ih =>
    obtain ⟨hk, hw⟩ := List.forall_mem_cons.1 hw
    obtain ⟨after, hpass, hrest⟩ := Option.bind_eq_some_iff.1 h
    rcases pass_isBracket hk hpass with ⟨closing, hpair, rfl⟩ | rfl
    · -- the bracket that is opened is the next one to be closed
      obtain _ | ⟨hinner, hcloses⟩ := ih hw hrest
      exact .pair hpair hinner hcloses
    · exact .cons .nil (ih hw hrest)

theorem passAll_filter (awaited : List Kind) (w : List Kind) :
    passAll awaited (w.filter isBracket) = passAll awaited w := by
  induction w generalizing awaited with
  | nil => rfl
  | cons k w ih =>
    cases hk : k.isBracket with
    | true => rw [List.filter_cons_of_pos hk, passAll_cons, passAll_cons, funext ih]
    | false =>
      rw [List.filter_cons_of_neg (by simp [hk]), passAll_cons, pass_of_not_isBracket hk, ih]
      rfl

/-- The brackets of a word are nested if none is awaited before and behind it. -/
theorem nested_of_passAll {w : List Kind} (h : passAll [] w = some []) : Nested (w.filter isBracket) := by
  obtain ⟨hnested⟩ := closes_of_passAll (fun _ hk => (List.mem_filter.1 hk).2) ((passAll_filter _ _).trans h)
  exact hnested

end Token.Kind

namespace Grammar

open Token.Kind (pass passAll)

variable {α β σ : Type}

/-! ## Going over the tokens -/

/-- The kind of a bracket; other tokens all look the same. -/
def bracketKind (k : Token.Kind) : Token.Kind := if k.isBracket then k else .eof

theorem pass_bracketKind (awaited : List Token.Kind) (k : Token.Kind) :
    pass awaited (bracketKind k) = pass awaited k := by
  unfold bracketKind
  cases hk : k.isBracket with
  | true => rfl
  | false => rw [Token.Kind.pass_of_not_isBracket hk]; rfl

theorem passAll_bracketKind (awaited : List Token.Kind) (w : List Token.Kind) :
    passAll awaited (w.map bracketKind) = passAll awaited w := by
  induction w generalizing awaited with
  | nil => rfl
  | cons k w ih => rw [List.map_cons, Token.Kind.passAll_cons, Token.Kind.passAll_cons, pass_bracketKind, funext ih]

/-- The brackets among the tokens from the current one on, with something for each of the other tokens. -/
def State.brackets (s : State) : List Token.Kind := (s.tokens.toList.drop s.pos).map fun t => bracketKind t.kind

/-- An angle bracket that is split off is none of the brackets. -/
theorem Remains.bracketKind_eq {k k' : Token.Kind} (h : Remains k k') : bracketKind k' = bracketKind k := by
  induction h with
  | refl => rfl
  | tail _ hsplit ih =>
    rw [← ih]
    unfold afterAngle at hsplit
    split at hsplit <;> cases hsplit <;> rfl

/-- Splitting tokens leaves the brackets as they are. -/
theorem Onward.bracketKinds {s s' : State} (h : Onward s s') :
    s'.tokens.toList.map (fun t => bracketKind t.kind) = s.tokens.toList.map fun t => bracketKind t.kind := by
  refine List.ext_getElem? fun i => ?_
  rw [List.getElem?_map, List.getElem?_map, Array.getElem?_toList, Array.getElem?_toList]
  cases ht : s.tokens[i]? with
  | none =>
    have hnone : s'.tokens[i]? = none := by
      rw [Array.getElem?_eq_none_iff, h.size]
      exact Array.getElem?_eq_none_iff.1 ht
    rw [hnone]
  | some t =>
    obtain ⟨t', ht', hremains⟩ := h.kinds i t ht
    rw [ht']
    exact congrArg some hremains.bracketKind_eq

/-- What is left of the current token when reading comes back to it. -/
theorem Onward.remains_current {s s' : State} (h : Onward s s') (hs : s.Ready) (hpos : s'.pos = s.pos) :
    Remains s.current.kind s'.current.kind := by
  obtain ⟨t, ht, hremains⟩ := h.kinds _ _ hs.getElem?
  have hcurrent := (h.ready hs).getElem?
  rw [hpos, ht, Option.some.injEq] at hcurrent
  exact hcurrent ▸ hremains

/-- Going over the tokens between two states, the awaited brackets change as given. -/
def Leads (before after : List Token.Kind) (s s' : State) : Prop :=
  ∃ w, s.brackets = w ++ s'.brackets ∧ passAll before w = some after

namespace Leads

variable {before mid after : List Token.Kind} {s s₁ s' : State}

/-- Coming to the same place, after tokens may have been split. -/
theorem stay (h : Onward s s') (hpos : s'.pos = s.pos) : Leads before before s s' := by
  refine ⟨[], ?_, rfl⟩
  rw [List.nil_append, State.brackets, State.brackets, List.map_drop, List.map_drop, h.bracketKinds, hpos]

theorem refl (before : List Token.Kind) (s : State) : Leads before before s s := stay (.refl s) rfl

theorem trans (h : Leads before mid s s₁) (h' : Leads mid after s₁ s') : Leads before after s s' := by
  obtain ⟨w, hw, hpass⟩ := h
  obtain ⟨w', hw', hpass'⟩ := h'
  refine ⟨w ++ w', by rw [hw, hw', List.append_assoc], ?_⟩
  rw [Token.Kind.passAll_append, hpass]
  exact hpass'

/-- Taking a token. -/
theorem advance (hs : s.Ready) (h : pass before s.current.kind = some after) : Leads before after s s.advance := by
  rw [hs.advance_eq]
  split
  · rename_i heof
    rw [heof, Token.Kind.pass_of_not_isBracket rfl, Option.some.injEq] at h
    exact h ▸ refl before s
  · refine ⟨[bracketKind s.current.kind], ?_, ?_⟩
    · rw [State.brackets, hs.drop_eq]
      rfl
    · rw [Token.Kind.passAll_cons, pass_bracketKind, h]
      rfl

/-- At the end, what is awaited has been found by going over all tokens. -/
theorem passAll_brackets (h : Leads before after s s') (hs' : s'.Ready) (heof : s'.current.kind = .eof) :
    passAll before s.brackets = some after := by
  obtain ⟨w, hw, hpass⟩ := h
  have hlast : s'.brackets = [.eof] := by
    rw [State.brackets, hs'.drop_eq, List.drop_eq_nil_of_le (Nat.le_of_eq (hs'.eof_iff_current.1 heof).symm)]
    simp [heof, bracketKind]
  rw [hw, hlast, Token.Kind.passAll_append, hpass]
  rfl

end Leads

/-! ## Readers -/

/-- Without an error, the reader, if it starts at a token with the property `C`, changes the awaited brackets as
given. -/
class Nests (C : Token.Kind → Bool) (p : Parser α) (before : List Token.Kind) (after : outParam (List Token.Kind)) :
    Prop where
  leads {s : State} (hs : s.Ready) (hC : C s.current.kind = true) (h : (p s).2.errors = []) :
    Leads before after s (p s).2
  forward : Forward p

/-- Without an error, the reader leaves the awaited brackets as they are. -/
abbrev Balanced (C : Token.Kind → Bool) (p : Parser α) (awaited : List Token.Kind) : Prop := Nests C p awaited awaited

/-- No property. -/
def anything (_ : Token.Kind) : Bool := true

/-- The property of being one of these kinds. -/
def oneOf (ks : List Token.Kind) (k : Token.Kind) : Bool := ks.contains k

/-- Tokens with the property `C` change the awaited brackets as given. -/
class Steps (C : Token.Kind → Bool) (before : List Token.Kind) (after : outParam (List Token.Kind)) : Prop where
  pass {k : Token.Kind} (h : C k = true) : pass before k = some after

/-- The answer yes tells that the current token has the property `C`. -/
class Tells (c : Parser Bool) (C : outParam (Token.Kind → Bool)) : Prop where
  holds {s : State} (h : (c s).1 = true) : C s.current.kind = true

namespace Tells

instance (priority := low) nothing (c : Parser Bool) : Tells c anything := ⟨fun _ => rfl⟩

instance check (k : Token.Kind) : Tells (check k) (oneOf [k]) :=
  ⟨fun h => by rw [beq_iff_eq.1 h]; exact List.contains_iff_mem.2 (List.mem_singleton_self k)⟩

instance checkAny (ks : List Token.Kind) : Tells (checkAny ks) (oneOf ks) := ⟨id⟩

instance checkName : Tells checkName Token.Kind.isName := ⟨id⟩

instance isModifier : Tells isModifier Token.Kind.isModifier := by
  refine ⟨fun {s} h => ?_⟩
  rw [isModifier_apply] at h
  generalize s.current.kind = k at h ⊢
  split at h
  · rfl
  · rfl
  · exact h

instance and {c d : Parser Bool} {C : Token.Kind → Bool} [hc : Tells c C] : Tells (c <&&> d) C :=
  ⟨fun h => hc.holds (and_left h)⟩

end Tells

namespace Steps

variable {awaited : List Token.Kind}

theorem opening {k closing : Token.Kind} (h : Token.Kind.bracketPairs.lookup k = some closing) :
    Steps (oneOf [k]) awaited (closing :: awaited) := by
  refine ⟨fun {k'} hk' => ?_⟩
  obtain rfl := List.mem_singleton.1 (List.contains_iff_mem.1 hk')
  rw [Token.Kind.pass, h]

instance lparen : Steps (oneOf [.lparen]) awaited (.rparen :: awaited) := opening rfl

instance lbrace : Steps (oneOf [.lbrace]) awaited (.rbrace :: awaited) := opening rfl

instance lbracket : Steps (oneOf [.lbracket]) awaited (.rbracket :: awaited) := opening rfl

/-- Is this a closing bracket? -/
abbrev isClosing : Token.Kind → Bool
  | .rparen | .rbrace | .rbracket => true
  | _ => false

instance closing (k : Token.Kind) [h : Holds (isClosing k)] : Steps (oneOf [k]) (k :: awaited) awaited := by
  have hclosing : ∀ k, isClosing k = true → Token.Kind.bracketPairs.lookup k = none ∧ k.isBracket = true := by
    intro k
    cases k <;> decide
  refine ⟨fun {k'} hk' => ?_⟩
  obtain rfl := List.mem_singleton.1 (List.contains_iff_mem.1 hk')
  obtain ⟨hlookup, hbracket⟩ := hclosing k' h.eq_true
  rw [Token.Kind.pass, hlookup]
  simp [hbracket]

/-- Is this no bracket? -/
abbrev isPlain : Token.Kind → Bool
  | .lparen | .rparen | .lbrace | .rbrace | .lbracket | .rbracket => false
  | _ => true

theorem pass_of_isPlain {k : Token.Kind} (h : isPlain k = true) : Token.Kind.pass awaited k = some awaited := by
  refine Token.Kind.pass_of_not_isBracket ?_ awaited
  revert h
  cases k <;> decide

/-- Kinds of which none is a bracket. -/
class Plain (ks : List Token.Kind) : Prop where
  isPlain {k : Token.Kind} (h : k ∈ ks) : isPlain k = true

instance : Plain [] := ⟨fun h => nomatch h⟩

instance (k : Token.Kind) (ks : List Token.Kind) [hk : Holds (isPlain k)] [hks : Plain ks] : Plain (k :: ks) :=
  ⟨fun h => (List.mem_cons.1 h).elim (fun h => h ▸ hk.eq_true) hks.isPlain⟩

instance plain (ks : List Token.Kind) [h : Plain ks] : Steps (oneOf ks) awaited awaited :=
  ⟨fun hk => pass_of_isPlain (h.isPlain (List.contains_iff_mem.1 hk))⟩

theorem isPlain_of_isName {k : Token.Kind} (h : k.isName = true) : isPlain k = true := by
  revert h
  cases k <;> decide

theorem isPlain_of_isPrimitive {k : Token.Kind} (h : k.isPrimitive = true) : isPlain k = true := by
  revert h
  cases k <;> decide

instance : Steps isPlain awaited awaited := ⟨pass_of_isPlain⟩

instance isName : Steps Token.Kind.isName awaited awaited := ⟨fun h => pass_of_isPlain (isPlain_of_isName h)⟩

instance isModifier : Steps Token.Kind.isModifier awaited awaited :=
  ⟨fun {k} h => pass_of_isPlain (by revert h; cases k <;> decide)⟩

end Steps

theorem Remains.isPlain {k k' : Token.Kind} (h : Remains k k') (hk : Steps.isPlain k = true) :
    Steps.isPlain k' = true := by
  induction h with
  | refl => exact hk
  | tail _ hsplit _ =>
    unfold afterAngle at hsplit
    split at hsplit <;> cases hsplit <;> rfl

namespace Nests

variable {C C' : Token.Kind → Bool} {before mid after awaited : List Token.Kind}

/-! ## Sequences and tests -/

instance looks {p : Parser α} [hp : Looks p] [hp' : Forward p] : Balanced C p awaited :=
  ⟨fun _ _ h => by rw [hp.stays h]; exact .refl _ _, hp'⟩

instance bind {p : Parser α} {f : α → Parser β} [hp : Nests C p before mid] [hf : ∀ a, Nests anything (f a) mid after] :
    Nests C (p >>= f) before after := by
  have hforward : ∀ a, Forward (f a) := fun a => (hf a).forward
  refine ⟨fun {s} hs hC h => ?_, .seq hp.forward hforward⟩
  have hfirst := hp.leads hs hC ((hforward _).errors h)
  exact hfirst.trans ((hf _).leads ((hp.forward.onward s).ready hs) rfl h)

/-- What starts at any token may start at a token with a property. -/
theorem everywhere {p : Parser α} (h : Nests anything p before after) : Nests C p before after :=
  ⟨fun hs _ herrors => h.leads hs rfl herrors, h.forward⟩

/-- The parts of a sequence change the awaited brackets one after the other. -/
theorem seq {p : Parser α} {f : α → Parser β} (hp : Nests C p before mid) (hf : ∀ a, Nests anything (f a) mid after) :
    Nests C (p >>= f) before after := bind

/-- What is read after a question starts at the same token. -/
theorem ask {c : Parser α} {f : α → Parser β} [hc : Looks c] [hc' : Forward c] (hf : ∀ a, Nests C (f a) before after) :
    Nests C (c >>= f) before after := by
  have hforward : ∀ a, Forward (f a) := fun a => (hf a).forward
  refine ⟨fun {s} hs hC h => ?_, .seq hc' hforward⟩
  have hrun := Looks.run hforward h
  rw [hrun] at h ⊢
  exact (hf _).leads hs hC h

instance asking {c : Parser α} {f : α → Parser β} [Looks c] [Forward c] [hf : ∀ a, Nests C (f a) before after] :
    Nests C (c >>= f) before after := ask hf

theorem choose {c : Parser Bool} [hc : Looks c] [hc' : Forward c] [hC' : Tells c C'] {f : Bool → Parser β}
    (hyes : Nests C' (f true) before after) (hno : Nests C (f false) before after) :
    Nests C (c >>= f) before after := by
  have hforward : ∀ b, Forward (f b) := fun b => by cases b; exacts [hno.forward, hyes.forward]
  refine ⟨fun {s} hs hC h => ?_, .seq hc' hforward⟩
  have hrun := Looks.run hforward h
  rw [hrun] at h ⊢
  cases hb : (c s).1 with
  | true => exact hyes.leads hs (hC'.holds hb) (hb ▸ h)
  | false => exact hno.leads hs hC (hb ▸ h)

theorem branch {c : Parser Bool} [Looks c] [Forward c] [Tells c C'] {p q : Parser β} (hp : Nests C' p before after)
    (hq : Nests C q before after) : Nests C (c >>= fun b => if b = true then p else q) before after := choose hp hq

instance test {c : Parser Bool} [Looks c] [Forward c] [Tells c C'] {p q : Parser β} [hp : Nests C' p before after]
    [hq : Nests C q before after] : Nests C (c >>= fun b => if b = true then p else q) before after := branch hp hq

instance testNot {c : Parser Bool} [Looks c] [Forward c] [Tells c C'] {p q : Parser β} [hp : Nests C' p before after]
    [hq : Nests C q before after] : Nests C (c >>= fun b => if (!b) = true then q else p) before after := choose hp hq

/-- Looking ahead may split tokens, but it does not make a bracket of the current one. -/
theorem lookingAhead {p : Parser α} {f : α → Parser β} (hC : ∀ k, C k = true → Steps.isPlain k = true) (hp : Forward p)
    (hf : ∀ a, Nests Steps.isPlain (f a) before after) : Nests C (lookAhead p >>= f) before after := by
  have hforward : ∀ a, Forward (f a) := fun a => (hf a).forward
  refine ⟨fun {s} hs hs' h => ?_, .seq inferInstance hforward⟩
  have honward : Onward s (lookAhead p s).2 := (hp.onward s).back
  have hplain : Steps.isPlain (lookAhead p s).2.current.kind = true :=
    (honward.remains_current hs rfl).isPlain (hC _ hs')
  exact (Leads.stay honward rfl).trans ((hf _).leads (honward.ready hs) hplain h)

instance ite {c : Prop} [Decidable c] {p q : Parser α} [hp : Nests C p before after] [hq : Nests C q before after] :
    Nests C (if c then p else q) before after := by
  split <;> assumption

/-- The current token is looked at. -/
theorem peeked {f : Token → Parser β} (hf : ∀ t, Nests (oneOf [t.kind]) (f t) before after) :
    Nests C (peek >>= f) before after :=
  ⟨fun hs _ h => (hf _).leads hs (List.contains_iff_mem.2 (List.mem_singleton_self _)) h,
    .seq inferInstance fun t => (hf t).forward⟩

/-! ## Taking tokens -/

instance skip [h : Steps C before after] : Nests C skip before after :=
  ⟨fun hs hC _ => .advance hs (h.pass hC), inferInstance⟩

instance next [h : Steps C before after] : Nests C next before after :=
  ⟨fun hs hC _ => .advance hs (h.pass hC), inferInstance⟩

instance leaf (kind : Cst.Kind) [h : Steps C before after] : Nests C (leaf kind) before after :=
  ⟨fun hs hC _ => .advance hs (h.pass hC), inferInstance⟩

instance expect (k : Token.Kind) [h : Steps (oneOf [k]) before after] : Nests C (expect k) before after := by
  refine ⟨fun hs _ herrors => ?_, inferInstance⟩
  obtain ⟨hk, hrun⟩ := expect_run herrors
  rw [hrun]
  exact .advance hs (h.pass (List.contains_iff_mem.2 (List.mem_singleton.2 hk)))

/-- An error is recorded. -/
theorem failing {p : Parser α} (hp : Forward p) (h : ∀ s, (p s).2.errors ≠ []) : Balanced C p awaited :=
  ⟨fun _ _ herrors => absurd herrors (h _), hp⟩

instance report (cause : SyntaxError.Cause) (pos : Position) {f : SyntaxError → Parser β} [hf : ∀ e, Forward (f e)] :
    Balanced C (report cause pos >>= f) awaited :=
  failing inferInstance fun s herrors => s.errors_record_ne_nil _ ((hf _).errors herrors)

instance reportHere (cause : Token → SyntaxError.Cause) {f : SyntaxError → Parser β} [hf : ∀ e, Forward (f e)] :
    Balanced C (reportHere cause >>= f) awaited :=
  failing inferInstance fun s herrors => s.errors_record_ne_nil _ ((hf _).errors herrors)

instance errorNode (construct : Construct) (recovery : List Token.Kind) :
    Balanced C (errorNode construct recovery) awaited :=
  failing inferInstance (errors_errorNode_ne_nil _ _)

/-! ## Nodes -/

theorem inNode (kind : Cst.Kind) {p : Parser (List Cst)} (hp : Nests C p before after) :
    Nests C (node kind p) before after := by
  unfold Grammar.node; infer_instance

instance node (kind : Cst.Kind) {p : Parser (List Cst)} [hp : Nests C p before after] :
    Nests C (node kind p) before after :=
  inNode kind hp

instance (kind : Cst.Kind) (t : Cst) {p : Parser (List Cst)} [hp : Nests C p before after] :
    Nests C (nodeFrom kind t p) before after := by unfold nodeFrom; infer_instance

instance : Balanced C identifier awaited := by unfold identifier; infer_instance

/-! ## From one state -/

/-- Started in this state, the reader changes the awaited brackets as given. -/
def From (s : State) (p : Parser α) (before after : List Token.Kind) : Prop :=
  (p s).2.errors = [] → Leads before after s (p s).2

/-- The tokens are looked at from where the reader starts. -/
theorem starting {f : Token → State → Parser β} (hforward : Forward (peek >>= fun t => get >>= f t))
    (hf : ∀ s : State, s.Ready → C s.current.kind = true → From s (f s.current s) before after) :
    Nests C (peek >>= fun t => get >>= f t) before after := ⟨fun hs hC => hf _ hs hC, hforward⟩

theorem From.node {s : State} {kind : Cst.Kind} {p : Parser (List Cst)} (h : From s p before after) :
    From s (Grammar.node kind p) before after := h

/-- A token is passed over, and the next one is known. -/
theorem From.skip {f : Unit → Parser β} {s : State} {k : Token.Kind} (hs : s.Ready)
    (hplain : Steps.isPlain s.current.kind = true) (hk : (s.ahead 1).kind = k)
    (hf : Nests (oneOf [k]) (f ()) before after) : From s (Grammar.skip >>= f) before after := by
  intro h
  have hcurrent : s.advance.current.kind = k := by
    rw [← hs.advance.headKind_input, hs.input_advance, ← hs.ahead_one, hk]
  refine (Leads.advance hs (Steps.pass_of_isPlain hplain)).trans (hf.leads hs.advance ?_ h)
  rw [hcurrent]
  exact List.contains_iff_mem.2 (List.mem_singleton_self k)

/-- A reader that comes to states with the property `E`, which the next one needs. -/
theorem ending {p : Parser α} {f : α → Parser β} {E : State → Prop} (hp : Nests C p before mid)
    (hE : ∀ s : State, s.Ready → E (p s).2) (hforward : ∀ a, Forward (f a))
    (hf : ∀ a s, s.Ready → E s → From s (f a) mid after) : Nests C (p >>= f) before after := by
  refine ⟨fun {s} hs hC h => ?_, .seq hp.forward hforward⟩
  have hfirst := hp.leads hs hC ((hforward _).errors h)
  exact hfirst.trans (hf _ _ ((hp.forward.onward s).ready hs) (hE s hs) h)

/-! ## Loops -/

instance repeatUpTo {turn : σ → Parser (Turn σ)} [hturn : ∀ a, Balanced anything (turn a) awaited] (n : Nat) (a : σ) :
    Balanced anything (repeatUpTo turn n a) awaited := by
  induction n generalizing a with
  | zero => exact @looks _ _ _ (pure []) _ _
  | succ n ih =>
    refine seq (hturn a) fun t => ?_
    split <;> infer_instance

instance repeatFrom {turn : σ → Parser (Turn σ)} [∀ a, Balanced anything (turn a) awaited] (a : σ) :
    Balanced C (repeatFrom a turn) awaited :=
  everywhere (by unfold Grammar.repeatFrom; infer_instance)

instance {turn : Parser (Turn Unit)} [Balanced anything turn awaited] :
    Balanced C (repeatTurns turn) awaited := by unfold repeatTurns; infer_instance

instance growUpTo {turn : Cst → Parser (Option Cst)} [hturn : ∀ t, Balanced anything (turn t) awaited] (n : Nat)
    (t : Cst) : Balanced anything (growUpTo turn n t) awaited := by
  induction n generalizing t with
  | zero => exact @looks _ _ _ (pure t) _ _
  | succ n ih =>
    refine seq (hturn t) fun t => ?_
    split <;> infer_instance

instance grow {turn : Cst → Parser (Option Cst)} [∀ t, Balanced anything (turn t) awaited] (t : Cst) :
    Balanced C (grow t turn) awaited :=
  everywhere (by unfold Grammar.grow; infer_instance)

section

variable {condition : Parser Bool} {item : Parser Cst} [Looks condition] [Forward condition] [Tells condition C']

instance [Balanced C' item awaited] : Balanced C (optionalIf condition item) awaited := by
  unfold optionalIf; infer_instance

instance [Balanced C' item awaited] : Balanced C (manyWhile condition item) awaited := by
  unfold manyWhile whileTurn; infer_instance

omit [Looks condition] [Forward condition] [Tells condition C']

instance (k : Token.Kind) [Balanced (oneOf [k]) item awaited] : Balanced C (optionalAt k item) awaited := by
  unfold optionalAt; infer_instance

instance (k : Token.Kind) [Balanced (oneOf [k]) item awaited] : Balanced C (manyAt k item) awaited := by
  unfold manyAt; infer_instance

instance (k : Token.Kind) [Steps (oneOf [k]) awaited awaited] [Balanced C item awaited] :
    Balanced C (itemTurn k item) awaited := by unfold itemTurn; infer_instance

instance (k : Token.Kind) [Steps (oneOf [k]) awaited awaited] [Balanced anything item awaited] :
    Balanced C (separated k item) awaited := by unfold separated; infer_instance

instance (stop k : Token.Kind) [Steps (oneOf [k]) awaited awaited] [Balanced anything item awaited] :
    Balanced C (separatedUntil stop k item) awaited := by unfold separatedUntil untilTurn; infer_instance

instance {p : Parser α} [hp : Balanced C p awaited] : Balanced C (guarded p) awaited := by
  unfold guarded; infer_instance

instance [Balanced C item awaited] : Balanced C (guardedTurn item) awaited := by unfold guardedTurn; infer_instance

instance (stops : List Token.Kind) [Balanced anything item awaited] :
    Balanced C (guardedUntil stops item) awaited := by unfold guardedUntil guardedUntilTurn; infer_instance

instance (stops : List Token.Kind) [Balanced anything item awaited] :
    Balanced C (declarationsUntil stops item) awaited := by unfold declarationsUntil declarationTurn; infer_instance

end

end Nests

end Grammar

end KiteCompiler
