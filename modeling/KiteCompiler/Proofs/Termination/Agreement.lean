import KiteCompiler.Proofs.Termination.Unread

/-!
# What a production needs from the others

A production is read with the help of readers for the productions inside it. It uses them only in states with less text
left than where it starts, or, before it has taken anything, for productions of a lower `rank`: two sets of readers that
agree there give the same result (`production_congr`).

`Agree C m p p'` says that two readers do the same wherever less than `m` bytes are left, and also with `m` bytes left
if the current token has the property `C`. While a reader has not taken a token, it knows something about the token
where it started; behind the first one that it takes, `C` does not matter any more, and what follows agrees because all
parts do so (`Agree.below`), by the same frames in which two runs are compared elsewhere.
-/

namespace KiteCompiler

variable {α β σ : Type}

theorem Tree.Rel.eq {α : Type} {r : α → α → Prop} (hr : ∀ a b, r a b → a = b) {t u : Tree α} (h : Tree.Rel r t u) :
    t = u := by
  induction t using Tree.induction generalizing u with
  | step a ts ih =>
    cases u with
    | node b us =>
      obtain ⟨hlabel, hchildren⟩ := Tree.rel_iff.1 h
      have hts : ts = us :=
        List.ext_getElem hchildren.length_eq fun i hi hi' => ih _ (List.getElem_mem hi) (hchildren.get hi hi')
      rw [show a = b from hr _ _ hlabel, hts]

namespace Grammar

/-! ## The same run twice -/

theorem eq_of_label {I : Invariant} {l l' : Cst.Label} (h : (same I).label l l') : l = l' := by
  obtain ⟨kind, ⟨first, last⟩, token, error⟩ := l
  obtain ⟨kind', ⟨first', last'⟩, token', error'⟩ := l'
  obtain ⟨hkind, hfirst, hlast, htoken, herror⟩ := h
  have htoken : token = token' := by
    cases htoken with
    | some ht => exact congrArg some ht
    | none => rfl
  have herror : error = error' := by
    cases herror with
    | some he => exact congrArg some (congrArg₂ SyntaxError.mk he.1.eq he.2)
    | none => rfl
  rw [show kind = kind' from hkind, show first = first' from hfirst, show last = last' from hlast, htoken, herror]

/-- Values of this type correspond only if they are the same. -/
class Exact (F : Frame) (α : Type) [Relates F α] : Prop where
  eq {a b : α} : Relates.rel F a b → a = b

section

variable {I : Invariant}

instance [Plain α] : Exact (same I) α := ⟨id⟩

instance : Exact (same I) Cst := ⟨Tree.Rel.eq fun _ _ => eq_of_label⟩

instance [Relates (same I) α] [h : Exact (same I) α] : Exact (same I) (List α) := by
  refine ⟨fun hab => ?_⟩
  induction hab with
  | nil => rfl
  | cons ha _ ih => rw [h.eq ha, ih]

instance [Relates (same I) α] [h : Exact (same I) α] : Exact (same I) (Option α) := by
  refine ⟨fun hab => ?_⟩
  cases hab with
  | some ha => rw [h.eq ha]
  | none => rfl

instance [Plain σ] : Exact (same I) (Turn σ) := by
  refine ⟨?_⟩
  rintro ⟨added, next⟩ ⟨added', next'⟩ ⟨hadded, hnext⟩
  have hadded : added = added' := Exact.eq (F := same I) hadded
  have hnext : next = next' := Exact.eq (F := same I) hnext
  rw [hadded, hnext]

end

/-! ## Agreement -/

/-- No token. -/
def nothing (_ : Token.Kind) : Bool := false

/-- The readers do the same where less than `m` bytes are left, and, at a token with the property `C`, also with `m`
bytes left. -/
class Agree (C : Token.Kind → Bool) (m : Nat) (p p' : Parser α) : Prop where
  eq {s : State} (hs : s.Ready) (h : s.unread < m ∨ s.unread = m ∧ C s.current.kind = true) : p s = p' s

namespace Agree

variable {C C' : Token.Kind → Bool} {m : Nat}

/-- In later states, what was the case at the start does not matter any more, or it is still the case. -/
theorem still {s s' : State} (honward : Onward s s') (hs : s.Ready)
    (h : s.unread < m ∨ s.unread = m ∧ C s.current.kind = true) :
    s'.unread < m ∨ s'.unread = m ∧ C s'.current.kind = true := by
  have hle := honward.unread_le
  rcases h with hlt | ⟨heq, hC⟩
  · exact .inl (by omega)
  · rcases Nat.lt_or_eq_of_le hle with hlt | hsame
    · exact .inl (by omega)
    · exact .inr ⟨by omega, by rw [honward.kind_eq hs hsame]; exact hC⟩

instance (priority := high) refl (p : Parser α) : Agree C m p p := ⟨fun _ _ => rfl⟩

theorem mono {p p' : Parser α} (hC : ∀ k, C k = true → C' k = true) (h : Agree C' m p p') : Agree C m p p' :=
  ⟨fun hs hm => h.eq hs (hm.imp_right fun hm => ⟨hm.1, hC _ hm.2⟩)⟩

/-- Agreement at any token. -/
theorem everywhere {p p' : Parser α} (h : Agree anything m p p') : Agree C m p p' := h.mono fun _ _ => rfl

/-! ## Behind a token that has been taken -/

/-- A state with less than `m` bytes left. -/
structure Below (m : Nat) where
  state : State
  ready : state.Ready
  unread_lt : state.unread < m

/-- Readers agree in all states that can be reached from one with less than `m` bytes left. -/
instance parallel (x : Below m) [Relates (sameFrom x.state) α] [Simple (sameFrom x.state) α] {p p' : Parser α}
    [hp : Agree nothing m p p'] [hforward : Forward p] : (sameFrom x.state).Parallel p p' := by
  refine ⟨?_⟩
  rintro s _ ⟨rfl, honward⟩
  have heq : p s = p' s := hp.eq (honward.ready x.ready) (.inl (Nat.lt_of_le_of_lt honward.unread_le x.unread_lt))
  rw [← heq]
  exact ⟨Simple.self _, rfl, honward.trans (hforward.onward s)⟩

/-- Whatever is made of such readers. -/
instance (priority := 10001) below [∀ F : Frame, Relates F α] [∀ s, Exact (sameFrom s) α] {p p' : Parser α}
    [h : ∀ x : Below m, (sameFrom x.state).Parallel p p'] : Agree nothing m p p' := by
  refine ⟨fun {s} hs hm => ?_⟩
  have hlt : s.unread < m := hm.resolve_right fun hm => Bool.false_ne_true hm.2
  obtain ⟨hresult, hstate, -⟩ := (h ⟨s, hs, hlt⟩).alike s s ⟨rfl, .refl s⟩
  exact Prod.ext (Exact.eq hresult) hstate

/-! ## Sequences and tests -/

section

variable {p p' : Parser α} {f f' : α → Parser β}

/-- The parts behind the first one are the same. -/
theorem first (hp : Agree C m p p') : Agree C m (p >>= f) (p' >>= f) :=
  ⟨fun hs h => congrArg (fun r : α × State => f r.1 r.2) (hp.eq hs h)⟩

/-- Behind the first part nothing is known about the token. -/
theorem seq (hp : Agree C m p p') (hforward : Forward p) (hf : ∀ a, Agree anything m (f a) (f' a)) :
    Agree C m (p >>= f) (p' >>= f') := by
  refine ⟨fun {s} hs h => ?_⟩
  have honward := hforward.onward s
  change f (p s).1 (p s).2 = f' (p' s).1 (p' s).2
  rw [← hp.eq hs h]
  exact (hf _).eq (honward.ready hs) (still honward hs (h.imp_right fun h => ⟨h.1, rfl⟩))

instance (priority := low) bind [hp : Agree C m p p'] [hforward : Forward p] [hf : ∀ a, Agree anything m (f a) (f' a)] :
    Agree C m (p >>= f) (p' >>= f') := seq hp hforward hf

/-- Behind a token that has been taken. -/
theorem take (hp : Agree C m p p') (hforward : Forward p) (htakes : Takes C p)
    (hf : ∀ a, Agree nothing m (f a) (f' a)) : Agree C m (p >>= f) (p' >>= f') := by
  refine ⟨fun {s} hs h => ?_⟩
  have honward := hforward.onward s
  change f (p s).1 (p s).2 = f' (p' s).1 (p' s).2
  rw [← hp.eq hs h]
  refine (hf _).eq (honward.ready hs) (.inl ?_)
  rcases h with hlt | ⟨heq, hC⟩
  · exact Nat.lt_of_le_of_lt honward.unread_le hlt
  · exact heq ▸ honward.unread_lt hs (htakes.moves hs hC)

instance (priority := high) taking [hp : Agree C m p p'] [hforward : Forward p] [htakes : Takes C p]
    [hf : ∀ a, Agree nothing m (f a) (f' a)] :
    Agree C m (p >>= f) (p' >>= f') := take hp hforward htakes hf

/-- As long as nothing has been taken, the token is the same. -/
theorem ask [hforward : Forward p] (hf : ∀ a, Agree C m (f a) (f' a)) : Agree C m (p >>= f) (p >>= f') := by
  refine ⟨fun {s} hs h => ?_⟩
  have honward := hforward.onward s
  exact (hf _).eq (honward.ready hs) (still honward hs h)

instance asking [Forward p] [hf : ∀ a, Agree C m (f a) (f' a)] : Agree C m (p >>= f) (p >>= f') := ask hf

end

/-- The answer to a question tells something about the token. -/
theorem choose {c : Parser Bool} {f f' : Bool → Parser β} [hforward : Forward c] [htells : Tells c C']
    (hyes : Agree C' m (f true) (f' true)) (hno : Agree C m (f false) (f' false)) : Agree C m (c >>= f) (c >>= f') := by
  refine ⟨fun {s} hs h => ?_⟩
  have honward := hforward.onward s
  change f (c s).1 (c s).2 = f' (c s).1 (c s).2
  cases hanswer : (c s).1 with
  | true => exact hyes.eq (honward.ready hs) (still honward hs (h.imp_right fun h => ⟨h.1, htells.holds hanswer⟩))
  | false => exact hno.eq (honward.ready hs) (still honward hs h)

section

variable {c : Parser Bool} {p p' q q' : Parser β} [Forward c] [Tells c C']

theorem branch (hp : Agree C' m p p') (hq : Agree C m q q') :
    Agree C m (c >>= fun b => if b = true then p else q) (c >>= fun b => if b = true then p' else q') := choose hp hq

instance test [hp : Agree C' m p p'] [hq : Agree C m q q'] :
    Agree C m (c >>= fun b => if b = true then p else q) (c >>= fun b => if b = true then p' else q') := branch hp hq

instance testNot [hp : Agree C' m p p'] [hq : Agree C m q q'] :
    Agree C m (c >>= fun b => if (!b) = true then q else p) (c >>= fun b => if (!b) = true then q' else p') :=
  choose hp hq

end

instance ite {c : Prop} [Decidable c] {p p' q q' : Parser α} [hp : Agree C m p p'] [hq : Agree C m q q'] :
    Agree C m (if c then p else q) (if c then p' else q') := by
  split <;> assumption

/-- The current token is looked at. -/
theorem peeked {f f' : Token → Parser β} (hf : ∀ t, Agree (oneOf [t.kind]) m (f t) (f' t)) :
    Agree C m (peek >>= f) (peek >>= f') :=
  ⟨fun hs h => (hf _).eq hs (h.imp_right fun h => ⟨h.1, List.contains_iff_mem.2 (List.mem_singleton_self _)⟩)⟩

instance lookAhead {p p' : Parser α} [hp : Agree C m p p'] : Agree C m (lookAhead p) (lookAhead p') := by
  refine ⟨fun {s} hs h => ?_⟩
  change ((p s).1, ({ (p s).2 with pos := s.pos } : State)) = ((p' s).1, ({ (p' s).2 with pos := s.pos } : State))
  rw [hp.eq hs h]

/-! ## Nodes and loops -/

instance node (kind : Cst.Kind) {p p' : Parser (List Cst)} [hp : Agree C m p p'] :
    Agree C m (node kind p) (node kind p') := by
  refine ⟨fun {s} hs h => ?_⟩
  change Grammar.finish kind s.current.span.first (p s).1 (p s).2 =
    Grammar.finish kind s.current.span.first (p' s).1 (p' s).2
  rw [hp.eq hs h]

instance nodeFrom (kind : Cst.Kind) (t : Cst) {p p' : Parser (List Cst)} [hp : Agree C m p p'] :
    Agree C m (nodeFrom kind t p) (nodeFrom kind t p') := by
  refine ⟨fun {s} hs h => ?_⟩
  change Grammar.finish kind t.span.first (t :: (p s).1) (p s).2 =
    Grammar.finish kind t.span.first (t :: (p' s).1) (p' s).2
  rw [hp.eq hs h]

section

variable {turn turn' : σ → Parser (Turn σ)} [hforward : ∀ a, Forward (turn a)]

instance repeatFrom [hturn : ∀ a, Agree anything m (turn a) (turn' a)] (a : σ) :
    Agree C m (repeatFrom a turn) (repeatFrom a turn') := by
  refine ask fun s => everywhere ?_
  generalize s.remaining + 1 = n
  induction n generalizing a with
  | zero => exact refl _
  | succ n ih =>
    refine seq (hturn a) (hforward a) fun t => ?_
    cases t.next with
    | some b => exact seq (ih b) inferInstance fun _ => refl _
    | none => exact refl _

end

instance {turn turn' : Parser (Turn Unit)} [Forward turn] [Agree anything m turn turn'] :
    Agree C m (repeatTurns turn) (repeatTurns turn') := by unfold repeatTurns; infer_instance

section

variable {turn turn' : Cst → Parser (Option Cst)} [hforward : ∀ t, Forward (turn t)]

instance grow [hturn : ∀ t, Agree anything m (turn t) (turn' t)] (t : Cst) :
    Agree C m (grow t turn) (grow t turn') := by
  refine ask fun s => everywhere ?_
  generalize s.remaining + 1 = n
  induction n generalizing t with
  | zero => exact refl _
  | succ n ih =>
    refine seq (hturn t) (hforward t) fun u => ?_
    cases u with
    | some u => exact ih u
    | none => exact refl _

end

section

variable {condition : Parser Bool} {item item' : Parser Cst} [Forward condition] [Forward item]

instance [Tells condition C'] [Agree C' m item item'] :
    Agree C m (manyWhile condition item) (manyWhile condition item') := by
  unfold manyWhile whileTurn; infer_instance

instance [Tells condition C'] [Agree C' m item item'] :
    Agree C m (optionalIf condition item) (optionalIf condition item') := by
  unfold optionalIf; infer_instance

omit [Forward condition]

instance (k : Token.Kind) [Agree (oneOf [k]) m item item'] : Agree C m (manyAt k item) (manyAt k item') := by
  unfold manyAt; infer_instance

instance (k : Token.Kind) [Agree (oneOf [k]) m item item'] : Agree C m (optionalAt k item) (optionalAt k item') := by
  unfold optionalAt; infer_instance

instance itemTurn (k : Token.Kind) [Agree anything m item item'] : Agree C m (itemTurn k item) (itemTurn k item') := by
  unfold Grammar.itemTurn; exact everywhere inferInstance

instance (k : Token.Kind) [Agree anything m item item'] : Agree C m (separated k item) (separated k item') := by
  unfold separated; infer_instance

instance guarded {p p' : Parser α} [hp : Agree C m p p'] : Agree C m (guarded p) (guarded p') := ask fun _ => first hp

instance [Agree C m item item'] : Agree C m (guardedTurn item) (guardedTurn item') := by
  unfold guardedTurn
  infer_instance

instance (stops : List Token.Kind) [Agree anything m item item'] :
    Agree C m (declarationsUntil stops item) (declarationsUntil stops item') := by
  unfold declarationsUntil declarationTurn
  infer_instance

end

end Agree

end Grammar

end KiteCompiler
