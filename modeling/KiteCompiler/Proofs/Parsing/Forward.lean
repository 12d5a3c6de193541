import Mathlib.Logic.Relation
import KiteCompiler.Proofs.Parsing.Input

/-!
# Reading goes forward

`Onward s s'`: from `s` one can come to `s'` by reading. Errors are never taken back, tokens that have been taken are
never given back, the end of file stays the last token, and the other tokens change at most by losing an angle bracket.
All readers go onward (`Forward`), since their only steps are taking a token, recording an error and splitting a token,
and what goes back goes back to its own start. The property is found by instance search; the productions that choose by
a `match`, and the two that go back on their own, have a proof of their own.
-/

namespace KiteCompiler

theorem SyntaxError.Cause.Rel.self (c : SyntaxError.Cause) : c.Rel Eq c := by
  cases c with
  | invalidToken => exact .invalidToken rfl
  | missing => exact .missing rfl
  | missingIdentifier => exact .missingIdentifier rfl
  | missingConstruct => exact .missingConstruct rfl
  | unexpected => exact .unexpected rfl
  | unexpectedAfterExpression => exact .unexpectedAfterExpression rfl
  | secondTopLevelType => exact .secondTopLevelType rfl
  | noTopLevelType => exact .noTopLevelType rfl
  | typeArgumentsWithoutCall => exact .typeArgumentsWithoutCall rfl
  | _ => exact .plain rfl

theorem SyntaxError.Cause.Rel.eq {c c' : SyntaxError.Cause} (h : c.Rel Eq c') : c = c' := by
  cases h with
  | plain => rfl
  | _ h => cases h; rfl

namespace Grammar

variable {α β σ : Type}

/-- The second kind is what is left of the first one when some angle brackets in front have been split off. -/
abbrev Remains : Token.Kind → Token.Kind → Prop := Relation.ReflTransGen fun k k' => afterAngle k = some k'

/-- A token that has no angle bracket to be split off stays as it is. -/
theorem Remains.eq {k k' : Token.Kind} (h : Remains k k') (hk : afterAngle k = none) : k' = k := by
  rcases Relation.ReflTransGen.cases_head h with rfl | ⟨_, hsplit, -⟩
  · rfl
  · exact absurd (hk.symm.trans hsplit) (Option.some_ne_none _).symm

/-- What is left of a token whose first byte is split off. -/
def cutFirst (t : Token) (k : Token.Kind) : Token := ⟨k, t.text.drop 1, ⟨t.span.first.right 1, t.span.last⟩⟩

/-- The second token is what is left of the first one when some angle brackets in front have been split off. -/
abbrev Shortened : Token → Token → Prop :=
  Relation.ReflTransGen fun t t' => ∃ k, afterAngle t.kind = some k ∧ t' = cutFirst t k

/-- One step of reading: a token is taken, another one becomes the current one, an error is recorded, or an angle
bracket is split off the current token. -/
inductive Move : State → State → Prop
  | advance (s : State) : Move s s.advance
  | go (s : State) (pos : Nat) : Move s { s with pos }
  | record (s : State) (e : SyntaxError) : Move s (s.record e)
  | split {s : State} {k : Token.Kind} (h : afterAngle s.current.kind = some k) : Move s (s.splitCurrent k)

namespace Move

variable {s s' : State}

theorem errors (h : Move s s') : s.errors <:+ s'.errors := by
  cases h with
  | advance => simp
  | record e => exact State.errors_suffix_record s e
  | _ => exact List.suffix_refl _

theorem size (h : Move s s') : s'.tokens.size = s.tokens.size := by cases h <;> simp

theorem shortened (h : Move s s') {i : Nat} {t : Token} (ht : s.tokens[i]? = some t) :
    ∃ t', s'.tokens[i]? = some t' ∧ Shortened t t' := by
  cases h with
  | advance => exact ⟨t, by rwa [State.tokens_advance], .refl⟩
  | go => exact ⟨t, ht, .refl⟩
  | record e => exact ⟨t, by rwa [State.tokens_record], .refl⟩
  | split hk =>
    by_cases hi : s.pos = i
    · subst hi
      have hcurrent : s.current = t := by rw [State.current, ht]
      exact ⟨_, Array.getElem?_setIfInBounds_self_of_lt (Array.getElem?_eq_some_iff.1 ht).1,
        .single ⟨_, hcurrent ▸ hk, hcurrent ▸ rfl⟩⟩
    · exact ⟨t, (Array.getElem?_setIfInBounds_ne hi).trans ht, .refl⟩

end Move

/-- Any number of steps. -/
abbrev Reaches : State → State → Prop := Relation.ReflTransGen Move

namespace Reaches

variable {s s' : State}

theorem errors (h : Reaches s s') : s.errors <:+ s'.errors := by
  induction h with
  | refl => exact List.suffix_refl _
  | tail _ hmove ih => exact ih.trans hmove.errors

theorem size (h : Reaches s s') : s'.tokens.size = s.tokens.size := by
  induction h with
  | refl => rfl
  | tail _ hmove ih => exact hmove.size.trans ih

theorem shortened (h : Reaches s s') {i : Nat} {t : Token} (ht : s.tokens[i]? = some t) :
    ∃ t', s'.tokens[i]? = some t' ∧ Shortened t t' := by
  induction h with
  | refl => exact ⟨t, ht, .refl⟩
  | tail _ hmove ih =>
    obtain ⟨t₁, ht₁, h₁⟩ := ih
    obtain ⟨t', ht', h'⟩ := hmove.shortened ht₁
    exact ⟨t', ht', h₁.trans h'⟩

end Reaches

/-- Reading can lead from the first state to the second one. -/
structure Onward (s s' : State) : Prop where
  reaches : Reaches s s'
  pos : s.pos ≤ s'.pos
  ready : s.Ready → s'.Ready

namespace Onward

variable {s s₁ s' : State}

theorem refl (s : State) : Onward s s := ⟨.refl, Nat.le_refl _, id⟩

theorem trans (h : Onward s s₁) (h' : Onward s₁ s') : Onward s s' :=
  ⟨h.reaches.trans h'.reaches, Nat.le_trans h.pos h'.pos, h'.ready ∘ h.ready⟩

theorem errors (h : Onward s s') : s.errors <:+ s'.errors := h.reaches.errors

theorem size (h : Onward s s') : s'.tokens.size = s.tokens.size := h.reaches.size

theorem kinds (h : Onward s s') (i : Nat) (t : Token) (ht : s.tokens[i]? = some t) :
    ∃ t' : Token, s'.tokens[i]? = some t' ∧ Remains t.kind t'.kind := by
  obtain ⟨t', ht', hshort⟩ := h.reaches.shortened ht
  refine ⟨t', ht', hshort.lift Token.kind ?_⟩
  rintro t _ ⟨k, hk, rfl⟩
  exact hk

theorem texts (h : Onward s s') (i : Nat) (t t' : Token) (ht : s.tokens[i]? = some t) (ht' : s'.tokens[i]? = some t') :
    t'.text <:+ t.text := by
  obtain ⟨_, hsome, hshort⟩ := h.reaches.shortened ht
  rw [ht', Option.some.injEq] at hsome
  subst hsome
  clear ht'
  induction hshort with
  | refl => exact List.suffix_refl _
  | tail _ hcut ih =>
    obtain ⟨k, -, rfl⟩ := hcut
    exact (List.drop_suffix 1 _).trans ih

theorem advance (s : State) : Onward s s.advance := by
  refine ⟨.single (.advance s), ?_, State.Ready.advance⟩
  unfold State.advance
  split
  · exact Nat.le_succ _
  · exact Nat.le_refl _

theorem record (s : State) (e : SyntaxError) : Onward s (s.record e) := by
  refine ⟨.single (.record s e), by simp, fun h => ?_⟩
  exact ⟨by simpa using h.pos_lt, by simpa using h.eof_iff, by simpa using h.genuine, by simpa using h.text_ne_nil⟩

theorem splitCurrent {k : Token.Kind} (hk : afterAngle s.current.kind = some k) : Onward s (s.splitCurrent k) :=
  ⟨.single (.split hk), Nat.le_refl _, fun h => h.splitCurrent hk⟩

/-- Going to where another state stands. -/
theorem going (h : Onward s s') (h₁ : Onward s s₁) : Onward s { s' with pos := s₁.pos } := by
  refine ⟨h.reaches.tail (.go _ _), h₁.pos, fun hs => (h.ready hs).moved ?_⟩
  rw [h.size, ← h₁.size]
  exact (h₁.ready hs).pos_lt

/-- Going back to the start. -/
theorem back (h : Onward s s') : Onward s { s' with pos := s.pos } := h.going (.refl s)

end Onward

/-- What stays true of the states of a run as long as no token is split. -/
structure Invariant where
  Holds : State → Prop
  advance {s : State} : Holds s → Holds s.advance
  rewind {s t : State} : Holds s → Holds t → Holds { t with pos := s.pos }
  record {s : State} (e : SyntaxError) : Holds s → Holds (s.record e)

/-- Two runs that are in the same state, of which the invariant holds. -/
def same (I : Invariant) : Frame where
  position := Eq
  ends := Eq
  token := Eq
  state s s' := s = s' ∧ I.Holds s
  kind_eq h := h ▸ rfl
  text_eq h := h ▸ rfl
  first h := h ▸ rfl
  last h := h ▸ rfl
  current h := h.1 ▸ rfl
  ahead _ h := h.1 ▸ rfl
  pos_eq h := h.1 ▸ rfl
  remaining_eq h := h.1 ▸ rfl
  lastEnd h hp := by rw [h.1, hp]
  start_end h := h
  advance h := ⟨h.1 ▸ rfl, I.advance h.2⟩
  rewind := by
    rintro s s' t t' ⟨rfl, hs⟩ ⟨rfl, ht⟩
    exact ⟨rfl, I.rewind hs ht⟩
  record h hc hp := ⟨by rw [h.1, hc.eq, hp], I.record _ h.2⟩

/-- Two runs that are in the same state, which can be reached from `s₀`. -/
abbrev sameFrom (s₀ : State) : Frame := same {
  Holds := Onward s₀
  advance := fun h => h.trans (.advance _)
  rewind := fun hs ht => ht.going hs
  record := fun e h => h.trans (.record _ e) }

instance (s₀ : State) : (sameFrom s₀).Splits := ⟨fun h hk => ⟨h.1 ▸ rfl, h.2.trans (.splitCurrent hk)⟩⟩

section

variable {I : Invariant}

instance : Simple (same I) Position := ⟨fun _ => rfl⟩

instance : Simple (same I) Token := ⟨fun _ => rfl⟩

instance : Simple (same I) SyntaxError := ⟨fun e => ⟨.self e.cause, rfl⟩⟩

instance : Simple (same I) Cst := by
  refine ⟨fun t => ?_⟩
  induction t using Tree.induction with
  | step l ts ih =>
    have htoken : Relates.rel (same I) l.token l.token := Simple.self l.token
    have herror : Relates.rel (same I) l.error l.error := Simple.self l.error
    exact Tree.rel_iff.2 ⟨⟨rfl, rfl, rfl, htoken, herror⟩, List.forall₂_same.2 ih⟩

instance [Relates (same I) σ] [Simple (same I) σ] : Simple (same I) (Turn σ) :=
  ⟨fun t => ⟨Simple.self (i := same I) t.added, Simple.self (i := same I) t.next⟩⟩

end

theorem node_state (kind : Cst.Kind) (parts : Parser (List Cst)) (s : State) : (node kind parts s).2 = (parts s).2 :=
  rfl

/-- A question: the state is left as it is. -/
class Asks (p : Parser α) : Prop where
  same (s : State) : (p s).2 = s

namespace Asks

instance get : Asks (get : Parser State) := ⟨fun _ => rfl⟩

instance peek : Asks peek := ⟨fun _ => rfl⟩

instance here : Asks here := ⟨fun _ => rfl⟩

instance check (k : Token.Kind) : Asks (check k) := ⟨fun _ => rfl⟩

instance checkAhead (n : Nat) (k : Token.Kind) : Asks (checkAhead n k) := ⟨fun _ => rfl⟩

instance checkAny (ks : List Token.Kind) : Asks (checkAny ks) := ⟨fun _ => rfl⟩

instance checkName : Asks checkName := ⟨fun _ => rfl⟩

instance checkNameAhead : Asks checkNameAhead := ⟨fun _ => rfl⟩

instance finish (kind : Cst.Kind) (start : Position) (ts : List Cst) : Asks (finish kind start ts) := ⟨fun _ => rfl⟩

instance extend (t : Cst) : Asks (extend t) := ⟨fun _ => rfl⟩

end Asks

/-- From whatever state it starts, the reader goes onward. -/
class Forward (p : Parser α) : Prop where
  onward (s : State) : Onward s (p s).2

/-- Whether a class literal or a reference follows a primitive type is found by looking ahead. -/
theorem primitiveTypeExpression_eq (rules : Rules) : primitiveTypeExpression rules = (do
    if ← check .kwVoid then
      node .typeLiteral do
        let word ← leaf .voidType
        expect .dot
        expect .kwClass
        return [word]
    else
      let (dimensions, isReference) ← lookAhead do
        skip
        let dimensions ← dims rules
        return (dimensions, ← check .colonColon)
      if isReference then node .typeReference do return [← rules .type]
      else
        node .typeLiteral do
          let word ← leaf .primitiveType
          let dimensions ← if dimensions.isSome then pure (← dims rules).toList else pure []
          expect .dot
          expect .kwClass
          return word :: dimensions) := by
  unfold primitiveTypeExpression lookAhead
  simp only [bind_assoc, pure_bind]

namespace Forward

/-- Errors are never taken back. -/
theorem errors {p : Parser α} (hp : Forward p) {s : State} (h : (p s).2.errors = []) : s.errors = [] :=
  List.suffix_nil.1 (h ▸ (hp.onward s).errors)

/-! ## Sequences and tests -/

instance pure (a : α) : Forward (pure a : Parser α) := ⟨Onward.refl⟩

instance (priority := low) asks {p : Parser α} [hp : Asks p] : Forward p :=
  ⟨fun s => (hp.same s).symm ▸ .refl s⟩

instance bind {p : Parser α} {f : α → Parser β} [hp : Forward p] [hf : ∀ a, Forward (f a)] : Forward (p >>= f) :=
  ⟨fun s => (hp.onward s).trans ((hf _).onward _)⟩

/-- The parts of a sequence go forward. -/
theorem seq {p : Parser α} {f : α → Parser β} (hp : Forward p) (hf : ∀ a, Forward (f a)) : Forward (p >>= f) := bind

instance map {p : Parser α} {f : α → β} [hp : Forward p] : Forward (f <$> p) := ⟨hp.onward⟩

instance ite {c : Prop} [Decidable c] {p q : Parser α} [hp : Forward p] [hq : Forward q] :
    Forward (if c then p else q) := by
  split <;> assumption

/-- A test whose outcomes go forward. -/
theorem test {p : Parser Bool} {f : Bool → Parser β} [hp : Forward p] (hyes : Forward (f true))
    (hno : Forward (f false)) :
    Forward (p >>= f) := seq hp fun b => by cases b <;> assumption

instance and {p q : Parser Bool} [Forward p] [Forward q] : Forward (p <&&> q) := test ‹_› (pure false)

instance or {p q : Parser Bool} [Forward p] [Forward q] : Forward (p <||> q) := test (pure true) ‹_›

instance lookAhead {p : Parser α} [hp : Forward p] : Forward (lookAhead p) := ⟨fun s => (hp.onward s).back⟩

instance skip : Forward skip := ⟨Onward.advance⟩

instance next : Forward next := ⟨Onward.advance⟩

instance report (c : SyntaxError.Cause) (p : Position) : Forward (report c p) := ⟨fun s => Onward.record s _⟩

instance reportHere (c : Token → SyntaxError.Cause) : Forward (reportHere c) := ⟨fun s => Onward.record s _⟩

/-! ## Loops -/

instance repeatUpTo {turn : σ → Parser (Turn σ)} [∀ a, Forward (turn a)] (n : Nat) (a : σ) :
    Forward (repeatUpTo turn n a) := by
  induction n generalizing a with
  | zero => exact pure []
  | succ n ih =>
    refine seq inferInstance fun t => ?_
    split <;> infer_instance

instance {turn : σ → Parser (Turn σ)} [∀ a, Forward (turn a)] (a : σ) : Forward (repeatFrom a turn) := by
  unfold repeatFrom; infer_instance

instance {turn : Parser (Turn Unit)} [Forward turn] : Forward (repeatTurns turn) := by
  unfold repeatTurns
  infer_instance

instance growUpTo {turn : Cst → Parser (Option Cst)} [∀ t, Forward (turn t)] (n : Nat) (t : Cst) :
    Forward (growUpTo turn n t) := by
  induction n generalizing t with
  | zero => exact pure t
  | succ n ih =>
    refine seq inferInstance fun t => ?_
    split <;> infer_instance

instance {turn : Cst → Parser (Option Cst)} [∀ t, Forward (turn t)] (t : Cst) : Forward (grow t turn) := by
  unfold grow; infer_instance

instance {p : Parser α} [Forward p] : Forward (guarded p) := by unfold guarded; infer_instance

/-! ## All that is made of readers -/

/-- A reader goes forward beside itself. -/
instance parallel_self {s₀ : State} [Relates (sameFrom s₀) α] [Simple (sameFrom s₀) α] {p : Parser α} [hp : Forward p] :
    (sameFrom s₀).Parallel p p := by
  refine ⟨?_⟩
  rintro s _ ⟨rfl, hs⟩
  exact ⟨Simple.self _, rfl, hs.trans (hp.onward s)⟩

/-- Whatever is parallel to itself, as it is made of readers that go forward. -/
instance (priority := low) made [∀ F : Frame, Relates F α] {p : Parser α} [h : ∀ s, (sameFrom s).Parallel p p] :
    Forward p :=
  ⟨fun s => ((h s).alike s s ⟨rfl, .refl s⟩).2.2⟩

end Forward

end Grammar

end KiteCompiler
