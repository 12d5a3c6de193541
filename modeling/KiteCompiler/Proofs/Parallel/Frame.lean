import KiteCompiler.Grammar.Expressions
import KiteCompiler.Proofs.Related

/-!
# Two runs side by side

A `Frame` says which tokens, places and states of two runs of the reader correspond to each other, and that the few
steps from which all productions are made keep this. Two readers are `Parallel` in a frame if they lead from
corresponding states to corresponding states and results. This passes through sequences, tests and loops, and is found
by instance search; what corresponds (`Related`) is passed on as an instance, for a result of both runs by its `Pair`.
-/

namespace KiteCompiler

namespace SyntaxError.Cause

/-- The same cause about related tokens. -/
inductive Rel (r : Token → Token → Prop) : Cause → Cause → Prop
  | plain {c : Cause} (h : c.found = none) : Rel r c c
  | invalidToken {t t' : Token} (h : r t t') : Rel r (invalidToken t) (invalidToken t')
  | missing {k : Token.Kind} {t t' : Token} (h : r t t') : Rel r (missing k t) (missing k t')
  | missingIdentifier {t t' : Token} (h : r t t') : Rel r (missingIdentifier t) (missingIdentifier t')
  | missingConstruct {c : Construct} {t t' : Token} (h : r t t') : Rel r (missingConstruct c t) (missingConstruct c t')
  | unexpected {t t' : Token} (h : r t t') : Rel r (unexpected t) (unexpected t')
  | unexpectedAfterExpression {t t' : Token} (h : r t t') :
      Rel r (unexpectedAfterExpression t) (unexpectedAfterExpression t')
  | secondTopLevelType {t t' : Token} (h : r t t') : Rel r (secondTopLevelType t) (secondTopLevelType t')
  | noTopLevelType {t t' : Token} (h : r t t') : Rel r (noTopLevelType t) (noTopLevelType t')
  | typeArgumentsWithoutCall {t t' : Token} (h : r t t') :
      Rel r (typeArgumentsWithoutCall t) (typeArgumentsWithoutCall t')

end SyntaxError.Cause

namespace Grammar

/-- What the closing of an angle bracket does to a state. -/
theorem closeAngle_apply (s : State) :
    closeAngle s =
      if s.current.kind = .greater then (true, s.advance)
      else match afterAngle s.current.kind with
        | some rest => (true, s.splitCurrent rest)
        | none => (false, s) := by
  by_cases h : s.current.kind = .greater
  · rw [if_pos h]
    change (if s.current.kind = .greater then _ else _ : Parser Bool) s = _
    rw [if_pos h]
    rfl
  · rw [if_neg h]
    change (if s.current.kind = .greater then _ else _ : Parser Bool) s = _
    rw [if_neg h]
    cases afterAngle s.current.kind <;> rfl

/-- What corresponds in two runs, and that the steps of reading keep it. `ends` relates the ends of spans, which no
production looks at. -/
structure Frame where
  position : Position → Position → Prop
  ends : Position → Position → Prop
  token : Token → Token → Prop
  state : State → State → Prop
  kind_eq {t t' : Token} : token t t' → t.kind = t'.kind
  text_eq {t t' : Token} : token t t' → t.text = t'.text
  first {t t' : Token} : token t t' → position t.span.first t'.span.first
  last {t t' : Token} : token t t' → ends t.span.last t'.span.last
  current {s s' : State} : state s s' → token s.current s'.current
  ahead {s s' : State} (n : Nat) : state s s' → (s.ahead n).kind = (s'.ahead n).kind
  pos_eq {s s' : State} : state s s' → s.pos = s'.pos
  remaining_eq {s s' : State} : state s s' → s.remaining = s'.remaining
  lastEnd {s s' : State} {p p' : Position} : state s s' → position p p' →
    ends (if s.lastEnd.offset < p.offset then p else s.lastEnd)
      (if s'.lastEnd.offset < p'.offset then p' else s'.lastEnd)
  start_end {p p' : Position} : position p p' → ends p p'
  advance {s s' : State} : state s s' → state s.advance s'.advance
  /-- Going back to where an earlier pair of states stood. -/
  rewind {s s' t t' : State} : state s s' → state t t' → state { t with pos := s.pos } { t' with pos := s'.pos }
  record {s s' : State} {c c' : SyntaxError.Cause} {p p' : Position} : state s s' → c.Rel token c' → position p p' →
    state (s.record ⟨c, p⟩) (s'.record ⟨c', p'⟩)

/-- The splitting of a token keeps what corresponds, too. Only the productions that close angle brackets need this. -/
class Frame.Splits (F : Frame) : Prop where
  split {s s' : State} {k : Token.Kind} : F.state s s' → afterAngle s.current.kind = some k →
    F.state (s.splitCurrent k) (s'.splitCurrent k)

namespace Frame

variable {F : Frame} {α β α' β' σ σ' : Type}

/-- Corresponding errors. -/
def error (F : Frame) (e e' : SyntaxError) : Prop := e.cause.Rel F.token e'.cause ∧ F.position e.pos e'.pos

/-- Corresponding labels of syntax nodes. -/
structure label (F : Frame) (l l' : Cst.Label) : Prop where
  kind : l.kind = l'.kind
  first : F.position l.span.first l'.span.first
  last : F.ends l.span.last l'.span.last
  token : Option.Rel F.token l.token l'.token
  error : Option.Rel F.error l.error l'.error

/-- Corresponding syntax trees. -/
def tree (F : Frame) : Cst → Cst → Prop := Tree.Rel F.label

/-- Corresponding lists of syntax trees. -/
def trees (F : Frame) : List Cst → List Cst → Prop := List.Forall₂ F.tree

/-- From corresponding states two readers come to corresponding states, with related results. -/
def Alike (F : Frame) (r : α → α' → Prop) (p : Parser α) (p' : Parser α') : Prop :=
  ∀ s s', F.state s s' → r (p s).1 (p' s').1 ∧ F.state (p s).2 (p' s').2

theorem tree.kind_eq {t t' : Cst} (h : F.tree t t') : t.kind = t'.kind := (Tree.rel_iff.1 h).1.kind

theorem tree.literal_eq {t t' : Cst} (h : F.tree t t') : t.literal = t'.literal := by
  have htoken := (Tree.rel_iff.1 h).1.token
  unfold Cst.literal
  generalize t.label.token = x, t'.label.token = y at htoken
  cases htoken with
  | some ht => exact F.text_eq ht
  | none => rfl

theorem trees.kinds_eq {ts ts' : List Cst} (h : F.trees ts ts') : ts.map Cst.kind = ts'.map Cst.kind := by
  induction h with
  | nil => rfl
  | cons ht _ ih => rw [List.map_cons, List.map_cons, tree.kind_eq ht, ih]

theorem tree.has_eq {t t' : Cst} (h : F.tree t t') (k : Cst.Kind) : t.has k = t'.has k := by
  have hany := congrArg (List.any · (· == k)) (trees.kinds_eq (Tree.rel_iff.1 h).2)
  simpa [Cst.has, List.any_map, Function.comp_def] using hany

/-! ## Corresponding results -/

instance : Plain Receiver := ⟨⟩

instance : Relates F Position := ⟨F.position⟩

instance : Relates F Token := ⟨F.token⟩

instance : Relates F State := ⟨F.state⟩

instance : Relates F SyntaxError := ⟨F.error⟩

instance : Relates F SyntaxError.Cause := ⟨SyntaxError.Cause.Rel F.token⟩

instance : Relates F Cst := ⟨F.tree⟩

instance [Relates F α] : Relates F (Turn α) :=
  ⟨fun t t' => F.trees t.added t'.added ∧ Option.Rel (Relates.rel F) t.next t'.next⟩

/-- Readers that are alike, with corresponding results. -/
class Parallel (F : Frame) [Relates F α] (p p' : Parser α) : Prop where
  alike : F.Alike (Relates.rel F) p p'

namespace Related

variable {t t' : Cst} {ts ts' us us' : List Cst}

instance last [Relates F α] [h : Related F ts ts'] : Related F (.last ts : Turn α) (.last ts') := ⟨h.rel, .none⟩

instance more [Relates F α] {a a' : α} [h : Related F ts ts'] [ha : Related F a a'] :
    Related F (.more ts a : Turn α) (.more ts' a') := ⟨h.rel, .some ha.rel⟩

/-! Values computed from corresponding ones. -/

instance kind {t t' : Token} [h : Related F t t'] : Related F t.kind t'.kind := ⟨F.kind_eq h.rel⟩

instance treeKind [h : Related F t t'] : Related F (Cst.kind t) (Cst.kind t') := ⟨tree.kind_eq h.rel⟩

instance aheadKind {s s' : State} (n : Nat) [h : Related F s s'] : Related F (s.ahead n).kind (s'.ahead n).kind :=
  ⟨F.ahead n h.rel⟩

instance remaining {s s' : State} [h : Related F s s'] : Related F s.remaining s'.remaining := ⟨F.remaining_eq h.rel⟩

instance all (k : Cst.Kind) [h : Related F ts ts'] :
    Related F (ts.all fun t => Cst.kind t == k) (ts'.all fun t => Cst.kind t == k) := by
  have hall := congrArg (List.all · (· == k)) (trees.kinds_eq h.rel)
  refine ⟨show _ = _ from ?_⟩
  simpa [List.all_map, Function.comp_def] using hall

instance children [h : Related F t t'] : Related F (Tree.children t) (Tree.children t') := ⟨(Tree.rel_iff.1 h.rel).2⟩

instance span [h : Related F t t'] : Related F t.span.first t'.span.first := ⟨(Tree.rel_iff.1 h.rel).1.first⟩

instance first {t t' : Token} [h : Related F t t'] : Related F t.span.first t'.span.first := ⟨F.first h.rel⟩

/-- The node for a token. -/
instance leaf (kind : Cst.Kind) {t t' : Token} [h : Related F t t'] :
    Related F (.node { kind, span := t.span, token := .some t } [] : Cst)
    (.node { kind, span := t'.span, token := .some t' } []) :=
  ⟨Tree.rel_iff.2 ⟨⟨rfl, F.first h.rel, F.last h.rel, .some h.rel, .none⟩, .nil⟩⟩

/-- A node without children. -/
instance empty (kind : Cst.Kind) {p p' : Position} [h : Related F p p'] :
    Related F (.node { kind, span := ⟨p, p⟩ } [] : Cst) (.node { kind, span := ⟨p', p'⟩ } []) :=
  ⟨Tree.rel_iff.2 ⟨⟨rfl, h.rel, F.start_end h.rel, .none, .none⟩, .nil⟩⟩

/-- A node that is given a token. -/
instance labelled [h : Related F t t'] {u u' : Token} [hu : Related F u u'] [hts : Related F ts ts'] :
    Related F (.node { t.label with token := .some u } ts : Cst) (.node { t'.label with token := .some u' } ts') := by
  have hl := (Tree.rel_iff.1 h.rel).1
  exact ⟨Tree.rel_iff.2 ⟨⟨hl.kind, hl.first, hl.last, .some hu.rel, hl.error⟩, hts.rel⟩⟩

/-- The node for an error. -/
instance error {t t' : Token} {e e' : SyntaxError} [h : Related F t t'] [he : Related F e e'] :
    Related F (.node { kind := .error, span := t.span, error := .some e } [] : Cst)
      (.node { kind := .error, span := t'.span, error := .some e' } []) :=
  ⟨Tree.rel_iff.2 ⟨⟨rfl, F.first h.rel, F.last h.rel, .none, .some he.rel⟩, .nil⟩⟩

section Causes

variable {t t' : Token} [h : Related F t t']

instance missing (k : Token.Kind) : Related F (SyntaxError.Cause.missing k t) (.missing k t') := ⟨.missing h.rel⟩

instance missingIdentifier : Related F (SyntaxError.Cause.missingIdentifier t) (.missingIdentifier t') :=
  ⟨.missingIdentifier h.rel⟩

instance missingConstruct (c : Construct) :
    Related F (SyntaxError.Cause.missingConstruct c t) (.missingConstruct c t') := ⟨.missingConstruct h.rel⟩

instance unexpected : Related F (SyntaxError.Cause.unexpected t) (.unexpected t') := ⟨.unexpected h.rel⟩

instance unexpectedAfterExpression :
    Related F (SyntaxError.Cause.unexpectedAfterExpression t) (.unexpectedAfterExpression t') :=
  ⟨.unexpectedAfterExpression h.rel⟩

instance secondTopLevelType : Related F (SyntaxError.Cause.secondTopLevelType t) (.secondTopLevelType t') :=
  ⟨.secondTopLevelType h.rel⟩

instance noTopLevelType : Related F (SyntaxError.Cause.noTopLevelType t) (.noTopLevelType t') := ⟨.noTopLevelType h.rel⟩

instance typeArgumentsWithoutCall :
    Related F (SyntaxError.Cause.typeArgumentsWithoutCall t) (.typeArgumentsWithoutCall t') :=
  ⟨.typeArgumentsWithoutCall h.rel⟩

end Causes

instance dimensionsAndInitializer : Related F SyntaxError.Cause.dimensionsAndInitializer .dimensionsAndInitializer :=
  ⟨.plain rfl⟩

instance noDimensions : Related F SyntaxError.Cause.noDimensions .noDimensions := ⟨.plain rfl⟩

instance tryWithoutHandler : Related F SyntaxError.Cause.tryWithoutHandler .tryWithoutHandler := ⟨.plain rfl⟩

instance tooDeep : Related F SyntaxError.Cause.tooDeep .tooDeep := ⟨.plain rfl⟩

end Related

namespace Parallel

/-! ## Sequences and tests -/

instance pure [Relates F α] {a a' : α} [h : Related F a a'] : F.Parallel (pure a : Parser α) (pure a') :=
  ⟨fun _ _ hs => ⟨h.rel, hs⟩⟩

instance bind [Relates F α] [Relates F β] {p p' : Parser α} {f f' : α → Parser β} [hp : F.Parallel p p']
    [hf : ∀ x : Pair F α, F.Parallel (f x.left) (f' x.right)] : F.Parallel (p >>= f) (p' >>= f') := by
  refine ⟨fun s s' hs => ?_⟩
  obtain ⟨ha, hs⟩ := hp.alike s s' hs
  exact (hf ⟨_, _, ha⟩).alike _ _ hs

/-- The parts of a sequence are parallel. -/
theorem seq [Relates F α] [Relates F β] {p p' : Parser α} {f f' : α → Parser β} (hp : F.Parallel p p')
    (hf : ∀ x : Pair F α, F.Parallel (f x.left) (f' x.right)) : F.Parallel (p >>= f) (p' >>= f') := bind

/-- The first result is the same in both runs. -/
instance same [Plain α] [Relates F β] {p p' : Parser α} {f f' : α → Parser β} [hp : F.Parallel p p']
    [hf : ∀ a, F.Parallel (f a) (f' a)] : F.Parallel (p >>= f) (p' >>= f') := by
  refine seq hp fun ⟨a, a', h⟩ => ?_
  obtain rfl : a = a' := h
  exact hf a

instance ite [Relates F α] {c c' : Prop} [Decidable c] [Decidable c'] [hc : Same F c c'] {p p' q q' : Parser α}
    [hp : F.Parallel p p'] [hq : F.Parallel q q'] : F.Parallel (if c then p else q) (if c' then p' else q') := by
  by_cases h : c
  · rwa [if_pos h, if_pos (hc.iff.1 h)]
  · rwa [if_neg h, if_neg (mt hc.iff.2 h)]

instance map [Plain α] [Plain β] {p p' : Parser α} {f : α → β} [hp : F.Parallel p p'] :
    F.Parallel (f <$> p) (f <$> p') :=
  ⟨fun s s' hs => ⟨congrArg f (hp.alike s s' hs).1, (hp.alike s s' hs).2⟩⟩

/-- A test with the same outcome in both runs. -/
theorem test [Relates F β] {p p' : Parser Bool} {f f' : Bool → Parser β} (hp : F.Parallel p p')
    (hyes : F.Parallel (f true) (f' true)) (hno : F.Parallel (f false) (f' false)) : F.Parallel (p >>= f) (p' >>= f') :=
  @same _ _ _ _ _ _ _ _ _ hp fun b => by cases b <;> assumption

instance and {p p' q q' : Parser Bool} [hp : F.Parallel p p'] [hq : F.Parallel q q'] :
    F.Parallel (p <&&> q) (p' <&&> q') :=
  test hp hq pure

instance or {p p' q q' : Parser Bool} [hp : F.Parallel p p'] [hq : F.Parallel q q'] :
    F.Parallel (p <||> q) (p' <||> q') :=
  test hp pure hq

/-! ## Looking at tokens -/

instance get : F.Parallel (get : Parser State) get := ⟨fun _ _ hs => ⟨hs, hs⟩⟩

instance peek : F.Parallel peek peek := ⟨fun _ _ hs => ⟨F.current hs, hs⟩⟩

/-- The current tokens are of the same kind. -/
theorem peeked [Relates F α] {f f' : Token → Parser α}
    (h : ∀ x : Pair F Token, x.left.kind = x.right.kind → F.Parallel (f x.left) (f' x.right)) :
    F.Parallel (Grammar.peek >>= f) (Grammar.peek >>= f') := seq peek fun x => h x (F.kind_eq x.rel)

instance here : F.Parallel here here := ⟨fun _ _ hs => ⟨F.first (F.current hs), hs⟩⟩

instance check (k : Token.Kind) : F.Parallel (check k) (check k) :=
  ⟨fun _ _ hs => ⟨congrArg (· == k) (F.kind_eq (F.current hs)), hs⟩⟩

instance checkAhead (n : Nat) (k : Token.Kind) : F.Parallel (checkAhead n k) (checkAhead n k) :=
  ⟨fun _ _ hs => ⟨congrArg (· == k) (F.ahead n hs), hs⟩⟩

instance checkAny (ks : List Token.Kind) : F.Parallel (checkAny ks) (checkAny ks) :=
  ⟨fun _ _ hs => ⟨congrArg ks.contains (F.kind_eq (F.current hs)), hs⟩⟩

instance checkName : F.Parallel checkName checkName :=
  ⟨fun _ _ hs => ⟨congrArg Token.Kind.isName (F.kind_eq (F.current hs)), hs⟩⟩

instance checkNameAhead : F.Parallel checkNameAhead checkNameAhead :=
  ⟨fun _ _ hs => ⟨congrArg Token.Kind.isName (F.ahead 1 hs), hs⟩⟩

instance lookAhead [Relates F α] {p p' : Parser α} [hp : F.Parallel p p'] : F.Parallel (lookAhead p) (lookAhead p') :=
  ⟨fun s s' hs => ⟨(hp.alike s s' hs).1, F.rewind hs (hp.alike s s' hs).2⟩⟩

/-- Going back to where the earlier states stood. -/
instance rewind {s s' : State} [h : Related F s s'] :
    F.Parallel (modify fun t : State => { t with pos := s.pos } : Parser Unit)
    (modify fun t : State => { t with pos := s'.pos }) := ⟨fun _ _ ht => ⟨rfl, F.rewind h.rel ht⟩⟩

/-! ## Taking tokens -/

instance skip : F.Parallel skip skip := ⟨fun _ _ hs => ⟨rfl, F.advance hs⟩⟩

instance next : F.Parallel next next := ⟨fun _ _ hs => ⟨F.current hs, F.advance hs⟩⟩

instance report {c c' : SyntaxError.Cause} {p p' : Position} [hc : Related F c c'] [hp : Related F p p'] :
    F.Parallel (report c p) (report c' p') := ⟨fun _ _ hs => ⟨⟨hc.rel, hp.rel⟩, F.record hs hc.rel hp.rel⟩⟩

instance {c : Token → SyntaxError.Cause} [∀ x : Pair F Token, Related F (c x.left) (c x.right)] :
    F.Parallel (reportHere c) (reportHere c) := by unfold reportHere; infer_instance

instance (k : Token.Kind) : F.Parallel (expect k) (expect k) := by unfold expect; infer_instance

section Search

variable [Plain α] [Plain σ] {turn : σ → Parser (α ⊕ σ)} [hturn : ∀ a, F.Parallel (turn a) (turn a)] (otherwise : σ → α)

instance searchUpTo {n n' : Nat} [hn : Related F n n'] (a : σ) :
    F.Parallel (searchUpTo turn otherwise n a) (searchUpTo turn otherwise n' a) := by
  obtain rfl : n = n' := hn.rel
  clear hn
  induction n generalizing a with
  | zero => exact pure
  | succ n ih =>
    refine seq (hturn a) fun ⟨b, b', hb⟩ => ?_
    cases hb with
    | inl hr => exact @pure _ _ _ _ _ ⟨hr⟩
    | inr ha => exact ha ▸ ih _

instance (a : σ) : F.Parallel (search turn otherwise a) (search turn otherwise a) := by unfold search; infer_instance

end Search

instance (ks : List Token.Kind) : F.Parallel (recoverTurn ks) (recoverTurn ks) := by unfold recoverTurn; infer_instance

instance (ks : List Token.Kind) : F.Parallel (recover ks) (recover ks) := by unfold recover; infer_instance

/-! ## Making nodes -/

instance finish (kind : Cst.Kind) {p p' : Position} {ts ts' : List Cst} [hp : Related F p p'] [hts : Related F ts ts'] :
    F.Parallel (finish kind p ts) (finish kind p' ts') :=
  ⟨fun _ _ hs => ⟨Tree.rel_iff.2 ⟨⟨rfl, hp.rel, F.lastEnd hs hp.rel, .none, .none⟩, hts.rel⟩, hs⟩⟩

instance (kind : Cst.Kind) {p p' : Parser (List Cst)} [F.Parallel p p'] : F.Parallel (node kind p) (node kind p') := by
  unfold node; infer_instance

instance (kind : Cst.Kind) {t t' : Cst} {p p' : Parser (List Cst)} [Related F t t'] [F.Parallel p p'] :
    F.Parallel (nodeFrom kind t p) (nodeFrom kind t' p') := by unfold nodeFrom; infer_instance

instance extend {t t' : Cst} [ht : Related F t t'] : F.Parallel (extend t) (extend t') := by
  unfold Grammar.extend
  rw [tree.kind_eq ht.rel]
  refine seq inferInstance fun x => @pure _ _ _ _ _ ⟨?_⟩
  obtain ⟨hl, hts⟩ := Tree.rel_iff.1 ht.rel
  exact Tree.rel_iff.2 ⟨⟨hl.kind, hl.first, (Tree.rel_iff.1 x.rel).1.last, hl.token, hl.error⟩, hts⟩

instance (kind : Cst.Kind) : F.Parallel (leaf kind) (leaf kind) := by unfold leaf; infer_instance

instance (construct : Construct) (recovery : List Token.Kind) :
    F.Parallel (errorNode construct recovery) (errorNode construct recovery) := by unfold errorNode; infer_instance

instance : F.Parallel identifier identifier := by unfold identifier; infer_instance

/-! ## Loops -/

section Loops

variable {σ : Type} [Plain σ] {turn turn' : σ → Parser (Turn σ)} [hturn : ∀ a, F.Parallel (turn a) (turn' a)]

instance repeatUpTo {n n' : Nat} [hn : Related F n n'] {a a' : σ} [ha : Related F a a'] :
    F.Parallel (repeatUpTo turn n a) (repeatUpTo turn' n' a') := by
  obtain rfl : a = a' := ha.rel
  obtain rfl : n = n' := hn.rel
  clear ha
  induction n generalizing a with
  | zero => exact pure
  | succ n ih =>
    refine seq (hturn a) fun ⟨⟨added, next⟩, ⟨added', next'⟩, hadded, hnext⟩ => ?_
    have : Related F added added' := ⟨hadded⟩
    cases hnext with
    | some hb =>
      obtain rfl := hb
      dsimp only
      infer_instance
    | none => exact pure

instance {a a' : σ} [Related F a a'] : F.Parallel (repeatFrom a turn) (repeatFrom a' turn') := by
  unfold repeatFrom; infer_instance

end Loops

instance {turn turn' : Parser (Turn Unit)} [F.Parallel turn turn'] :
    F.Parallel (repeatTurns turn) (repeatTurns turn') := by unfold repeatTurns; infer_instance

section Grow

variable {turn turn' : Cst → Parser (Option Cst)} [hturn : ∀ x : Pair F Cst, F.Parallel (turn x.left) (turn' x.right)]

instance growUpTo {n n' : Nat} [hn : Related F n n'] {t t' : Cst} [ht : Related F t t'] :
    F.Parallel (growUpTo turn n t) (growUpTo turn' n' t') := by
  obtain rfl : n = n' := hn.rel
  clear hn
  induction n generalizing t t' with
  | zero => exact pure
  | succ n ih =>
    refine seq (hturn ⟨t, t', ht.rel⟩) fun ⟨u, u', hu⟩ => ?_
    cases hu with
    | some hu => exact @ih _ _ ⟨hu⟩
    | none => exact pure

instance {t t' : Cst} [Related F t t'] : F.Parallel (grow t turn) (grow t' turn') := by unfold grow; infer_instance

end Grow

section

variable {c c' : Parser Bool} {p p' : Parser Cst} [F.Parallel c c'] [hp : F.Parallel p p']

instance : F.Parallel (optionalIf c p) (optionalIf c' p') := by unfold optionalIf; infer_instance

instance (k : Token.Kind) : F.Parallel (optionalAt k p) (optionalAt k p') := by unfold optionalAt; infer_instance

instance : F.Parallel (whileTurn c p) (whileTurn c' p') := by unfold whileTurn; infer_instance

instance : F.Parallel (manyWhile c p) (manyWhile c' p') := by unfold manyWhile; infer_instance

instance (k : Token.Kind) : F.Parallel (manyAt k p) (manyAt k p') := by unfold manyAt; infer_instance

instance (k : Token.Kind) : F.Parallel (itemTurn k p) (itemTurn k p') := by unfold itemTurn; infer_instance

instance (k : Token.Kind) : F.Parallel (separated k p) (separated k p') := by unfold separated; infer_instance

instance (stop k : Token.Kind) : F.Parallel (untilTurn stop k p) (untilTurn stop k p') := by
  unfold untilTurn
  infer_instance

instance (stop k : Token.Kind) : F.Parallel (separatedUntil stop k p) (separatedUntil stop k p') := by
  unfold separatedUntil; infer_instance

omit hp in
instance guarded [Relates F α] {p p' : Parser α} [hp : F.Parallel p p'] : F.Parallel (guarded p) (guarded p') := by
  refine seq get fun x => seq hp fun y => seq get fun z => ?_
  have : Related F x.left.pos x.right.pos := ⟨F.pos_eq x.rel⟩
  have : Related F z.left.pos z.right.pos := ⟨F.pos_eq z.rel⟩
  dsimp only
  infer_instance

instance : F.Parallel (guardedTurn p) (guardedTurn p') := by unfold guardedTurn; dsimp only; infer_instance

instance (stops : List Token.Kind) : F.Parallel (guardedUntilTurn stops p) (guardedUntilTurn stops p') := by
  unfold guardedUntilTurn; infer_instance

instance (stops : List Token.Kind) : F.Parallel (guardedUntil stops p) (guardedUntil stops p') := by
  unfold guardedUntil; infer_instance

instance (stops : List Token.Kind) : F.Parallel (declarationTurn stops p) (declarationTurn stops p') := by
  unfold declarationTurn; infer_instance

instance (stops : List Token.Kind) : F.Parallel (declarationsUntil stops p) (declarationsUntil stops p') := by
  unfold declarationsUntil; infer_instance

end

end Parallel

end Frame

end Grammar

end KiteCompiler
