import Mathlib.Logic.Function.Iterate
import KiteCompiler.Proofs.Termination.Calls

/-!
# Reading ends

Every turn of the lexer takes bytes, and every turn of a loop of the grammar takes token text or is the last one. A call
of a production inside another starts with less text left, or with the same text and a production of a lower rank
(`Call.Calls.below`). So calls are nested at most as deep as the text is long, up to a constant
(`length_le_of_isChain`), and reading with anything at all in place of the deeper calls gives the same
(`iterate_production`).
-/

namespace KiteCompiler

namespace Token

/-- The tokens of a text do not depend on the bound on their number. -/
theorem lexFrom_eq {fuel fuel' : Nat} {p : Position} {s : Text} (h : s.length ≤ fuel) (h' : s.length ≤ fuel') :
    lexFrom fuel p s = lexFrom fuel' p s := by
  induction fuel generalizing fuel' p s with
  | zero =>
    obtain rfl := List.eq_nil_of_length_eq_zero (Nat.le_zero.1 h)
    rw [lexFrom_nil, lexFrom_nil]
  | succ fuel ih =>
    cases s with
    | nil => rw [lexFrom_nil, lexFrom_nil]
    | cons b rest =>
      obtain ⟨fuel', rfl⟩ := Nat.exists_eq_succ_of_ne_zero (show fuel' ≠ 0 by simp only [List.length_cons] at h'; omega)
      have hlt := length_drop_scan_lt b rest
      have hrest : ∀ p, lexFrom fuel p ((b :: rest).drop (scan (b :: rest)).2) =
          lexFrom fuel' p ((b :: rest).drop (scan (b :: rest)).2) :=
        fun p => ih (by omega) (by omega)
      rw [lexFrom_cons, lexFrom_cons, hrest]

end Token

namespace Grammar

/-! ## Nested calls -/

/-- The call of a production in a state. -/
structure Call where
  production : Production
  state : State
  ready : state.Ready

namespace Call

/-- Less text is left, or as much, and the rank is lower. -/
def Below (d c : Call) : Prop :=
  d.state.unread < c.state.unread ∨ d.state.unread = c.state.unread ∧ d.production.rank < c.production.rank

/-- A production needs the others only below its own call. -/
theorem production_congr {rules rules' : Rules} [∀ p, Forward (rules p)] (c : Call)
    (h : ∀ d : Call, d.Below c → rules d.production d.state = rules' d.production d.state) :
    Grammar.production rules c.production c.state = Grammar.production rules' c.production c.state := by
  refine (agree_production (fun q => ⟨fun {s} hs hm => ?_⟩) c.production fun q hq => ⟨fun {s} hs hm => ?_⟩).eq c.ready
    (.inr ⟨rfl, rfl⟩)
  · exact h ⟨q, s, hs⟩ (.inl (hm.resolve_right fun hm => Bool.false_ne_true hm.2))
  · exact h ⟨q, s, hs⟩ (hm.imp_right fun hm => ⟨hm.1, hq⟩)

/-- Reading `c` calls `d`: its outcome depends on what is read there. -/
def Calls (c d : Call) : Prop :=
  ∃ rules rules' : Rules, (∀ p, Forward (rules p)) ∧
    (∀ p s, ¬ (p = d.production ∧ s = d.state) → rules p s = rules' p s) ∧
    Grammar.production rules c.production c.state ≠ Grammar.production rules' c.production c.state

theorem Calls.below {c d : Call} (h : c.Calls d) : d.Below c := by
  obtain ⟨rules, rules', hforward, hsame, hne⟩ := h
  by_contra hbelow
  refine hne (production_congr c fun e he => hsame _ _ fun hd => hbelow ?_)
  unfold Below at he ⊢
  rwa [hd.1, hd.2] at he

end Call

theorem Production.rank_lt (p : Production) : p.rank < 5 := by cases p <;> decide

/-- Along nested calls the text gets less, or the rank gets lower by one with each of them. -/
theorem descends_of_isChain {c : Call} {calls : List Call} (h : List.IsChain Call.Calls (c :: calls)) :
    let d := (c :: calls).getLast (List.cons_ne_nil _ _)
    d.state.unread < c.state.unread ∨
      d.state.unread = c.state.unread ∧ d.production.rank + calls.length ≤ c.production.rank := by
  induction calls generalizing c with
  | nil => exact .inr ⟨rfl, Nat.le_refl _⟩
  | cons e calls ih =>
    obtain ⟨hcall, hrest⟩ := List.isChain_cons_cons.1 h
    have hbelow := hcall.below
    have hlast := ih hrest
    unfold Call.Below at hbelow
    simp only [List.getLast_cons_cons, List.length_cons] at hlast ⊢
    omega

theorem length_le_of_isChain {c : Call} {calls : List Call} (h : List.IsChain Call.Calls (c :: calls)) :
    calls.length ≤ 5 * c.state.unread + c.production.rank := by
  induction calls generalizing c with
  | nil => exact Nat.zero_le _
  | cons e calls ih =>
    obtain ⟨hcall, hrest⟩ := List.isChain_cons_cons.1 h
    have hbelow := hcall.below
    have hle := ih hrest
    have hrank := e.production.rank_lt
    unfold Call.Below at hbelow
    rw [List.length_cons]
    omega

/-! ## Deep enough reading -/

/-- With enough levels of productions, it does not matter what is below them. -/
theorem iterate_production (rules : Rules) {n n' : Nat} {p : Production} {s : State} (hs : s.Ready)
    (hn : 5 * s.unread + p.rank < n) (hn' : 5 * s.unread + p.rank < n') :
    rulesUpTo n' p s = production^[n] rules p s := by
  induction n generalizing n' p s with
  | zero => exact absurd hn (Nat.not_lt_zero _)
  | succ n ih =>
    obtain ⟨n', rfl⟩ := Nat.exists_eq_succ_of_ne_zero (Nat.ne_of_gt (Nat.zero_lt_of_lt hn'))
    rw [Function.iterate_succ_apply']
    refine Call.production_congr ⟨p, s, hs⟩ fun d hd => ih d.ready ?_ ?_
    all_goals
      have hrank := d.production.rank_lt
      have hrank' := p.rank_lt
      simp only [Call.Below] at hd
      omega

/-- The number of bytes in the tokens that are read. -/
def bytes (source : Text) : Nat := (initial (Token.lex source)).unread

/-- Reads a source with the given readers of the productions. -/
def parseWith (rules : Rules) (start : Rules → Parser Cst) (source : Text) : Parsed :=
  let (tree, s) := (start rules).run (initial (Token.lex source))
  { tree
    errors := s.errors.reverse.mergeSort fun a b => a.pos.offset ≤ b.pos.offset
    comments := (Token.lex source).filter fun t => t.kind == .comment || t.kind == .lineComment }

theorem depth_eq (source : Text) : depth source = productionsPerByte * (bytes source + 1) := by
  rw [depth, bytes, State.unread, tokens_initial, pos_initial, List.toList_toArray, List.drop_zero, List.sum_eq_foldl]
  rfl

theorem parse_eq_parseWith (start : Rules → Parser Cst) (source : Text) :
    parse start source = parseWith (rulesUpTo (depth source)) start source := parse_eq_run start source

/-- Readers that agree with the productions wherever a source leads to read it in the same way. -/
theorem parseWith_iterate {start : Rules → Parser Cst} (hstart : start = compilationUnit ∨ start = standaloneExpression)
    (source : Text) (rules : Rules) {n : Nat} (hn : 5 * (bytes source + 1) ≤ n) :
    parseWith (production^[n] rules) start source = parse start source := by
  have hrules : ∀ p, Agree nothing (bytes source + 1) (rulesUpTo (depth source) p) (production^[n] rules p) := by
    refine fun p => ⟨fun {s} hs hm => ?_⟩
    have hlt := hm.resolve_right fun hm => Bool.false_ne_true hm.2
    have hrank := p.rank_lt
    refine iterate_production rules hs (by omega) ?_
    rw [depth_eq, productionsPerByte]
    omega
  have hagree : Agree nothing (bytes source + 1) (start (rulesUpTo (depth source))) (start (production^[n] rules)) := by
    rcases hstart with rfl | rfl <;> infer_instance
  have hrun := hagree.eq (initial_ready source) (.inl (Nat.lt_succ_self _))
  rw [parse_eq_parseWith, parseWith, parseWith, StateT.run, StateT.run, hrun]

/-! ## All together -/

/-- Reading ends, with `K` as the constant for nested calls. -/
structure Terminating (K : Nat) : Prop where
  /-- A turn of the lexer takes bytes. -/
  lexer_turn : ∀ fuel p b rest, ∃ t p' rest', 0 < t.text.length ∧ b :: rest = t.text ++ rest' ∧
    Token.lexFrom (fuel + 1) p (b :: rest) = t :: Token.lexFrom fuel p' rest'
  /-- The bound on the turns of the lexer does not matter. -/
  lexer_bound : ∀ source fuel, source.length ≤ fuel → Token.lexFrom fuel .start source = Token.lex source
  /-- A turn of a loop takes token text or leaves the loop. -/
  loop_turn : ∀ {rules : Rules} [∀ p, Forward (rules p)] {σ α β : Type} [Ongoing β σ] {L : Loop σ α β}, IsLoop rules L →
    ∀ a s, s.Ready → Ongoing.next (L.turn a s).1 = none ∨ (L.turn a s).2.unread < s.unread
  /-- The bound on the turns of a loop does not matter. -/
  loop_bound : ∀ {rules : Rules} [∀ p, Forward (rules p)] {σ α β : Type} [Ongoing β σ] {L : Loop σ α β},
    IsLoop rules L →
    ∀ n a s, s.Ready → s.remaining ≤ n → L.run n a s = L.run s.remaining a s
  /-- The last of `K` nested calls starts with less text left than the first. -/
  calls : ∀ {calls : List Call}, calls.IsChain Call.Calls → calls.length = K → ∀ first ∈ calls.head?,
    ∀ last ∈ calls.getLast?, last.state.unread < first.state.unread
  /-- How deep calls are nested. -/
  depth : ∀ {calls : List Call}, calls.IsChain Call.Calls → ∀ first ∈ calls.head?,
    calls.length ≤ K * (first.state.unread + 1)
  /-- Reading never comes to what is below that depth, and so has the result of the recursive productions. -/
  total : ∀ start ∈ [compilationUnit, standaloneExpression], ∀ source rules n, K * (bytes source + 1) ≤ n →
    parseWith (production^[n] rules) start source = parse start source

/-- The lexer and the parser end on every source. -/
theorem reading_terminates : ∃ K, Terminating K := by
  refine ⟨6, ?_, fun source fuel h => Token.lexFrom_eq h (Nat.le_refl _), ?_, ?_, ?_, ?_, ?_⟩
  · intro fuel p b rest
    refine ⟨_, _, _, ?_, ?_, Token.lexFrom_cons fuel p b rest⟩
    · exact List.length_pos_of_ne_nil (Token.front_text_ne_nil p b rest)
    · exact (List.take_append_drop _ _).symm
  · intro rules _ σ α β _ L hL a s hs
    cases hnext : (Ongoing.next (L.turn a s).1 : Option σ) with
    | none => exact .inl rfl
    | some b => exact .inr (((hL.forward a).onward s).unread_lt hs (hL.getsOn a s hs (by rw [hnext]; rfl)))
  · intro rules _ σ α β _ L hL n a s hs hn
    have := hL.forward
    exact Loop.run_eq hL.getsOn hs hn (Nat.le_refl _) a
  · intro calls hchain hlength first hfirst last hlast
    cases calls with
    | nil => exact absurd hlength (by decide)
    | cons c calls =>
      obtain rfl : c = first := Option.some.inj hfirst
      have hlast : (c :: calls).getLast (List.cons_ne_nil _ _) = last := by
        rw [List.getLast?_eq_getLast_of_ne_nil (List.cons_ne_nil _ _)] at hlast
        exact Option.some.inj hlast
      have hdescends := descends_of_isChain hchain
      have hrank := c.production.rank_lt
      rw [List.length_cons] at hlength
      simp only [hlast] at hdescends
      omega
  · intro calls hchain first hfirst
    cases calls with
    | nil => exact Nat.zero_le _
    | cons c calls =>
      obtain rfl : c = first := Option.some.inj hfirst
      have hle := length_le_of_isChain hchain
      have hrank := c.production.rank_lt
      rw [List.length_cons]
      omega
  · intro start hstart source rules n hn
    refine parseWith_iterate ?_ source rules (by omega)
    simpa using hstart

end Grammar

end KiteCompiler
