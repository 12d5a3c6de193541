import KiteCompiler.Ast.Basic
import KiteCompiler.Proofs.Lexing.Scan
import KiteCompiler.Proofs.Parallel.Productions

/-!
# Aligned sources

Two sources with the same tokens, apart from blanks and comments, differ in where their tokens stand but not in the
order of these places. `Aligned` says this of a relation between places; `alignedFrame` makes a `Frame` of such a
relation, and `aligned_places` finds one for two token lists that agree in kinds and texts.
-/

namespace KiteCompiler

namespace Position

/-- Further ahead in the same source, by offset as well as by line and column. -/
structure Before (p q : Position) : Prop where
  offset : p.offset < q.offset
  place : p.line < q.line ∨ p.line = q.line ∧ p.column < q.column

theorem Before.trans {p q r : Position} (h : p.Before q) (h' : q.Before r) : p.Before r := by
  obtain ⟨ho, hp⟩ := h
  obtain ⟨ho', hp'⟩ := h'
  exact ⟨by omega, by omega⟩

/-- `n` bytes further to the right. -/
def right (p : Position) (n : Nat) : Position := ⟨p.offset + n, p.line, p.column + n⟩

theorem right_right (p : Position) (m n : Nat) : (p.right m).right n = p.right (m + n) := by
  simp [right, Nat.add_assoc]

theorem before_right {p : Position} {m n : Nat} (h : m < n) : (p.right m).Before (p.right n) := by
  constructor <;> dsimp only [right] <;> omega

theorem before_next (p : Position) (b : UInt8) : p.Before (p.next b) := by
  unfold next
  split <;> constructor <;> dsimp only <;> omega

theorem eq_or_before_after (p : Position) (t : Text) : p.after t = p ∨ p.Before (p.after t) := by
  induction t generalizing p with
  | nil => exact .inl rfl
  | cons b t ih =>
    change (p.next b).after t = p ∨ p.Before ((p.next b).after t)
    rcases ih (p.next b) with h | h
    · exact .inr (h.symm ▸ before_next p b)
    · exact .inr ((before_next p b).trans h)

theorem before_after (p : Position) {t : Text} (h : t ≠ []) : p.Before (p.after t) := by
  cases t with
  | nil => exact absurd rfl h
  | cons b t =>
    change p.Before ((p.next b).after t)
    rcases eq_or_before_after (p.next b) t with h | h
    · exact h.symm ▸ before_next p b
    · exact (before_next p b).trans h

theorem after_eq_right (p : Position) {t : Text} (h : Text.byte '\n' ∉ t) : p.after t = p.right t.length := by
  induction t generalizing p with
  | nil => rfl
  | cons b t ih =>
    obtain ⟨hb, ht⟩ := List.ne_and_not_mem_of_not_mem_cons h
    change (p.next b).after t = _
    rw [ih _ ht, next, if_neg (Ne.symm hb)]
    simp [right, Nat.add_comm, Nat.add_left_comm]

end Position

/-- A relation between places of two sources that keeps their order: whatever is compared, the answer is the same. -/
def Aligned (R : Position → Position → Prop) : Prop :=
  ∀ {p p' q q'}, R p p' → R q q' → (p = q ∧ p' = q') ∨ (p.Before q ∧ p'.Before q') ∨ (q.Before p ∧ q'.Before p')

namespace Aligned

variable {R : Position → Position → Prop} (hR : Aligned R) {p p' q q' : Position} (hp : R p p') (hq : R q q')

include hR hp hq

theorem offset_eq_iff : p.offset = q.offset ↔ p'.offset = q'.offset := by
  rcases hR hp hq with ⟨rfl, rfl⟩ | ⟨h, h'⟩ | ⟨h, h'⟩
  · exact ⟨fun _ => rfl, fun _ => rfl⟩
  · have := h.offset; have := h'.offset; omega
  · have := h.offset; have := h'.offset; omega

theorem offset_le_iff : p.offset ≤ q.offset ↔ p'.offset ≤ q'.offset := by
  rcases hR hp hq with ⟨rfl, rfl⟩ | ⟨h, h'⟩ | ⟨h, h'⟩
  · exact ⟨fun _ => Nat.le_refl _, fun _ => Nat.le_refl _⟩
  · have := h.offset; have := h'.offset; omega
  · have := h.offset; have := h'.offset; omega

end Aligned

namespace Token

/-! ## The places of tokens -/

/-- The second token starts behind the first one, which is not empty. -/
def Follows (t u : Token) : Prop := t.text ≠ [] ∧ ∃ w, u.span.first = t.span.first.after (t.text ++ w)

theorem first_of_mem_lexFrom {fuel : Nat} {p : Position} {s : Text} {u : Token} (h : u ∈ lexFrom fuel p s) :
    ∃ w, u.span.first = p.after w := by
  obtain ⟨before, rfl | ⟨b, rest, rfl⟩⟩ := mem_lexFrom h
  · exact ⟨before, rfl⟩
  · exact ⟨before, rfl⟩

theorem lexFrom_follows (fuel : Nat) (p : Position) (s : Text) : (lexFrom fuel p s).Pairwise Follows := by
  induction fuel generalizing p s with
  | zero => exact List.pairwise_singleton _ _
  | succ fuel ih =>
    cases s with
    | nil => exact List.pairwise_singleton _ _
    | cons b rest =>
      rw [lexFrom_cons]
      refine List.Pairwise.cons (fun u hu => ⟨front_text_ne_nil p b rest, ?_⟩) (ih _ _)
      obtain ⟨w, hw⟩ := first_of_mem_lexFrom hu
      exact ⟨w, by rw [hw, Position.after_append]; rfl⟩

theorem text_of_mem_lexFrom {fuel : Nat} {p : Position} {s : Text} {u : Token} (h : u ∈ lexFrom fuel p s)
    (hkind : u.kind ∈ Kind.punctuation) : u.text = u.kind.label := by
  obtain ⟨before, rfl | ⟨b, rest, rfl⟩⟩ := mem_lexFrom h
  · exact absurd hkind (show Kind.eof ∉ Kind.punctuation by decide)
  · exact take_scan_of_mem_punctuation hkind

end Token

namespace Grammar

/-! ## Closing angles -/

theorem mem_punctuation_of_afterAngle {k r : Token.Kind} (h : afterAngle k = some r) : k ∈ Token.Kind.punctuation := by
  unfold afterAngle at h
  split at h <;> first | decide | exact absurd h (by simp)

theorem newline_not_mem_of_afterAngle {k r : Token.Kind} (h : afterAngle k = some r) : Text.byte '\n' ∉ k.label := by
  unfold afterAngle at h
  split at h <;> first | decide | exact absurd h (by simp)

theorem label_afterAngle {k r : Token.Kind} (h : afterAngle k = some r) :
    k.label.drop 1 = r.label ∧ 1 < k.label.length := by
  unfold afterAngle at h
  split at h <;> first | (obtain rfl := Option.some.inj h; decide) | exact absurd h (by simp)

/-- May a place `j` bytes behind the start of a token become the start of a token? -/
def Inside (t : Token) (j : Nat) : Prop := j = 0 ∨ ∃ r, afterAngle t.kind = some r ∧ j < t.text.length

/-- Tokens that can be split are spelled out. -/
def Spelled (t : Token) : Prop := ∀ r, afterAngle t.kind = some r → t.text = t.kind.label

theorem Inside.before {t u : Token} {j : Nat} (hj : Inside t j) (hs : Spelled t) (hf : t.Follows u) :
    (t.span.first.right j).Before u.span.first := by
  obtain ⟨htext, w, hw⟩ := hf
  rcases hj with rfl | ⟨r, hr, hj⟩
  · rw [hw]
    exact Position.before_after _ (by simp [htext])
  · have hline : Text.byte '\n' ∉ t.text := by
      rw [hs r hr]
      exact newline_not_mem_of_afterAngle hr
    have hright := Position.before_right (p := t.span.first) hj
    rw [hw, Position.after_append, Position.after_eq_right _ hline]
    rcases Position.eq_or_before_after (t.span.first.right t.text.length) w with h | h
    · rw [h]
      exact hright
    · exact hright.trans h

/-- Places at which corresponding tokens start, or at which what is left of them can start. -/
def Places (ts ts' : List Token) (p p' : Position) : Prop :=
  ∃ (i : Nat) (t t' : Token) (j : Nat), ts[i]? = some t ∧ ts'[i]? = some t' ∧ Inside t j ∧
    p = t.span.first.right j ∧ p' = t'.span.first.right j

/-- Tokens of the same kind with the same text. -/
def SameLexeme (t t' : Token) : Prop := t.kind = t'.kind ∧ t.text = t'.text

theorem SameLexeme.inside {t t' : Token} {j : Nat} (h : SameLexeme t t') (hj : Inside t j) : Inside t' j := by
  unfold Inside at hj ⊢
  rwa [← h.1, ← h.2]

theorem SameLexeme.spelled {t t' : Token} (h : SameLexeme t t') (hs : Spelled t) : Spelled t' := by
  unfold Spelled at hs ⊢
  rwa [← h.1, ← h.2]

theorem before_of_lt {ts : List Token} (hts : ts.Pairwise Token.Follows) (hs : ∀ t ∈ ts, Spelled t) {i k : Nat}
    {t u : Token} (ht : ts[i]? = some t) (hu : ts[k]? = some u) (hik : i < k) {j l : Nat} (hj : Inside t j) :
    (t.span.first.right j).Before (u.span.first.right l) := by
  obtain ⟨hi, rfl⟩ := List.getElem?_eq_some_iff.1 ht
  obtain ⟨hk, rfl⟩ := List.getElem?_eq_some_iff.1 hu
  have hbefore := hj.before (hs _ (List.getElem_mem hi)) (List.pairwise_iff_getElem.1 hts i k hi hk hik)
  rcases Nat.eq_zero_or_pos l with rfl | hl
  · exact hbefore
  · exact hbefore.trans (Position.before_right (p := ts[k].span.first) hl)

/-- Sources whose tokens agree are aligned. -/
theorem aligned_places {ts ts' : List Token} (hts : ts.Pairwise Token.Follows) (hts' : ts'.Pairwise Token.Follows)
    (hs : ∀ t ∈ ts, Spelled t) (hsame : List.Forall₂ SameLexeme ts ts') : Aligned (Places ts ts') := by
  have hget : ∀ {i : Nat} {t t' : Token}, ts[i]? = some t → ts'[i]? = some t' → SameLexeme t t' := by
    intro i t t' ht ht'
    obtain ⟨hi, rfl⟩ := List.getElem?_eq_some_iff.1 ht
    obtain ⟨hi', rfl⟩ := List.getElem?_eq_some_iff.1 ht'
    exact hsame.get hi hi'
  have hs' : ∀ t ∈ ts', Spelled t := by
    intro t' ht'
    obtain ⟨i, hi', rfl⟩ := List.getElem_of_mem ht'
    have hi : i < ts.length := hsame.length_eq ▸ hi'
    exact (hsame.get hi hi').spelled (hs _ (List.getElem_mem hi))
  rintro p p' q q' ⟨i, t, t', j, ht, ht', hj, rfl, rfl⟩ ⟨k, u, u', l, hu, hu', hl, rfl, rfl⟩
  rcases Nat.lt_trichotomy i k with hik | rfl | hik
  · exact .inr (.inl ⟨before_of_lt hts hs ht hu hik hj, before_of_lt hts' hs' ht' hu' hik ((hget ht ht').inside hj)⟩)
  · obtain rfl := Option.some.inj (ht.symm.trans hu)
    obtain rfl := Option.some.inj (ht'.symm.trans hu')
    rcases Nat.lt_trichotomy j l with hjl | rfl | hjl
    · exact .inr (.inl ⟨Position.before_right hjl, Position.before_right hjl⟩)
    · exact .inl ⟨rfl, rfl⟩
    · exact .inr (.inr ⟨Position.before_right hjl, Position.before_right hjl⟩)
  · exact .inr (.inr ⟨before_of_lt hts hs hu ht hik hl, before_of_lt hts' hs' hu' ht' hik ((hget hu hu').inside hl)⟩)

/-! ## The frame -/

section Frame

variable (R : Position → Position → Prop)

/-- Corresponding tokens of aligned sources. -/
structure TokenTwin (t t' : Token) : Prop where
  same : SameLexeme t t'
  spelled : Spelled t
  places : ∀ j, Inside t j → R (t.span.first.right j) (t'.span.first.right j)

/-- Corresponding errors of aligned sources. -/
def ErrorTwin (e e' : SyntaxError) : Prop := e.cause.Rel (TokenTwin R) e'.cause ∧ R e.pos e'.pos

/-- Corresponding states of reading aligned sources. -/
structure StateTwin (s s' : State) : Prop where
  nonempty : s.tokens.toList ≠ []
  tokens : List.Forall₂ (TokenTwin R) s.tokens.toList s'.tokens.toList
  pos : s.pos = s'.pos
  errors : List.Forall₂ (ErrorTwin R) s.errors s'.errors

variable {R}

theorem TokenTwin.first {t t' : Token} (h : TokenTwin R t t') : R t.span.first t'.span.first := h.places 0 (.inl rfl)

/-- What is left of split tokens corresponds. -/
theorem TokenTwin.rest {t t' : Token} {k : Token.Kind} (h : TokenTwin R t t') (hk : afterAngle t.kind = some k)
    (last last' : Position) : TokenTwin R ⟨k, t.text.drop 1, ⟨t.span.first.right 1, last⟩⟩
    ⟨k, t'.text.drop 1, ⟨t'.span.first.right 1, last'⟩⟩ := by
  obtain ⟨hlabel, hlength⟩ := label_afterAngle hk
  have htext := h.spelled k hk
  refine ⟨⟨rfl, congrArg (List.drop 1) h.same.2⟩, fun r hr => ?_, fun j hj => ?_⟩
  · rw [← hlabel, ← htext]
  · dsimp only
    rw [Position.right_right, Position.right_right]
    refine h.places (1 + j) (.inr ⟨k, hk, ?_⟩)
    rcases hj with rfl | ⟨r, hr, hj⟩
    · rwa [htext]
    · rw [List.length_drop] at hj
      omega

namespace StateTwin

variable {s s' : State} (h : StateTwin R s s')

include h

theorem size_eq : s.tokens.size = s'.tokens.size := by
  rw [← Array.length_toList, ← Array.length_toList]
  exact h.tokens.length_eq

theorem getElem? (i : Nat) : Option.Rel (TokenTwin R) s.tokens[i]? s'.tokens[i]? := by
  rw [← Array.getElem?_toList, ← Array.getElem?_toList]
  exact Forall₂.getElem? h.tokens i

theorem back? : ∃ t t', s.tokens.back? = some t ∧ s'.tokens.back? = some t' ∧ TokenTwin R t t' := by
  have hlast := Forall₂.getLast? h.tokens
  rw [Array.getLast?_toList, Array.getLast?_toList] at hlast
  generalize hx : s.tokens.back? = x, s'.tokens.back? = y at hlast
  cases hlast with
  | some hab => exact ⟨_, _, rfl, rfl, hab⟩
  | none =>
    rw [← Array.getLast?_toList, List.getLast?_eq_none_iff] at hx
    exact absurd hx h.nonempty

theorem current : TokenTwin R s.current s'.current := by
  have hget := h.getElem? s.pos
  rw [State.current, State.current, ← h.pos]
  generalize s.tokens[s.pos]? = x, s'.tokens[s.pos]? = y at hget
  cases hget with
  | some hab => exact hab
  | none =>
    obtain ⟨t, t', ht, ht', hback⟩ := h.back?
    rw [ht, ht']
    exact hback

theorem ahead (n : Nat) : TokenTwin R (s.ahead n) (s'.ahead n) := by
  have hget := h.getElem? (s.pos + n)
  rw [State.ahead, State.ahead, ← h.pos]
  generalize s.tokens[s.pos + n]? = x, s'.tokens[s.pos + n]? = y at hget
  cases hget with
  | some hab => exact hab
  | none => exact h.current

theorem advance : StateTwin R s.advance s'.advance := by
  have hcond : (s.pos < s.tokens.size && s.current.kind != .eof) =
      (s'.pos < s'.tokens.size && s'.current.kind != .eof) := by
    rw [h.pos, h.size_eq, h.current.same.1]
  rw [State.advance, State.advance, hcond]
  split
  · exact ⟨h.nonempty, h.tokens, congrArg (· + 1) h.pos, h.errors⟩
  · exact h

theorem record (hR : Aligned R) {c c' : SyntaxError.Cause} {p p' : Position} (hc : c.Rel (TokenTwin R) c')
    (hp : R p p') : StateTwin R (s.record ⟨c, p⟩) (s'.record ⟨c', p'⟩) := by
  have herrors := h.errors
  rw [State.record, State.record]
  generalize s.errors = es, s'.errors = es' at herrors
  cases herrors with
  | nil => exact ⟨h.nonempty, h.tokens, h.pos, .cons ⟨hc, hp⟩ .nil⟩
  | cons he hes =>
    dsimp only
    rw [if_congr (hR.offset_eq_iff he.2 hp) rfl rfl]
    split
    · exact h
    · exact ⟨h.nonempty, h.tokens, h.pos, .cons ⟨hc, hp⟩ (.cons he hes)⟩

theorem splitCurrent {k : Token.Kind} (hk : afterAngle s.current.kind = some k) :
    StateTwin R (s.splitCurrent k) (s'.splitCurrent k) where
  nonempty := by
    rw [State.splitCurrent, Array.toList_setIfInBounds]
    simpa using h.nonempty
  tokens := by
    rw [State.splitCurrent, State.splitCurrent, Array.toList_setIfInBounds, Array.toList_setIfInBounds, ← h.pos]
    exact Forall₂.set h.tokens (h.current.rest hk _ _) s.pos
  pos := h.pos
  errors := h.errors

end StateTwin

/-- What corresponds in aligned sources. -/
def alignedFrame (hR : Aligned R) : Frame where
  position := R
  ends _ _ := True
  token := TokenTwin R
  state := StateTwin R
  kind_eq h := h.same.1
  text_eq h := h.same.2
  first h := h.first
  last _ := trivial
  current h := h.current
  ahead n h := (h.ahead n).same.1
  pos_eq h := h.pos
  remaining_eq h := by rw [State.remaining, State.remaining, h.size_eq, h.pos]
  lastEnd _ _ := trivial
  start_end _ := trivial
  advance h := h.advance
  rewind hs ht := ⟨ht.nonempty, ht.tokens, hs.pos, ht.errors⟩
  record h hc hp := h.record hR hc hp

instance (hR : Aligned R) : (alignedFrame hR).Splits := ⟨fun h hk => h.splitCurrent hk⟩

end Frame

end Grammar

end KiteCompiler
