import Mathlib.Algebra.Order.BigOperators.Group.List
import Mathlib.Algebra.Order.Ring.Nat
import KiteCompiler.Proofs.Nesting.Brackets

/-!
# The text that is left

`State.unread` counts the bytes of the tokens from the current one on. Reading never makes it larger
(`Onward.unread_le`), and taking a token makes it smaller (`Onward.unread_lt`), since only the end of file is empty. So
as long as nothing has been taken, the current token is the one from which reading started (`Onward.kind_eq`).
-/

namespace KiteCompiler.Grammar

variable {α β σ : Type}

/-- The number of bytes in the tokens from the current one on. -/
def State.unread (s : State) : Nat := ((s.tokens.toList.drop s.pos).map (·.text.length)).sum

theorem State.Ready.unread_eq {s : State} (hs : s.Ready) :
    s.unread = s.current.text.length + ({ s with pos := s.pos + 1 } : State).unread := by
  rw [State.unread, State.unread, hs.drop_eq, List.map_cons, List.sum_cons]

theorem State.Ready.current_text_ne_nil {s : State} (hs : s.Ready) (heof : s.current.kind ≠ .eof) :
    s.current.text ≠ [] := by
  refine hs.text_ne_nil _ ?_ heof
  exact Array.mem_toList_iff.2 (Array.mem_of_getElem? hs.getElem?)

theorem ne_eof_of_mem_punctuation {k : Token.Kind} (h : k ∈ Token.Kind.punctuation) : k ≠ .eof := by
  rintro rfl
  exact absurd h (by decide)

/-- What is left of a token is the token itself, or its spelling is shorter. -/
theorem Remains.eq_or_shorter {k k' : Token.Kind} (h : Remains k k') :
    k' = k ∨ k ∈ Token.Kind.punctuation ∧ k' ∈ Token.Kind.punctuation ∧ k'.label.length < k.label.length := by
  have hstep : ∀ k k', afterAngle k = some k' →
      k ∈ Token.Kind.punctuation ∧ k' ∈ Token.Kind.punctuation ∧ k'.label.length < k.label.length := by
    intro k k' h
    unfold afterAngle at h
    split at h <;> cases h <;> decide
  induction h with
  | refl => exact .inl rfl
  | tail _ hsplit ih =>
    obtain ⟨hmid, hk', hlt⟩ := hstep _ _ hsplit
    rcases ih with rfl | ⟨hk, -, hlt'⟩
    · exact .inr ⟨hmid, hk', hlt⟩
    · exact .inr ⟨hk, hk', hlt.trans hlt'⟩

namespace Onward

variable {s s' : State}

/-- No token gets longer. -/
theorem lengths_le (h : Onward s s') :
    List.Forall₂ (· ≤ ·) (s'.tokens.toList.map (·.text.length)) (s.tokens.toList.map (·.text.length)) := by
  have hsize : s'.tokens.toList.length = s.tokens.toList.length := h.size
  refine List.forall₂_iff_get.2 ⟨by rw [List.length_map, List.length_map, hsize], fun i hi' hi => ?_⟩
  rw [List.length_map] at hi hi'
  simp only [List.get_eq_getElem, List.getElem_map, Array.getElem_toList]
  exact (h.texts i _ _ (Array.getElem?_eq_getElem hi) (Array.getElem?_eq_getElem hi')).length_le

/-- Only the tokens matter for what has become of them. -/
theorem unread_le_at (h : Onward s s') (n : Nat) :
    ({ s' with pos := n } : State).unread ≤ ({ s with pos := n } : State).unread := by
  rw [State.unread, State.unread, List.map_drop, List.map_drop]
  exact (List.forall₂_drop n h.lengths_le).sum_le_sum

/-- What is left at a later place. -/
theorem unread_le_from (h : Onward s s') {n : Nat} (hn : n ≤ s'.pos) :
    s'.unread ≤ ({ s with pos := n } : State).unread := by
  obtain ⟨d, hd⟩ := Nat.exists_eq_add_of_le hn
  have hsublist : (List.drop s'.pos (s.tokens.toList.map (·.text.length))).Sublist
      (List.drop n (s.tokens.toList.map (·.text.length))) := by
    rw [hd, ← List.drop_drop]
    exact List.drop_sublist d _
  refine (h.unread_le_at s'.pos).trans ?_
  rw [State.unread, State.unread, List.map_drop, List.map_drop]
  exact hsublist.sum_le_sum fun _ _ => Nat.zero_le _

theorem unread_le (h : Onward s s') : s'.unread ≤ s.unread := h.unread_le_from h.pos

theorem unread_lt (h : Onward s s') (hs : s.Ready) (hpos : s.pos < s'.pos) : s'.unread < s.unread := by
  have heof : s.current.kind ≠ .eof := by
    intro heof
    have hlast := hs.eof_iff_current.1 heof
    have hlt := (h.ready hs).pos_lt
    have hsize := h.size
    omega
  have htext := List.length_pos_of_ne_nil (hs.current_text_ne_nil heof)
  have hle : s'.unread ≤ ({ s with pos := s.pos + 1 } : State).unread := h.unread_le_from hpos
  rw [hs.unread_eq]
  omega

/-- Where no text has been taken, the current token is still the one at which reading started. -/
theorem kind_eq (h : Onward s s') (hs : s.Ready) (hunread : s'.unread = s.unread) :
    s'.current.kind = s.current.kind := by
  have hs' := h.ready hs
  have hpos : s'.pos = s.pos := by
    by_contra hne
    have hlt := h.unread_lt hs (Nat.lt_of_le_of_ne h.pos (Ne.symm hne))
    omega
  have hrest : ({ s' with pos := s'.pos + 1 } : State).unread ≤ ({ s with pos := s.pos + 1 } : State).unread :=
    hpos ▸ h.unread_le_at (s'.pos + 1)
  have hlength : s.current.text.length ≤ s'.current.text.length := by
    rw [hs.unread_eq, hs'.unread_eq] at hunread
    omega
  rcases (h.remains_current hs hpos).eq_or_shorter with hkind | ⟨hkind, hkind', hlt⟩
  · exact hkind
  · rw [(hs.genuine_current (ne_eof_of_mem_punctuation hkind)).punctuation hkind,
      (hs'.genuine_current (ne_eof_of_mem_punctuation hkind')).punctuation hkind'] at hlength
    omega

end Onward

/-! ## Taking tokens -/

/-- Tokens with the property `C` are not the end of file. -/
class Real (C : Token.Kind → Bool) : Prop where
  ne_eof {k : Token.Kind} (h : C k = true) : k ≠ .eof

/-- What is left of a token with the property `C` has it as well. -/
class Lasting (C : Token.Kind → Bool) : Prop where
  remains {k k' : Token.Kind} (h : Remains k k') (hk : C k = true) : C k' = true

/-- Is this a token that is never split, and not the end of file? -/
abbrev isUnsplit : Token.Kind → Bool
  | .eof | .shiftRight | .shiftRightUnsigned | .greaterEqual | .shiftRightAssign | .shiftRightUnsignedAssign => false
  | _ => true

theorem ne_eof_of_isUnsplit {k : Token.Kind} (h : isUnsplit k = true) : k ≠ .eof := by
  rintro rfl
  exact absurd h (by decide)

theorem Remains.eq_of_isUnsplit {k k' : Token.Kind} (h : Remains k k') (hk : isUnsplit k = true) : k' = k := by
  refine h.eq ?_
  revert hk
  cases k <;> decide

/-- Kinds of which all are never split. -/
class Unsplit (ks : List Token.Kind) : Prop where
  isUnsplit {k : Token.Kind} (h : k ∈ ks) : isUnsplit k = true

namespace Unsplit

instance nil : Unsplit [] := ⟨fun h => absurd h List.not_mem_nil⟩

instance cons (k : Token.Kind) (ks : List Token.Kind) [hk : Holds (Grammar.isUnsplit k)] [hks : Unsplit ks] :
    Unsplit (k :: ks) :=
  ⟨fun h => (List.mem_cons.1 h).elim (fun h => h ▸ hk.eq_true) hks.isUnsplit⟩

instance real (ks : List Token.Kind) [h : Unsplit ks] : Real (oneOf ks) :=
  ⟨fun hk => ne_eof_of_isUnsplit (h.isUnsplit (List.contains_iff_mem.1 hk))⟩

instance lasting (ks : List Token.Kind) [h : Unsplit ks] : Lasting (oneOf ks) :=
  ⟨fun hremains hk => hremains.eq_of_isUnsplit (h.isUnsplit (List.contains_iff_mem.1 hk)) ▸ hk⟩

end Unsplit

theorem isUnsplit_of_isName {k : Token.Kind} (h : k.isName = true) : isUnsplit k = true := by
  revert h
  cases k <;> decide

theorem isUnsplit_of_isModifier {k : Token.Kind} (h : k.isModifier = true) : isUnsplit k = true := by
  revert h
  cases k <;> decide

instance : Lasting anything := ⟨fun _ _ => rfl⟩

instance : Real Token.Kind.isName := ⟨fun h => ne_eof_of_isUnsplit (isUnsplit_of_isName h)⟩

instance : Lasting Token.Kind.isName := ⟨fun hremains h => hremains.eq_of_isUnsplit (isUnsplit_of_isName h) ▸ h⟩

instance : Real Token.Kind.isModifier := ⟨fun h => ne_eof_of_isUnsplit (isUnsplit_of_isModifier h)⟩

instance : Lasting Token.Kind.isModifier := ⟨fun hremains h => hremains.eq_of_isUnsplit (isUnsplit_of_isModifier h) ▸ h⟩

/-- Started at a token with the property `C`, the reader takes a token. -/
class Takes (C : Token.Kind → Bool) (p : Parser α) : Prop where
  moves {s : State} (hs : s.Ready) (hC : C s.current.kind = true) : Moves p s

namespace Takes

variable {C C' : Token.Kind → Bool}

instance skip [hC : Real C] : Takes C skip := ⟨fun hs h => moves_skip hs (hC.ne_eof h)⟩

instance next [hC : Real C] : Takes C next := ⟨fun hs h => moves_skip hs (hC.ne_eof h)⟩

instance leaf (kind : Cst.Kind) [hC : Real C] : Takes C (leaf kind) := ⟨fun hs h => moves_leaf hs (hC.ne_eof h)⟩

instance expect (k : Token.Kind) [hk : Real (oneOf [k])] : Takes (oneOf [k]) (expect k) := by
  refine ⟨fun hs h => ?_⟩
  have hcurrent := List.mem_singleton.1 (List.contains_iff_mem.1 h)
  exact moves_expect hs hcurrent (hcurrent ▸ hk.ne_eof h)

theorem moves_identifier {s : State} (hs : s.Ready) (h : s.current.kind.isName = true) : Moves identifier s := by
  refine Moves.behind (p := checkName) rfl ?_
  change Moves (if s.current.kind.isName = true then _ else _) s
  rw [if_pos h]
  exact moves_leaf hs (Real.ne_eof h)

instance identifier : Takes Token.Kind.isName identifier := ⟨moves_identifier⟩

instance bind {p : Parser α} {f : α → Parser β} [hp : Takes C p] [∀ a, Forward (f a)] : Takes C (p >>= f) :=
  ⟨fun hs h => (hp.moves hs h).bind⟩

/-- As long as nothing has been taken, the token is the same, or what is left of it. -/
theorem after {p : Parser α} {f : α → Parser β} [hp : Forward p] [hforward : ∀ a, Forward (f a)] [hC : Lasting C]
    (hf : ∀ a, Takes C (f a)) : Takes C (p >>= f) := by
  refine ⟨fun {s} hs h => ?_⟩
  have honward := hp.onward s
  rcases Nat.lt_or_eq_of_le honward.pos with hlt | heq
  · exact Moves.bind hlt
  · exact Moves.after ((hf _).moves (honward.ready hs) (hC.remains (honward.remains_current hs heq.symm) h))

/-- A question is no step. -/
theorem behind {p : Parser α} {f : α → Parser β} (hp : ∀ s, (p s).2 = s) (hf : ∀ a, Takes C (f a)) :
    Takes C (p >>= f) :=
  ⟨fun hs h => Moves.behind (hp _) ((hf _).moves hs h)⟩

instance afterwards {p : Parser α} {f : α → Parser β} [Forward p] [∀ a, Forward (f a)] [Lasting C]
    [hf : ∀ a, Takes C (f a)] : Takes C (p >>= f) := after hf

instance node (kind : Cst.Kind) {p : Parser (List Cst)} [hp : Takes C p] : Takes C (node kind p) := ⟨hp.moves⟩

end Takes

end KiteCompiler.Grammar
