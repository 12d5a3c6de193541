import KiteCompiler.Proofs.Lexing.Lexemes
import KiteCompiler.Proofs.Parallel.Alignment

/-!
# What is left to be read

A state is `Ready` if its last token, and only that one, is the end of file, and the others come from the lexer and are
not empty. What is left to be read is then a list of lexemes, the `input`; taking a token and splitting one are
operations on it.
-/

namespace KiteCompiler

open Token (Lexeme Genuine)

namespace Grammar

/-- A sequence whose first part has been run. -/
theorem bind_run {α β : Type} {p : Parser α} {f : α → Parser β} {a : α} {s s' : State} (h : p s = (a, s')) :
    (p >>= f) s = f a s' := by
  change f (p s).1 (p s).2 = _
  rw [h]

/-- The kind of the first lexeme, end of file if there is none. -/
def headKind : List Lexeme → Token.Kind
  | [] => .eof
  | l :: _ => l.1

namespace State

/-- The tokens from the current one on, without the end of file. -/
def input (s : State) : List Lexeme := (s.tokens.toList.drop s.pos).dropLast.map Token.lexeme

/-- The end of file is the last token, which has not been passed, and no other one. -/
structure Ready (s : State) : Prop where
  pos_lt : s.pos < s.tokens.size
  eof_iff : ∀ i t, s.tokens[i]? = some t → (t.kind = .eof ↔ i + 1 = s.tokens.size)
  genuine : ∀ t ∈ s.tokens.toList, t.kind ≠ .eof → Genuine t.lexeme
  text_ne_nil : ∀ t ∈ s.tokens.toList, t.kind ≠ .eof → t.text ≠ []

/-! ## The current token -/

section

variable {s : State}

theorem Ready.getElem? (h : s.Ready) : s.tokens[s.pos]? = some s.current := by
  rw [State.current, Array.getElem?_eq_getElem h.pos_lt]

theorem Ready.eof_iff_current (h : s.Ready) : s.current.kind = .eof ↔ s.pos + 1 = s.tokens.size :=
  h.eof_iff _ _ h.getElem?

theorem Ready.drop_eq (h : s.Ready) : s.tokens.toList.drop s.pos = s.current :: s.tokens.toList.drop (s.pos + 1) := by
  have hlt : s.pos < s.tokens.toList.length := h.pos_lt
  rw [List.drop_eq_getElem_cons hlt]
  have hcurrent := h.getElem?
  rw [Array.getElem?_eq_getElem h.pos_lt, Option.some.injEq] at hcurrent
  rw [← hcurrent, Array.getElem_toList]

theorem Ready.input_eq (h : s.Ready) : s.input =
    if s.current.kind = .eof then [] else s.current.lexeme :: ({ s with pos := s.pos + 1 } : State).input := by
  rw [input, h.drop_eq]
  split
  · rename_i heof
    rw [List.drop_eq_nil_of_le (Nat.le_of_eq (h.eof_iff_current.1 heof).symm)]
    rfl
  · rename_i heof
    have hlt : s.pos + 1 < s.tokens.toList.length :=
      Nat.lt_of_le_of_ne h.pos_lt fun hlast => heof (h.eof_iff_current.2 hlast)
    have hne : s.tokens.toList.drop (s.pos + 1) ≠ [] := by
      rw [ne_eq, List.drop_eq_nil_iff]
      omega
    rw [List.dropLast_cons_of_ne_nil hne]
    rfl

theorem Ready.input_nil_iff (h : s.Ready) : s.input = [] ↔ s.current.kind = .eof := by
  rw [h.input_eq]
  split
  · simp_all
  · simp_all

theorem Ready.headKind_input (h : s.Ready) : headKind s.input = s.current.kind := by
  rw [h.input_eq]
  split
  · next heof => exact heof.symm
  · rfl

theorem Ready.genuine_current (h : s.Ready) (heof : s.current.kind ≠ .eof) : Genuine s.current.lexeme := by
  refine h.genuine _ ?_ heof
  have hmem := h.getElem?
  exact Array.mem_toList_iff.2 (Array.mem_of_getElem? hmem)

theorem Ready.length_input (h : s.Ready) : s.input.length + 1 = s.remaining := by
  have hlt := h.pos_lt
  simp only [input, remaining, List.length_map, List.length_dropLast, List.length_drop, Array.length_toList]
  omega

/-- Going to another place among the tokens. -/
theorem Ready.moved (h : s.Ready) {pos : Nat} (hpos : pos < s.tokens.size) : ({ s with pos } : State).Ready :=
  ⟨hpos, h.eof_iff, h.genuine, h.text_ne_nil⟩

/-! ## Taking tokens -/

theorem Ready.advance_eq (h : s.Ready) :
    s.advance = if s.current.kind = .eof then s else { s with pos := s.pos + 1 } := by
  have hlt := h.pos_lt
  unfold advance
  split <;> simp_all

theorem Ready.advance (h : s.Ready) : s.advance.Ready := by
  rw [h.advance_eq]
  split
  · exact h
  · rename_i heof
    have hlt := h.pos_lt
    exact h.moved (Nat.lt_of_le_of_ne hlt fun hlast => heof (h.eof_iff_current.2 hlast))

theorem Ready.input_advance (h : s.Ready) : s.advance.input = s.input.tail := by
  rw [h.advance_eq, h.input_eq]
  split
  · rename_i heof
    rw [h.input_nil_iff.2 heof]
    rfl
  · rfl

theorem Ready.input_cons (h : s.Ready) (heof : s.current.kind ≠ .eof) :
    s.input = s.current.lexeme :: s.advance.input := by
  rw [h.input_advance, h.input_eq, if_neg heof]
  rfl

@[simp] theorem tokens_advance (s : State) : s.advance.tokens = s.tokens := by
  unfold advance
  split <;> rfl

@[simp] theorem errors_advance (s : State) : s.advance.errors = s.errors := by
  unfold advance
  split <;> rfl

theorem Ready.ahead_one (h : s.Ready) : (s.ahead 1).kind = headKind s.input.tail := by
  rw [ahead]
  cases hnext : s.tokens[s.pos + 1]? with
  | none =>
    have hlast : s.current.kind = .eof := by
      have hle := Array.getElem?_eq_none_iff.1 hnext
      have hlt := h.pos_lt
      exact h.eof_iff_current.2 (by omega)
    rw [h.input_nil_iff.2 hlast]
    exact hlast
  | some t =>
    have hlt : s.pos + 1 < s.tokens.size := (Array.getElem?_eq_some_iff.1 hnext).1
    have hlast : s.current.kind ≠ .eof := fun heof => by
      have := h.eof_iff_current.1 heof
      omega
    have hmoved := h.moved hlt
    have hcurrent : ({ s with pos := s.pos + 1 } : State).current = t := by
      have := hmoved.getElem?
      rw [hnext] at this
      exact (Option.some.inj this).symm
    rw [h.input_eq, if_neg hlast, List.tail_cons, hmoved.headKind_input, hcurrent]
    rfl

/-! ## Errors -/

@[simp] theorem tokens_record (s : State) (e : SyntaxError) : (s.record e).tokens = s.tokens := by
  unfold record
  repeat' split
  all_goals rfl

@[simp] theorem pos_record (s : State) (e : SyntaxError) : (s.record e).pos = s.pos := by
  unfold record
  repeat' split
  all_goals rfl

@[simp] theorem current_record (s : State) (e : SyntaxError) : (s.record e).current = s.current := by
  simp only [current, tokens_record, pos_record]

theorem errors_record_ne_nil (s : State) (e : SyntaxError) : (s.record e).errors ≠ [] := by
  unfold record
  repeat' split
  · rename_i h _
    rw [h]
    exact List.cons_ne_nil _ _
  · exact List.cons_ne_nil _ _
  · exact List.cons_ne_nil _ _

theorem errors_suffix_record (s : State) (e : SyntaxError) : s.errors <:+ (s.record e).errors := by
  unfold record
  repeat' split
  · rename_i h _
    exact List.suffix_refl _
  · exact List.suffix_cons _ _
  · rename_i h
    rw [h]
    exact List.nil_suffix

/-! ## Closing angles -/

theorem genuine_afterAngle {k k' : Token.Kind} (h : afterAngle k = some k') : Genuine (k', k'.label) := by
  have hkind : k' ∈ [Token.Kind.greater, .shiftRight, .assign, .greaterEqual, .shiftRightAssign] := by
    unfold afterAngle at h
    split at h <;> cases h <;> decide
  have hscan : ∀ k ∈ [Token.Kind.greater, .shiftRight, .assign, .greaterEqual, .shiftRightAssign],
      (k, k.label) = ((Token.scan k.label).1, k.label.take (Token.scan k.label).2) := by decide +kernel
  exact ⟨_, hscan k' hkind⟩

theorem label_ne_nil_of_afterAngle {k k' : Token.Kind} (h : afterAngle k = some k') : k'.label ≠ [] := by
  unfold afterAngle at h
  split at h <;> cases h <;> decide

theorem afterAngle_ne_eof {k k' : Token.Kind} (h : afterAngle k = some k') : k ≠ .eof ∧ k' ≠ .eof := by
  unfold afterAngle at h
  split at h <;> cases h <;> decide

@[simp] theorem size_splitCurrent (s : State) (k : Token.Kind) : (s.splitCurrent k).tokens.size = s.tokens.size :=
  Array.size_setIfInBounds

theorem Ready.current_splitCurrent (h : s.Ready) (k : Token.Kind) :
    (s.splitCurrent k).current.lexeme = (k, s.current.text.drop 1) := by
  have hget : (s.splitCurrent k).tokens[(s.splitCurrent k).pos]? = some _ :=
    Array.getElem?_setIfInBounds_self_of_lt h.pos_lt
  rw [State.current, hget]
  rfl

theorem Ready.splitCurrent (h : s.Ready) {k : Token.Kind} (hk : afterAngle s.current.kind = some k) :
    (s.splitCurrent k).Ready := by
  obtain ⟨hcurrent, hrest⟩ := afterAngle_ne_eof hk
  have hdrop : s.current.text.drop 1 = k.label := by
    rw [(h.genuine_current hcurrent).punctuation (mem_punctuation_of_afterAngle hk), (label_afterAngle hk).1]
  have hgenuine : Genuine (k, s.current.text.drop 1) := hdrop ▸ genuine_afterAngle hk
  have hrest_ne_nil : s.current.text.drop 1 ≠ [] := hdrop ▸ label_ne_nil_of_afterAngle hk
  have hset : (s.splitCurrent k).tokens.toList = s.tokens.toList.set s.pos _ := Array.toList_setIfInBounds
  refine ⟨by simpa [State.splitCurrent] using h.pos_lt, fun i t ht => ?_, fun t ht heof => ?_, fun t ht heof => ?_⟩
  · rw [size_splitCurrent]
    by_cases hi : i = s.pos
    · subst hi
      have hget : (s.splitCurrent k).tokens[s.pos]? = some _ := Array.getElem?_setIfInBounds_self_of_lt h.pos_lt
      rw [hget, Option.some.injEq] at ht
      subst ht
      exact ⟨fun heof => absurd heof hrest, fun hlast => absurd (h.eof_iff_current.2 hlast) hcurrent⟩
    · have hget : (s.splitCurrent k).tokens[i]? = s.tokens[i]? := Array.getElem?_setIfInBounds_ne (Ne.symm hi)
      rw [hget] at ht
      exact h.eof_iff i t ht
  · rw [hset] at ht
    rcases List.mem_or_eq_of_mem_set ht with ht | rfl
    · exact h.genuine t ht heof
    · exact hgenuine
  · rw [hset] at ht
    rcases List.mem_or_eq_of_mem_set ht with ht | rfl
    · exact h.text_ne_nil t ht heof
    · exact hrest_ne_nil

theorem Ready.input_splitCurrent (h : s.Ready) {k : Token.Kind} (hk : afterAngle s.current.kind = some k) :
    (s.splitCurrent k).input = (k, s.current.text.drop 1) :: s.input.tail := by
  obtain ⟨hcurrent, hrest⟩ := afterAngle_ne_eof hk
  have hready := h.splitCurrent hk
  have hlexeme := h.current_splitCurrent k
  have hkind : (s.splitCurrent k).current.kind = k := congrArg Prod.fst hlexeme
  have hset : (s.splitCurrent k).tokens.toList = s.tokens.toList.set s.pos _ := Array.toList_setIfInBounds
  have hdrop : (s.splitCurrent k).tokens.toList.drop (s.pos + 1) = s.tokens.toList.drop (s.pos + 1) := by
    rw [hset, List.drop_set_of_lt (Nat.lt_succ_self _)]
  rw [hready.input_eq, if_neg (by rw [hkind]; exact hrest), hlexeme, h.input_eq, if_neg hcurrent, List.tail_cons]
  congr 1
  exact congrArg (fun ts => (List.dropLast ts).map Token.lexeme) hdrop

end

end State

end Grammar

end KiteCompiler
