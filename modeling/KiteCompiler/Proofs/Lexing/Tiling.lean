import KiteCompiler.Proofs.Lexing.Lexemes
import Mathlib.Data.List.Chain
import Mathlib.Data.List.Induction

/-!
# Tokens tile the source

The lexer divides a source without loss: the texts of its tokens, put one behind the other, are the source
(`flatMap_text_lexFrom`), and each token stands where the texts before it end (`span_of_lexFrom_eq`). Lines and columns
are in step with offsets, since moving on over a text and counting in it give the same place (`start_after`).
-/

namespace KiteCompiler

open Text (byte)

namespace Position

/-- The place behind the first `n` bytes of a source: the line is counted by the line ends before it, the column from
the last of them on. -/
def inSource (source : Text) (n : Nat) : Position :=
  ⟨n, 1 + (source.take n).count (byte '\n'), (Text.afterLast (byte '\n') (source.take n)).length⟩

theorem length_afterLast_concat (separator : UInt8) (t : Text) (b : UInt8) :
    (Text.afterLast separator (t ++ [b])).length =
      if b = separator then 0 else (Text.afterLast separator t).length + 1 := by
  by_cases h : b = separator <;> simp [Text.afterLast, h]

/-- Moving on byte by byte comes to the place that counting gives. -/
theorem start_after (t : Text) : start.after t = inSource t t.length := by
  induction t using List.reverseRecOn with
  | nil => rfl
  | append_singleton t b ih =>
    rw [after_append, ih, inSource, inSource, List.take_length, List.take_length, List.count_append,
      length_afterLast_concat, List.length_append]
    change next _ b = _
    by_cases h : b = byte '\n'
    · simp [next, h, Nat.add_assoc]
    · simp [next, h]

theorem inSource_append (t u : Text) : inSource (t ++ u) t.length = start.after t := by
  rw [start_after, inSource, inSource, List.take_left, List.take_length]

end Position

namespace Token

/-! ## Texts -/

theorem length_drop_scan_lt (b : UInt8) (rest : Text) :
    ((b :: rest).drop (scan (b :: rest)).2).length < (b :: rest).length := by
  have := scan_pos b rest
  rw [List.length_drop, List.length_cons]
  omega

/-- The texts of the tokens are the source, if there is fuel for every byte. -/
theorem flatMap_text_lexFrom {fuel : Nat} {p : Position} {s : Text} (h : s.length ≤ fuel) :
    (lexFrom fuel p s).flatMap text = s := by
  induction fuel generalizing p s with
  | zero =>
    rw [List.length_eq_zero_iff.1 (Nat.le_zero.1 h)]
    rfl
  | succ fuel ih =>
    cases s with
    | nil => rfl
    | cons b rest =>
      have hlt := length_drop_scan_lt b rest
      rw [lexFrom_cons, List.flatMap_cons, ih (by omega)]
      exact List.take_append_drop _ _

theorem text_ne_nil_of_mem_lexFrom {fuel : Nat} {p : Position} {s : Text} {t : Token} (h : t ∈ lexFrom fuel p s) :
    t.kind = .eof ∧ t.text = [] ∨ t.kind ≠ .eof ∧ t.text ≠ [] := by
  obtain ⟨before, rfl | ⟨b, rest, rfl⟩⟩ := mem_lexFrom h
  · exact .inl ⟨rfl, rfl⟩
  · exact .inr ⟨scan_ne_eof _, front_text_ne_nil _ b rest⟩

/-! ## Places -/

/-- A token stands behind the texts of the tokens before it, and ends behind its own. -/
theorem span_of_lexFrom_eq {fuel : Nat} {p : Position} {s : Text} {before after : List Token} {t : Token}
    (h : lexFrom fuel p s = before ++ t :: after) :
    t.span.first = p.after (before.flatMap text) ∧ t.span.last = p.after (before.flatMap text ++ t.text) := by
  induction fuel generalizing p s before with
  | zero =>
    obtain ⟨rfl, ht⟩ := List.append_eq_singleton_iff.1 h.symm |>.resolve_right (by simp)
    obtain ⟨rfl, -⟩ := List.cons.inj ht
    exact ⟨rfl, rfl⟩
  | succ fuel ih =>
    cases s with
    | nil =>
      rw [lexFrom_nil] at h
      obtain ⟨rfl, ht⟩ := List.append_eq_singleton_iff.1 h.symm |>.resolve_right (by simp)
      obtain ⟨rfl, -⟩ := List.cons.inj ht
      exact ⟨rfl, rfl⟩
    | cons b rest =>
      rw [lexFrom_cons] at h
      cases before with
      | nil =>
        obtain ⟨rfl, -⟩ := List.cons.inj h
        exact ⟨rfl, rfl⟩
      | cons u before =>
        obtain ⟨rfl, htail⟩ := List.cons.inj h
        obtain ⟨hfirst, hlast⟩ := ih htail
        rw [hfirst, hlast, List.flatMap_cons, List.append_assoc]
        exact ⟨(Position.after_append ..).symm, (Position.after_append ..).symm⟩

/-! ## The tiling -/

/-- Tokens that make up a source without gap or overlap, the end of file being the last one. -/
structure Tiles (source : Text) (tokens : List Token) : Prop where
  /-- Only the last token is the end of file, and only that one is empty. -/
  ends : ∃ body e, tokens = body ++ [e] ∧ (e.kind = .eof ∧ e.text = []) ∧ ∀ t ∈ body, t.kind ≠ .eof ∧ t.text ≠ []
  /-- No byte is lost. -/
  texts : tokens.flatMap text = source
  /-- A token starts where the one before it ends. -/
  abut : tokens.IsChain fun t u => t.span.last = u.span.first
  /-- A token starts behind the bytes before it and ends behind its own ones, lines and columns being counted from the
  start of the source. -/
  places : ∀ before t after, tokens = before ++ t :: after →
    t.span.first = .inSource source (before.flatMap text).length ∧
      t.span.last = .inSource source ((before.flatMap text).length + t.text.length)

theorem isChain_lex (source : Text) : (lex source).IsChain fun t u => t.span.last = u.span.first := by
  refine List.isChain_iff_forall_rel_of_append_cons_cons.2 fun t u before after h => ?_
  have hu : lex source = (before ++ [t]) ++ u :: after := by rw [h, List.append_assoc]; rfl
  rw [(span_of_lexFrom_eq h).2, (span_of_lexFrom_eq hu).1, List.flatMap_append, List.flatMap_singleton]

theorem places_lex {source : Text} {before after : List Token} {t : Token} (h : lex source = before ++ t :: after) :
    t.span.first = .inSource source (before.flatMap text).length ∧
      t.span.last = .inSource source ((before.flatMap text).length + t.text.length) := by
  obtain ⟨hfirst, hlast⟩ := span_of_lexFrom_eq h
  have htexts : source = before.flatMap text ++ (t.text ++ after.flatMap text) := by
    have hsource : (lex source).flatMap text = source := flatMap_text_lexFrom (Nat.le_refl _)
    rw [← List.flatMap_cons, ← List.flatMap_append, ← h, hsource]
  constructor
  · rw [hfirst, ← Position.inSource_append _ (t.text ++ after.flatMap text), ← htexts]
  · rw [hlast, ← Position.inSource_append _ (after.flatMap text), List.append_assoc, ← htexts, List.length_append]

/-- The tokens of every source tile it. -/
theorem tiles_lex (source : Text) : Tiles source (lex source) where
  ends := by
    obtain ⟨body, e, hlex, he, hbody⟩ := lex_eq_append source
    have hmem : ∀ t ∈ body ++ [e], t.kind = .eof ∧ t.text = [] ∨ t.kind ≠ .eof ∧ t.text ≠ [] := fun t ht =>
      text_ne_nil_of_mem_lexFrom (hlex ▸ ht)
    refine ⟨body, e, hlex, ?_, fun t ht => ?_⟩
    · exact (hmem e (by simp)).resolve_right fun h => h.1 he
    · exact (hmem t (by simp [ht])).resolve_left fun h => hbody t ht h.1
  texts := flatMap_text_lexFrom (Nat.le_refl _)
  abut := isChain_lex source
  places _ _ _ h := places_lex h

end Token

end KiteCompiler
