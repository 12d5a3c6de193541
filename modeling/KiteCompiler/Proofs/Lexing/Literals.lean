import KiteCompiler.Proofs.Lexing.Lexemes

/-!
# Line ends in quoted literals

A quoted literal should end on its line. The lexer looks for the end of the line before each byte of a literal, but a
backslash takes the next byte with it without such a look. So a line end gets into a literal behind a backslash, and in
no other way (`literals_on_one_line_iff`).
-/

namespace KiteCompiler.Token

open Text (byte)

/-- The bytes that stand behind a backslash that does not itself stand behind one. -/
def escapedBytes : Text → List UInt8
  | [] => []
  | b :: rest =>
    if b == byte '\\' then
      match rest with
      | [] => []
      | c :: rest => c :: escapedBytes rest
    else escapedBytes rest

theorem escapedBytes_cons {b : UInt8} (h : ¬(b == byte '\\') = true) (rest : Text) :
    escapedBytes (b :: rest) = escapedBytes rest := by
  rw [escapedBytes.eq_def]
  exact if_neg h

theorem mem_escapedBytes_of_mem_quotedTail {quote : UInt8} (hquote : quote ≠ byte '\n') {s : Text}
    (hclosed : (quotedTail quote s).2 = true) (h : byte '\n' ∈ s.take (quotedTail quote s).1) :
    byte '\n' ∈ escapedBytes (s.take (quotedTail quote s).1) := by
  fun_induction quotedTail quote s with
  | case1 | case3 | case4 => cases hclosed
  | case2 b rest hb =>
    rw [List.take_succ_cons, List.take_zero, List.mem_singleton] at h
    exact absurd (h.trans (eq_of_beq hb)).symm hquote
  | case5 b hb hend hescape c rest n closed htail ih =>
    rw [htail] at ih
    rw [List.take_succ_cons, List.take_succ_cons] at h ⊢
    rw [escapedBytes, if_pos hescape]
    rcases List.mem_cons.1 h with rfl | h
    · exact absurd hescape (by decide)
    rcases List.mem_cons.1 h with rfl | h
    · exact .head _
    · exact .tail _ (ih hclosed h)
  | case6 b rest hb hend hescape n closed htail ih =>
    rw [htail] at ih
    rw [List.take_succ_cons] at h ⊢
    rw [escapedBytes_cons hescape]
    rcases List.mem_cons.1 h with rfl | h
    · exact absurd (by decide) hend
    · exact ih hclosed h

theorem mem_of_mem_escapedBytes {b : UInt8} {s : Text} (h : b ∈ escapedBytes s) : b ∈ s := by
  fun_induction escapedBytes s <;> grind

/-- The bytes of a literal that are line ends are escaped. -/
theorem Genuine.newline_mem_iff {k : Kind} {t : Text} (h : Genuine (k, t)) (hk : k ∈ quotedKinds.map Prod.fst) :
    byte '\n' ∈ t ↔ byte '\n' ∈ escapedBytes t := by
  have hquotes : ∀ pair ∈ quotedKinds, pair.2 ≠ byte '\n' ∧ ¬(pair.2 == byte '\\') := by decide
  refine ⟨?_, mem_of_mem_escapedBytes⟩
  obtain ⟨⟨k, quote⟩, hpair, rfl⟩ := List.mem_map.1 hk
  obtain ⟨hline, hescape⟩ := hquotes _ hpair
  obtain ⟨r, hr, rfl⟩ := h.quoted hpair
  intro hmem
  rw [escapedBytes_cons hescape]
  exact mem_escapedBytes_of_mem_quotedTail hline hr ((List.mem_cons.1 hmem).resolve_left fun heq => hline heq.symm)

/-- **No literal has a line end in it** if and only if no literal has a line end behind a backslash in it. -/
theorem literals_on_one_line_iff (source : Text) :
    (∀ t ∈ lex source, t.kind ∈ [Kind.charLiteral, .stringLiteral] → byte '\n' ∉ t.text) ↔
      ∀ t ∈ lex source, t.kind ∈ [Kind.charLiteral, .stringLiteral] → byte '\n' ∉ escapedBytes t.text := by
  have hiff : ∀ t ∈ lex source, t.kind ∈ quotedKinds.map Prod.fst →
      (byte '\n' ∈ t.text ↔ byte '\n' ∈ escapedBytes t.text) := by
    intro t ht hk
    have hkinds : ∀ k ∈ quotedKinds.map Prod.fst, k ≠ .eof := by decide
    exact ((genuine_of_mem_lexFrom ht).resolve_left (hkinds _ hk)).newline_mem_iff hk
  constructor
  · intro h t ht hk hmem
    exact h t ht hk ((hiff t ht hk).2 hmem)
  · intro h t ht hk hmem
    exact h t ht hk ((hiff t ht hk).1 hmem)

/-- A string of two lines. -/
theorem literal_on_two_lines : ∃ t ∈ lex "\"a\\\nb\"", t.kind = .stringLiteral ∧ byte '\n' ∈ t.text := by decide

end KiteCompiler.Token
