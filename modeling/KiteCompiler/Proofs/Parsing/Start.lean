import KiteCompiler.Proofs.Lexing.Tiling
import KiteCompiler.Proofs.Parsing.ErrorNodes

/-!
# The state before and behind reading

Reading starts in a state that is `Ready`: the lexer puts the end of file behind all other tokens (`lex_eq_append`), and
the parser keeps it there (`initial_ready`). Each token that the lexer could not make sense of has an error at its place
already then (`error_of_invalid`).
-/

namespace KiteCompiler

namespace Grammar

/-! ## The state before reading -/

/-- The tokens that reading goes over: no layout, and nothing that the lexer could not make sense of. -/
def good (tokens : List Token) : List Token := (tokens.filter (!·.kind.isLayout)).filter (! ·.kind == .error)

section

variable (tokens : List Token)

theorem initial_eq : initial tokens =
    ((tokens.filter (!·.kind.isLayout)).filter (·.kind == .error)).foldl
      (fun s t => s.record ⟨.invalidToken t, t.span.first⟩) { tokens := (good tokens).toArray } := by
  rw [initial, List.partition_eq_filter_filter]
  rfl

theorem onward_recordAll (bad : List Token) (s : State) :
    Onward s (bad.foldl (fun s t => s.record ⟨.invalidToken t, t.span.first⟩) s) := by
  induction bad generalizing s with
  | nil => exact .refl s
  | cons t bad ih => exact (Onward.record s _).trans (ih _)

/-- What records errors only leaves tokens and place alone. -/
theorem recordAll_eq (bad : List Token) (s : State) :
    ∃ errors, bad.foldl (fun s t => s.record ⟨.invalidToken t, t.span.first⟩) s = { s with errors } := by
  induction bad generalizing s with
  | nil => exact ⟨s.errors, rfl⟩
  | cons t bad ih =>
    obtain ⟨errors, h⟩ := ih (s.record ⟨.invalidToken t, t.span.first⟩)
    refine ⟨errors, h.trans ?_⟩
    rw [State.tokens_record, State.pos_record]

@[simp] theorem tokens_initial : (initial tokens).tokens = (good tokens).toArray := by
  obtain ⟨errors, h⟩ := recordAll_eq ((tokens.filter (!·.kind.isLayout)).filter (·.kind == .error))
    { tokens := (good tokens).toArray }
  rw [initial_eq, h]

@[simp] theorem pos_initial : (initial tokens).pos = 0 := by
  obtain ⟨errors, h⟩ := recordAll_eq ((tokens.filter (!·.kind.isLayout)).filter (·.kind == .error))
    { tokens := (good tokens).toArray }
  rw [initial_eq, h]

variable {tokens}

/-- An invalid token has an error at its place. -/
theorem error_of_invalid {t : Token} (ht : t ∈ tokens) (hkind : t.kind = .error) :
    ∃ e ∈ (initial tokens).errors, e.pos.offset = t.span.first.offset := by
  rw [initial_eq]
  have hbad : t ∈ (tokens.filter (!·.kind.isLayout)).filter (·.kind == .error) := by
    simp [ht, hkind, Token.Kind.isLayout]
  generalize (tokens.filter (!·.kind.isLayout)).filter (·.kind == .error) = bad at hbad
  generalize ({ tokens := (good tokens).toArray } : State) = s
  induction bad generalizing s with
  | nil => exact nomatch hbad
  | cons u bad ih =>
    rcases List.mem_cons.1 hbad with rfl | hbad
    · obtain ⟨e, he, hoffset⟩ := s.exists_mem_record ⟨.invalidToken t, t.span.first⟩
      exact ⟨e, (onward_recordAll bad _).errors.subset he, hoffset⟩
    · exact ih hbad _

end

theorem initial_ready (source : Text) : (initial (Token.lex source)).Ready := by
  obtain ⟨ts, e, hlex, he, hts⟩ := Token.lex_eq_append source
  have hgood : good (Token.lex source) = good ts ++ [e] := by simp [good, hlex, he, Token.Kind.isLayout]
  have hmem : ∀ t ∈ good ts, t ∈ ts := fun t ht => (List.mem_filter.1 (List.mem_filter.1 ht).1).1
  have hlexed : ∀ t ∈ (initial (Token.lex source)).tokens.toList, t ∈ Token.lex source := by
    intro t ht
    rw [tokens_initial, List.toList_toArray] at ht
    exact (List.mem_filter.1 (List.mem_filter.1 ht).1).1
  refine ⟨by simp [hgood], fun i t ht => ?_, fun t ht heof => ?_, fun t ht heof => ?_⟩
  · rw [tokens_initial, hgood, List.getElem?_toArray] at ht
    rw [tokens_initial, hgood, List.size_toArray, List.length_append, List.length_singleton]
    rcases Nat.lt_or_ge i (good ts).length with hi | hi
    · rw [List.getElem?_append_left hi] at ht
      exact ⟨fun h => absurd h (hts t (hmem t (List.mem_of_getElem? ht))), fun h => by omega⟩
    · obtain ⟨hlt, -⟩ := List.getElem?_eq_some_iff.1 ht
      rw [List.length_append, List.length_singleton] at hlt
      have hlast : i = (good ts).length := by omega
      subst hlast
      rw [List.getElem?_concat_length, Option.some.injEq] at ht
      exact ⟨fun _ => rfl, fun _ => ht ▸ he⟩
  · exact (Token.genuine_of_mem_lexFrom (hlexed t ht)).resolve_left heof
  · exact ((Token.text_ne_nil_of_mem_lexFrom (hlexed t ht)).resolve_left fun h => heof h.1).2

/-! ## The state behind reading -/

/-- How deep the productions of a source may be nested. -/
def depth (source : Text) : Nat :=
  productionsPerByte * (((good (Token.lex source)).map (·.text.length)).foldl Nat.add 0 + 1)

/-- The tree that is read, and the state behind it. -/
def run (start : Rules → Parser Cst) (source : Text) : Cst × State :=
  start (rulesUpTo (depth source)) (initial (Token.lex source))

variable (start : Rules → Parser Cst) (source : Text)

theorem parse_eq_run : parse start source =
    { tree := (run start source).1
      errors := (run start source).2.errors.reverse.mergeSort fun a b => a.pos.offset ≤ b.pos.offset
      comments := (Token.lex source).filter fun t => t.kind == .comment || t.kind == .lineComment } := by
  have htokens : good (Token.lex source) = (initial (Token.lex source)).tokens.toList := by
    rw [tokens_initial, List.toList_toArray]
  rw [run, depth, htokens]
  rfl

theorem tree_parse : (parse start source).tree = (run start source).1 := by rw [parse_eq_run]

theorem mem_errors_parse (e : SyntaxError) : e ∈ (parse start source).errors ↔ e ∈ (run start source).2.errors := by
  rw [parse_eq_run, List.mem_mergeSort, List.mem_reverse]

theorem errors_parse_nil : (parse start source).errors = [] ↔ (run start source).2.errors = [] := by
  simp only [List.eq_nil_iff_forall_not_mem, mem_errors_parse]

section

variable [∀ depth, Forward (start (rulesUpTo depth))]

theorem onward_run : Onward (initial (Token.lex source)) (run start source).2 := Forward.onward _

theorem ready_run : (run start source).2.Ready := (onward_run start source).ready (initial_ready source)

variable {start source}

omit [∀ depth, Forward (start (rulesUpTo depth))] in
/-- The law holds of all nodes of what is read without errors. -/
theorem every_parse {L : NodeLaw} [hstart : ∀ depth, Keeps L (start (rulesUpTo depth))]
    (hs : L.Start (initial (Token.lex source))) (h : (parse start source).errors = []) :
    (parse start source).tree.Every L.Holds := by
  rw [tree_parse]
  have herrors : (run start source).2.errors ⊆ L.errors := by
    rw [(errors_parse_nil start source).1 h]
    exact List.nil_subset _
  exact ((hstart _).obeys _ hs herrors).tree

end

end Grammar

end KiteCompiler
