import KiteCompiler.Proofs.Lexing.Scan

/-!
# Lexemes

What a token is without its place. The lexer makes only `Genuine` lexemes: their kind is what `scan` finds in front of
some text, and their bytes are those that it takes. So words and punctuation are spelled by their kind (`Genuine.word`,
`Genuine.punctuation`), and quoted literals are closed (`Genuine.quoted`).
-/

namespace KiteCompiler.Token

open Text (byte)

/-- A token without its place. -/
abbrev Lexeme := Kind × Text

/-- Kind and text of a token. -/
def lexeme (t : Token) : Lexeme := (t.kind, t.text)

/-- The tokens of a source that are no layout. -/
def significant (source : Text) : List Token := (lex source).filter (!·.kind.isLayout)

/-- What a source consists of besides its layout. -/
def lexemes (source : Text) : List Lexeme := (significant source).map lexeme

/-! ## The ways of scanning -/

/-- What `scan` finds, by the part of the lexer that finds it. -/
inductive Scanned (s : Text) : Kind × Nat → Prop
  | layout {k : Kind} {n : Nat} (h : k ∈ [Kind.lineComment, .comment, .whitespace, .error]) : Scanned s (k, n)
  | word (h : startsName s = true) : Scanned s (Kind.ofWord (s.take (nameLength 0 s)), nameLength 0 s)
  | number (h : (isDigit (peek s 0) || (peek s 0 == byte '.' && isDigit (peek s 1))) = true) : Scanned s (scanNumber s)
  | char (h : peek s 0 = byte '\'') : Scanned s (scanQuoted (byte '\'') .charLiteral s)
  | string (h : peek s 0 = byte '"') : Scanned s (scanQuoted (byte '"') .stringLiteral s)
  | punctuation : Scanned s (scanPunctuation s)

theorem scanned (s : Text) : Scanned s (scan s) := by
  unfold scan
  dsimp only
  split
  · exact .layout (by decide)
  split
  · split
    · exact .layout (by decide)
    · exact .layout (by decide)
  split
  · exact .layout (by decide)
  split
  · exact .word ‹_›
  split
  · exact .number ‹_›
  split
  · rename_i hquote
    rw [eq_of_beq hquote]
    exact .char (eq_of_beq hquote)
  split
  · rename_i hquote
    rw [eq_of_beq hquote]
    exact .string (eq_of_beq hquote)
  · exact .punctuation

/-! ## Genuine lexemes -/

/-- A lexeme that is found in front of some text. -/
def Genuine (l : Lexeme) : Prop := ∃ s, l = ((scan s).1, s.take (scan s).2)

theorem genuine_of_mem_lexFrom {fuel : Nat} {p : Position} {s : Text} {t : Token} (h : t ∈ lexFrom fuel p s) :
    t.kind = .eof ∨ Genuine t.lexeme := by
  obtain ⟨before, rfl | ⟨b, rest, rfl⟩⟩ := mem_lexFrom h
  · exact .inl rfl
  · exact .inr ⟨b :: rest, rfl⟩

theorem ofWord_eq {t : Text} {k : Kind} (h : Kind.ofWord t = k) : k = .identifier ∨ k ∈ Kind.words ∧ t = k.label := by
  unfold Kind.ofWord at h
  split at h
  · rename_i entry hfind
    obtain ⟨k', hk', rfl⟩ := List.mem_map.1 (List.mem_of_find?_eq_some hfind)
    have ht := List.find?_some hfind
    subst h
    exact .inr ⟨hk', (eq_of_beq ht).symm⟩
  · exact .inl h.symm

theorem scanQuoted_kind (quote : UInt8) (kind : Kind) (s : Text) :
    (scanQuoted quote kind s).1 = kind ∨ (scanQuoted quote kind s).1 = .error := by
  unfold scanQuoted
  dsimp only
  split
  · exact .inl rfl
  · exact .inr rfl

theorem scanPunctuation_kind (s : Text) :
    (scanPunctuation s).1 ∈ Kind.punctuation ∨ (scanPunctuation s).1 = .error := by
  unfold scanPunctuation
  split
  · rename_i kind spelling hfind
    obtain ⟨k, hk, heq⟩ := List.mem_map.1 (List.mem_of_find?_eq_some hfind)
    cases heq
    exact .inl hk
  · exact .inr rfl

theorem quotedTail_closed {quote : UInt8} {s : Text} (h : (quotedTail quote s).2 = true) :
    0 < (quotedTail quote s).1 ∧ (quotedTail quote s).1 ≤ s.length := by
  fun_induction quotedTail quote s <;> simp_all

/-- A quoted literal goes from its quote to where its tail ends. -/
theorem take_scanQuoted {quote : UInt8} {k : Kind} {s : Text} (hs : peek s 0 = quote) (hquote : quote ≠ 0)
    (h : (scanQuoted quote k s).1 ≠ .error) :
    ∃ r, (quotedTail quote r).2 = true ∧ s.take (scanQuoted quote k s).2 = quote :: r.take (quotedTail quote r).1 := by
  cases s with
  | nil => exact absurd hs.symm hquote
  | cons b r =>
    rw [peek_cons_zero] at hs
    subst hs
    refine ⟨r, ?_, rfl⟩
    cases hclosed : (quotedTail b r).2 with
    | false => exact absurd (by simp [scanQuoted, hclosed]) h
    | true => rfl

/-- The kinds of quoted literals, each with its quote. -/
def quotedKinds : List (Kind × UInt8) := [(.charLiteral, byte '\''), (.stringLiteral, byte '"')]

/-- What is known of the bytes of a lexeme from its kind. -/
inductive Spelled : Kind → Text → Prop
  | layout {k : Kind} {t : Text} (h : k ∈ [Kind.lineComment, .comment, .whitespace, .error]) : Spelled k t
  | identifier {t : Text} : Spelled .identifier t
  | word {k : Kind} (h : k ∈ Kind.words) : Spelled k k.label
  | number {k : Kind} {t : Text} (h : k ∈ [Kind.intLiteral, .floatLiteral]) : Spelled k t
  | quoted {k : Kind} {quote : UInt8} {r : Text} (h : (k, quote) ∈ quotedKinds) (hr : (quotedTail quote r).2 = true) :
    Spelled k (quote :: r.take (quotedTail quote r).1)
  | punctuation {k : Kind} (h : k ∈ Kind.punctuation) : Spelled k k.label

theorem spelled_scanQuoted {quote : UInt8} {k : Kind} {s : Text} (hk : (k, quote) ∈ quotedKinds)
    (hs : peek s 0 = quote) : Spelled (scanQuoted quote k s).1 (s.take (scanQuoted quote k s).2) := by
  have hkinds : ∀ pair ∈ quotedKinds, pair.1 ≠ .error ∧ pair.2 ≠ 0 := by decide
  obtain ⟨herror, hquote⟩ := hkinds _ hk
  rcases scanQuoted_kind quote k s with h | h
  · obtain ⟨r, hr, htake⟩ := take_scanQuoted hs hquote (h ▸ herror)
    rw [htake, h]
    exact .quoted hk hr
  · rw [h]
    exact .layout (by decide)

theorem Genuine.spelled {k : Kind} {t : Text} (h : Genuine (k, t)) : Spelled k t := by
  obtain ⟨s, hs⟩ := h
  have hscan := scanned s
  generalize scan s = r at hs hscan
  obtain ⟨rfl, rfl⟩ := Prod.mk.inj hs
  cases hscan with
  | layout h => exact .layout h
  | word =>
    dsimp only
    generalize s.take (nameLength 0 s) = t
    generalize hk : Kind.ofWord t = k
    rcases ofWord_eq hk with rfl | ⟨hmem, rfl⟩
    · exact .identifier
    · exact .word hmem
  | number =>
    rcases scanNumber_kind s with h | h
    all_goals exact .number (by rw [h]; decide)
  | char h => exact spelled_scanQuoted (by decide) h
  | string h => exact spelled_scanQuoted (by decide) h
  | punctuation =>
    rcases scanPunctuation_kind s with h | h
    · rw [take_scanPunctuation h]
      exact .punctuation h
    · rw [h]
      exact .layout (by decide)

/-- A word is spelled by its kind. -/
theorem Genuine.word {k : Kind} {t : Text} (h : Genuine (k, t)) (hk : k ∈ Kind.words) : t = k.label := by
  have hlayout : ∀ k ∈ [Kind.lineComment, .comment, .whitespace, .error], k ∉ Kind.words := by decide
  have hnumber : ∀ k ∈ [Kind.intLiteral, .floatLiteral], k ∉ Kind.words := by decide
  have hquoted : ∀ pair ∈ quotedKinds, pair.1 ∉ Kind.words := by decide
  cases h.spelled with
  | layout h => exact absurd hk (hlayout k h)
  | identifier => exact absurd hk (by decide)
  | word => rfl
  | number h => exact absurd hk (hnumber k h)
  | quoted hspelled => exact absurd hk (hquoted _ hspelled)
  | punctuation => rfl

/-- Punctuation is spelled by its kind. -/
theorem Genuine.punctuation {k : Kind} {t : Text} (h : Genuine (k, t)) (hk : k ∈ Kind.punctuation) : t = k.label := by
  obtain ⟨s, hs⟩ := h
  obtain ⟨rfl, rfl⟩ := Prod.mk.inj hs
  exact take_scan_of_mem_punctuation hk

/-- A quoted literal goes from its quote to where its tail ends. -/
theorem Genuine.quoted {k : Kind} {t : Text} (h : Genuine (k, t)) {quote : UInt8} (hk : (k, quote) ∈ quotedKinds) :
    ∃ r, (quotedTail quote r).2 = true ∧ t = quote :: r.take (quotedTail quote r).1 := by
  have hkinds : ∀ pair ∈ quotedKinds, (∀ other ∈ quotedKinds, pair.1 = other.1 → pair = other) ∧
      pair.1 ∉ [Kind.lineComment, .comment, .whitespace, .error] ∧ pair.1 ≠ .identifier ∧ pair.1 ∉ Kind.words ∧
      pair.1 ∉ [Kind.intLiteral, .floatLiteral] ∧ pair.1 ∉ Kind.punctuation := by decide +kernel
  obtain ⟨hsame, hlayout, hname, hwords, hnumber, hpunctuation⟩ := hkinds _ hk
  cases h.spelled with
  | layout h => exact absurd h hlayout
  | identifier => exact absurd rfl hname
  | word hspelled => exact absurd hspelled hwords
  | number h => exact absurd h hnumber
  | @quoted _ quote' r hspelled hr =>
    obtain rfl : quote = quote' := (Prod.mk.inj (hsame _ hspelled rfl)).2
    exact ⟨r, hr, rfl⟩
  | punctuation hspelled => exact absurd hspelled hpunctuation

theorem Genuine.two_le_length {k : Kind} {t : Text} (h : Genuine (k, t)) (hk : k ∈ quotedKinds.map Prod.fst) :
    2 ≤ t.length := by
  obtain ⟨⟨k, quote⟩, hpair, rfl⟩ := List.mem_map.1 hk
  obtain ⟨r, hr, rfl⟩ := h.quoted hpair
  have hlength := quotedTail_closed hr
  rw [List.length_cons, List.length_take]
  omega

/-! ## The end of file -/

theorem scan_ne_eof (s : Text) : (scan s).1 ≠ .eof := by
  intro heof
  have hscan := scanned s
  generalize scan s = r at hscan heof
  cases hscan with
  | layout h =>
    have hlayout : ∀ k ∈ [Kind.lineComment, .comment, .whitespace, .error], k ≠ .eof := by decide
    exact hlayout _ h heof
  | word =>
    have hwords : ∀ k ∈ Kind.words, k ≠ .eof := by decide
    rcases ofWord_eq heof with h | ⟨h, -⟩
    · exact absurd h (by decide)
    · exact hwords _ h rfl
  | number => rcases scanNumber_kind s with h | h <;> exact absurd (h.symm.trans heof) (by decide)
  | char => rcases scanQuoted_kind _ _ s with h | h <;> exact absurd (h.symm.trans heof) (by decide)
  | string => rcases scanQuoted_kind _ _ s with h | h <;> exact absurd (h.symm.trans heof) (by decide)
  | punctuation =>
    have hpunctuation : ∀ k ∈ Kind.punctuation, k ≠ .eof := by decide
    rcases scanPunctuation_kind s with h | h
    · exact hpunctuation _ h heof
    · exact absurd (h.symm.trans heof) (by decide)

/-- The end of file is the last token, and no other one is. -/
theorem lexFrom_eq_append (fuel : Nat) (p : Position) (s : Text) :
    ∃ ts e, lexFrom fuel p s = ts ++ [e] ∧ e.kind = .eof ∧ ∀ t ∈ ts, t.kind ≠ .eof := by
  induction fuel generalizing p s with
  | zero => exact ⟨[], _, rfl, rfl, fun _ h => nomatch h⟩
  | succ fuel ih =>
    cases s with
    | nil => exact ⟨[], _, lexFrom_nil _ _, rfl, fun _ h => nomatch h⟩
    | cons b rest =>
      obtain ⟨ts, e, hlex, he, hts⟩ := ih (front p (b :: rest)).span.last ((b :: rest).drop (scan (b :: rest)).2)
      refine ⟨front p (b :: rest) :: ts, e, by rw [lexFrom_cons, hlex]; rfl, he, ?_⟩
      exact List.forall_mem_cons.2 ⟨scan_ne_eof _, hts⟩

theorem lex_eq_append (source : Text) : ∃ ts e, lex source = ts ++ [e] ∧ e.kind = .eof ∧ ∀ t ∈ ts, t.kind ≠ .eof :=
  lexFrom_eq_append _ _ _

end KiteCompiler.Token
