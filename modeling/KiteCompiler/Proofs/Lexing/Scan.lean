import KiteCompiler.Token.Lexer

/-!
# The token in front of a text

`scan` always takes at least one byte (`scan_pos`), and what it takes as punctuation is the spelling of that
punctuation (`take_scan_of_mem_punctuation`).
-/

namespace KiteCompiler

namespace Rune

theorem width_first_pos (b : UInt8) (rest : Text) : 0 < (first (b :: rest)).width := by
  unfold first
  split
  · exact absurd ‹_› (by simp)
  · repeat' first | exact Nat.succ_pos _ | split | dsimp only

/-- Induction on a text, rune by rune. -/
theorem induction {P : Text → Prop} (nil : P []) (cons : ∀ b t, P ((b :: t).drop (first (b :: t)).width) → P (b :: t))
    (s : Text) : P s := by
  induction hlength : s.length using Nat.strongRecOn generalizing s with
  | ind length ih =>
    cases s with
    | nil => exact nil
    | cons b t =>
      have hpos := width_first_pos b t
      refine cons b t (ih _ ?_ _ rfl)
      rw [← hlength, List.length_drop, List.length_cons]
      omega

end Rune

namespace Position

theorem after_append (p : Position) (t u : Text) : p.after (t ++ u) = (p.after t).after u := List.foldl_append

end Position

namespace Token

open Text (byte)

variable {s : Text}

@[simp] theorem peek_cons_zero (b : UInt8) (rest : Text) : peek (b :: rest) 0 = b := rfl

@[simp] theorem peek_cons_succ (b : UInt8) (rest : Text) (i : Nat) : peek (b :: rest) (i + 1) = peek rest i := rfl

/-! ## At least one byte -/

theorem continuesName_of_startsName (h : startsName s = true) : continuesName s = true := by
  cases s with
  | nil => exact h
  | cons b rest =>
    rw [continuesName, h]
    split
    · rfl
    · rename_i hb
      rw [startsName, if_neg hb] at h
      rw [h, Bool.true_or]

theorem nameLength_pos (h : startsName s = true) : 0 < nameLength 0 s := by
  cases s with
  | nil => exact absurd h (by decide)
  | cons b rest =>
    rw [nameLength, if_pos (continuesName_of_startsName h)]
    omega

theorem digitRun_cons_pos {p : UInt8 → Bool} {b : UInt8} (rest : Text) (h : p b = true) :
    0 < digitRun p (b :: rest) := by
  simp [digitRun, h]

/-- The length of a decimal number without its exponent and suffix. -/
def mantissaLength (s : Text) : Nat :=
  let whole := digitRun isDigit s
  whole +
    if peek s whole == byte '.' && fractionFollows (peek s (whole + 1)) then 1 + digitRun isDigit (s.drop (whole + 1))
    else 0

theorem mantissaLength_le (s : Text) : mantissaLength s ≤ (scanDecimal s).2 := by
  unfold mantissaLength scanDecimal
  dsimp only
  generalize (if peek s (digitRun isDigit s) == byte '.' && fractionFollows (peek s (digitRun isDigit s + 1)) then
    1 + digitRun isDigit (s.drop (digitRun isDigit s + 1)) else 0) = fraction
  repeat' split
  all_goals dsimp only
  all_goals omega

theorem mantissaLength_pos {b : UInt8} {rest : Text}
    (h : isDigit b || (b == byte '.' && isDigit (peek (b :: rest) 1))) : 0 < mantissaLength (b :: rest) := by
  unfold mantissaLength
  by_cases hd : isDigit b
  · exact Nat.add_pos_left (digitRun_cons_pos rest hd) _
  · simp only [hd, Bool.false_or, Bool.and_eq_true] at h
    obtain ⟨hb, hnext⟩ := h
    have hrun : digitRun isDigit (b :: rest) = 0 := by
      rw [eq_of_beq hb]
      rfl
    have hfraction : fractionFollows (peek (b :: rest) 1) = true := by
      rw [fractionFollows, if_pos hnext]
    dsimp only
    rw [hrun, if_pos (by rw [peek_cons_zero, hb, hfraction]; rfl)]
    omega

theorem scanNumber_pos {b : UInt8} {rest : Text} (h : isDigit b || (b == byte '.' && isDigit (peek (b :: rest) 1))) :
    0 < (scanNumber (b :: rest)).2 := by
  unfold scanNumber
  split
  · unfold scanHex
    dsimp only
    repeat' split
    all_goals dsimp only
    all_goals omega
  split
  · unfold scanBinary
    dsimp only
    split <;> omega
  · exact Nat.lt_of_lt_of_le (mantissaLength_pos h) (mantissaLength_le _)

theorem scanPunctuation_pos (b : UInt8) (rest : Text) : 0 < (scanPunctuation (b :: rest)).2 := by
  have hspelled : ∀ entry ∈ Kind.punctuationSpellings, 0 < entry.2.length := by decide
  unfold scanPunctuation
  split
  · exact hspelled _ (List.mem_of_find?_eq_some ‹_›)
  · exact Rune.width_first_pos b rest

/-- A token has at least one byte. -/
theorem scan_pos (b : UInt8) (rest : Text) : 0 < (scan (b :: rest)).2 := by
  unfold scan
  dsimp only
  split
  · omega
  split
  · split
    · omega
    · exact Nat.succ_pos _
  split
  · rename_i hspace
    simp only [peek_cons_zero] at hspace
    simp [hspace]
  split
  · exact nameLength_pos ‹_›
  split
  · exact scanNumber_pos ‹_›
  split
  · exact Nat.succ_pos _
  split
  · exact Nat.succ_pos _
  · exact scanPunctuation_pos b rest

/-! ## Punctuation -/

theorem ofWord_not_mem_punctuation (t : Text) : Kind.ofWord t ∉ Kind.punctuation := by
  have hwords : ∀ entry ∈ Kind.wordSpellings, entry.1 ∉ Kind.punctuation := by decide
  unfold Kind.ofWord
  split
  · exact hwords _ (List.mem_of_find?_eq_some ‹_›)
  · decide

theorem scanNumber_kind (s : Text) : (scanNumber s).1 = .intLiteral ∨ (scanNumber s).1 = .floatLiteral := by
  unfold scanNumber scanHex scanBinary scanDecimal
  dsimp only
  repeat' split
  all_goals first | exact .inl rfl | exact .inr rfl

theorem scanNumber_not_mem_punctuation (s : Text) : (scanNumber s).1 ∉ Kind.punctuation := by
  rcases scanNumber_kind s with h | h <;> rw [h] <;> decide

theorem scanQuoted_not_mem_punctuation {quote : UInt8} {kind : Kind} (hkind : kind ∉ Kind.punctuation) (s : Text) :
    (scanQuoted quote kind s).1 ∉ Kind.punctuation := by
  unfold scanQuoted
  dsimp only
  split
  · exact hkind
  · decide

theorem take_scanPunctuation (h : (scanPunctuation s).1 ∈ Kind.punctuation) :
    s.take (scanPunctuation s).2 = (scanPunctuation s).1.label := by
  have hlabel : ∀ entry ∈ Kind.punctuationSpellings, entry.2 = entry.1.label := by decide
  unfold scanPunctuation at h ⊢
  split
  · rename_i kind spelling hfind
    have hprefix := List.find?_some hfind
    rw [List.isPrefixOf_iff_prefix] at hprefix
    rw [← hlabel _ (List.mem_of_find?_eq_some hfind)]
    exact (List.prefix_iff_eq_take.1 hprefix).symm
  · rename_i hfind
    rw [hfind] at h
    exact absurd (show Kind.error ∈ Kind.punctuation from h) (by decide)

/-- What is read as punctuation is its spelling. -/
theorem take_scan_of_mem_punctuation (h : (scan s).1 ∈ Kind.punctuation) : s.take (scan s).2 = (scan s).1.label := by
  have hlayout : ∀ k ∈ [Kind.lineComment, .comment, .whitespace, .error], k ∉ Kind.punctuation := by decide
  revert h
  unfold scan
  dsimp only
  split
  · exact fun h => absurd h (hlayout .lineComment (by decide))
  split
  · split
    · exact fun h => absurd h (hlayout .comment (by decide))
    · exact fun h => absurd h (hlayout .error (by decide))
  split
  · exact fun h => absurd h (hlayout .whitespace (by decide))
  split
  · exact fun h => absurd h (ofWord_not_mem_punctuation _)
  split
  · exact fun h => absurd h (scanNumber_not_mem_punctuation s)
  split
  · exact fun h => absurd h (scanQuoted_not_mem_punctuation (by decide) s)
  split
  · exact fun h => absurd h (scanQuoted_not_mem_punctuation (by decide) s)
  · exact take_scanPunctuation

/-! ## Whole sources -/

/-- The token in front of a text, standing at `p`. -/
def front (p : Position) (s : Text) : Token :=
  ⟨(scan s).1, s.take (scan s).2, ⟨p, p.after (s.take (scan s).2)⟩⟩

theorem lexFrom_nil (fuel : Nat) (p : Position) : lexFrom fuel p [] = [⟨.eof, [], ⟨p, p⟩⟩] := by
  cases fuel <;> rfl

theorem lexFrom_cons (fuel : Nat) (p : Position) (b : UInt8) (rest : Text) :
    lexFrom (fuel + 1) p (b :: rest) =
      front p (b :: rest) :: lexFrom fuel (front p (b :: rest)).span.last ((b :: rest).drop (scan (b :: rest)).2) := rfl

/-- A token is the end of file or in front of a text, and bytes of the source are before it. -/
theorem mem_lexFrom {fuel : Nat} {p : Position} {s : Text} {t : Token} (h : t ∈ lexFrom fuel p s) :
    ∃ before, t = ⟨.eof, [], ⟨p.after before, p.after before⟩⟩ ∨ ∃ b rest, t = front (p.after before) (b :: rest) := by
  induction fuel generalizing p s with
  | zero => exact ⟨[], .inl (List.mem_singleton.1 h)⟩
  | succ fuel ih =>
    cases s with
    | nil => exact ⟨[], .inl (List.mem_singleton.1 h)⟩
    | cons b rest =>
      rw [lexFrom_cons] at h
      rcases List.mem_cons.1 h with rfl | h
      · exact ⟨[], .inr ⟨b, rest, rfl⟩⟩
      · obtain ⟨before, ht⟩ := ih h
        refine ⟨(front p (b :: rest)).text ++ before, ?_⟩
        rw [Position.after_append]
        exact ht

theorem front_text_ne_nil (p : Position) (b : UInt8) (rest : Text) : (front p (b :: rest)).text ≠ [] := by
  obtain ⟨n, hn⟩ := Nat.exists_eq_succ_of_ne_zero (Nat.ne_of_gt (scan_pos b rest))
  rw [front, hn]
  exact List.cons_ne_nil _ _

end Token

end KiteCompiler
