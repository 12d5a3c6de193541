import KiteCompiler.Proofs.Lexing.Rescan
import KiteCompiler.Proofs.Lexing.Tiling

/-!
# Tokens start at borders of runes

The lexer does not decode the bytes of comments and literals, and it looks for a backslash or a quote anywhere, also
inside of what a decoder would read as one rune. Still no rune reaches over the start of a token, wherever decoding
begins (`border_of_lexFrom_eq`): a token ends at the end of a rune, behind a byte of ASCII, or before a byte that is no
continuation.
-/

namespace KiteCompiler

open Text (byte)

namespace Rune

/-- No rune that starts before byte `n` reaches over it. -/
def Border (s : Text) (n : Nat) : Prop := ∀ k < n, k + (first (s.drop k)).width ≤ n

variable {s : Text} {m n : Nat}

/-! ## Bytes of a rune -/

theorem first_of_ascii {a : UInt8} (h : a < 0x80) (s : Text) : first (a :: s) = ⟨a.toNat, 1⟩ := by simp [first, h]

theorem width_first_of_continuation {a : UInt8} (h : isContinuation a = true) (s : Text) :
    (first (a :: s)).width = 1 := by
  have hranges : ∀ a, isContinuation a = true →
      ¬a < 0x80 ∧ (0xC2 ≤ a && a ≤ 0xDF) = false ∧ (0xE0 ≤ a && a ≤ 0xEF) = false ∧ (0xF0 ≤ a && a ≤ 0xF4) = false :=
    Token.forall_byte (by decide +kernel)
  obtain ⟨hascii, htwo, hthree, hfour⟩ := hranges a h
  simp only [first, hascii, htwo, hthree, hfour, Bool.false_eq_true, if_false, invalid]

theorem not_continuation_of_ascii {a : UInt8} (h : a < 0x80) : isContinuation a = false := by
  rw [isContinuation, decide_eq_false (UInt8.not_le.2 h), Bool.false_and]

/-- The second byte of a rune is a continuation, also where the first one leaves it fewer values. -/
theorem continuation_of_bounds {a b lead lead' low high : UInt8}
    (h : ((if a = lead then low else 0x80) ≤ b && b ≤ if a = lead' then high else 0xBF) = true)
    (hlow : 0x80 ≤ low := by decide) (hhigh : high ≤ 0xBF := by decide) : isContinuation b = true := by
  rw [Bool.and_eq_true, decide_eq_true_eq, decide_eq_true_eq] at h
  have hleast : 0x80 ≤ if a = lead then low else 0x80 := by split; exacts [hlow, UInt8.le_refl _]
  have hmost : (if a = lead' then high else 0xBF) ≤ 0xBF := by split; exacts [hhigh, UInt8.le_refl _]
  rw [isContinuation, decide_eq_true (UInt8.le_trans hleast h.1), decide_eq_true (UInt8.le_trans h.2 hmost),
    Bool.true_and]

/-- A rune is a byte and the continuations of it. -/
theorem exists_continuations (a : UInt8) (s : Text) :
    ∃ t r, s = t ++ r ∧ (first (a :: s)).width = t.length + 1 ∧ ∀ b ∈ t, isContinuation b = true := by
  have hnone : ∀ b ∈ ([] : Text), isContinuation b = true := fun _ hb => absurd hb List.not_mem_nil
  have htest {test : Bool} {x : Rune} (t r : Text) (hx : x.width = t.length + 1)
      (ht : test = true → ∀ b ∈ t, isContinuation b = true) : ∃ t' r', t ++ r = t' ++ r' ∧
        (if test then x else invalid).width = t'.length + 1 ∧ ∀ b ∈ t', isContinuation b = true := by
    cases test with
    | false => exact ⟨[], t ++ r, rfl, rfl, hnone⟩
    | true => exact ⟨t, r, rfl, hx, ht rfl⟩
  unfold first
  dsimp only
  split
  · exact ⟨[], s, rfl, rfl, hnone⟩
  split
  · rcases s with _ | ⟨b, s⟩
    · exact ⟨[], [], rfl, rfl, hnone⟩
    · exact htest [b] s rfl fun h => List.forall_mem_singleton.2 h
  split
  · rcases s with _ | ⟨b, _ | ⟨c, s⟩⟩
    · exact ⟨[], [], rfl, rfl, hnone⟩
    · exact ⟨[], [b], rfl, rfl, hnone⟩
    refine htest [b, c] s rfl fun h => ?_
    obtain ⟨hb, hc⟩ := (Bool.and_eq_true _ _).mp h
    simpa using ⟨continuation_of_bounds hb, hc⟩
  split
  · rcases s with _ | ⟨b, _ | ⟨c, _ | ⟨d, s⟩⟩⟩
    · exact ⟨[], [], rfl, rfl, hnone⟩
    · exact ⟨[], [b], rfl, rfl, hnone⟩
    · exact ⟨[], [b, c], rfl, rfl, hnone⟩
    refine htest [b, c, d] s rfl fun h => ?_
    obtain ⟨h, hd⟩ := (Bool.and_eq_true _ _).mp h
    obtain ⟨hb, hc⟩ := (Bool.and_eq_true _ _).mp h
    simpa using ⟨continuation_of_bounds hb, hc, hd⟩
  · exact ⟨[], s, rfl, rfl, hnone⟩

theorem continuation_of_lt_width {k : Nat} (hpos : 0 < k) (hlt : k < (first s).width) :
    ∃ b, s[k]? = some b ∧ isContinuation b = true := by
  cases s with
  | nil => exact absurd hlt (Nat.not_lt_zero k)
  | cons a s =>
    obtain ⟨t, r, rfl, hwidth, ht⟩ := exists_continuations a s
    obtain ⟨k, rfl⟩ := Nat.exists_eq_succ_of_ne_zero (Nat.ne_of_gt hpos)
    have hk : k < t.length := by omega
    refine ⟨t[k], ?_, ht _ (List.getElem_mem hk)⟩
    rw [List.getElem?_cons_succ, List.getElem?_append_left hk, List.getElem?_eq_getElem hk]

/-! ## Borders -/

theorem border_zero (s : Text) : Border s 0 := fun k hk => absurd hk (Nat.not_lt_zero k)

theorem border_of_length_le (h : s.length ≤ n) : Border s n := by
  intro k hk
  have := width_first_le (s.drop k)
  rw [List.length_drop] at this
  omega

/-- No rune reaches over the start of a byte that is no continuation. -/
theorem border_of_not_continuation (h : ∀ b ∈ s[n]?, isContinuation b = false) : Border s n := by
  intro k hk
  refine Nat.le_of_not_lt fun hlt => ?_
  obtain ⟨b, hb, hcontinuation⟩ := continuation_of_lt_width (s := s.drop k) (k := n - k) (by omega) (by omega)
  rw [List.getElem?_drop, show k + (n - k) = n by omega] at hb
  rw [h b hb] at hcontinuation
  cases hcontinuation

theorem Border.add (hm : Border s m) (hn : Border (s.drop m) n) : Border s (m + n) := by
  intro k hk
  rcases Nat.lt_or_ge k m with hlt | hge
  · exact Nat.le_trans (hm k hlt) (Nat.le_add_right m n)
  · have := hn (k - m) (by omega)
    rw [List.drop_drop, show m + (k - m) = k by omega] at this
    omega

/-- No rune reaches over the end of another one. -/
theorem border_width (s : Text) : Border s (first s).width := by
  intro k hk
  rcases Nat.eq_zero_or_pos k with rfl | hpos
  · rw [List.drop_zero, Nat.zero_add]
  · obtain ⟨b, hb, hcontinuation⟩ := continuation_of_lt_width hpos hk
    obtain ⟨hlt, rfl⟩ := List.getElem?_eq_some_iff.1 hb
    rw [List.drop_eq_getElem_cons hlt, width_first_of_continuation hcontinuation]
    exact hk

/-- No rune reaches over the end of a byte of ASCII. -/
theorem border_succ (h : ∀ b ∈ s[n]?, b < 0x80) : Border s (n + 1) := by
  refine (border_of_not_continuation fun b hb => not_continuation_of_ascii (h b hb)).add ?_
  rcases hs : s.drop n with _ | ⟨b, r⟩
  · exact border_of_length_le (Nat.zero_le 1)
  · have hb : b < 0x80 := h b (by rw [← List.head?_drop, hs]; rfl)
    have := border_width (b :: r)
    rwa [first_of_ascii hb] at this

theorem border_of_ascii (h : ∀ b ∈ s.take n, b < 0x80) : Border s n := by
  cases n with
  | zero => exact border_zero s
  | succ n =>
    refine border_succ fun b hb => h b ?_
    obtain ⟨hlt, rfl⟩ := List.getElem?_eq_some_iff.1 hb
    exact List.mem_take_iff_getElem.2 ⟨n, by omega, rfl⟩

end Rune

namespace Token

open Rune (Border border_of_length_le border_of_not_continuation border_width border_succ border_of_ascii
  not_continuation_of_ascii)

variable {s : Text} {n : Nat}

/-! ## Tokens -/

theorem border_peek (h : peek s n < 0x80) : Border s (n + 1) := by
  refine border_succ fun b hb => ?_
  rwa [peek, List.getD_eq_getElem?_getD, hb] at h

theorem border_takeWhile {p : UInt8 → Bool} (hp : ∀ b, p b = true → b < 0x80) : Border s (s.takeWhile p).length := by
  refine border_of_ascii fun b hb => hp b ?_
  rw [← List.prefix_iff_eq_take.1 (List.takeWhile_prefix p)] at hb
  exact List.all_eq_true.1 List.all_takeWhile b hb

theorem border_scanNumber (s : Text) : Border s (scanNumber s).2 := by
  rcases scanNumber_ends s with h | ⟨i, -, hascii, h⟩ <;> rw [h]
  · exact Rune.border_zero s
  · exact border_peek hascii

theorem nameLength_skip {skip : Nat} (h : skip ≤ s.length) : nameLength skip s = skip + nameLength 0 (s.drop skip) := by
  induction s generalizing skip with
  | nil =>
    obtain rfl : skip = 0 := Nat.le_zero.1 h
    rfl
  | cons b s ih =>
    cases skip with
    | zero => rw [List.drop_zero, Nat.zero_add]
    | succ skip =>
      rw [nameLength, ih (Nat.le_of_succ_le_succ h), List.drop_succ_cons]
      omega

/-- A name consists of whole runes. -/
theorem border_nameLength (s : Text) : Border s (nameLength 0 s) := by
  induction s using Rune.induction with
  | nil => exact Rune.border_zero _
  | cons b r ih =>
    rw [nameLength]
    split
    · have hpos := Rune.width_first_pos b r
      have hle := Rune.width_first_le (b :: r)
      rw [List.length_cons] at hle
      rw [nameLength_skip (by omega)]
      have hborder := (border_width (b :: r)).add ih
      rwa [show (Rune.first (b :: r)).width = ((Rune.first (b :: r)).width - 1) + 1 by omega, List.drop_succ_cons,
        Nat.add_right_comm, Nat.add_comm] at hborder
    · exact Rune.border_zero _

theorem blockCommentEnd?_eq (h : blockCommentEnd? s = some n) : ∃ m, n = m + 1 ∧ s[m]? = some (byte '/') := by
  induction s generalizing n with
  | nil => cases h
  | cons a s ih =>
    rw [blockCommentEnd?] at h
    split at h
    · next hend =>
      obtain rfl := Option.some.inj h
      have hslash := eq_of_beq ((Bool.and_eq_true _ _).mp hend).2
      refine ⟨1, rfl, ?_⟩
      cases s with
      | nil => exact absurd hslash (by decide)
      | cons b s => exact congrArg some hslash
    · obtain ⟨n, hn, rfl⟩ := Option.map_eq_some_iff.1 h
      obtain ⟨m, rfl, hm⟩ := ih hn
      exact ⟨m + 1, rfl, hm⟩

/-- A quoted literal ends with its quote, or before a byte that cannot be in it. -/
theorem quotedTail_end (quote : UInt8) (s : Text) :
    (∃ m, (quotedTail quote s).1 = m + 1 ∧ s[m]? = some quote) ∨
      ∀ b ∈ s[(quotedTail quote s).1]?, b = 0 ∨ b = byte '\n' := by
  fun_induction quotedTail quote s with
  | case1 => simp
  | case2 b rest h => exact .inl ⟨0, rfl, congrArg some (eq_of_beq h)⟩
  | case3 b rest _ h => 
    refine .inr fun c hc => ?_
    obtain rfl := Option.some.inj hc
    simpa using h
  | case4 => simp
  | case5 b _ _ _ rest c n closed hn ih =>
    rw [hn] at ih
    rcases ih with ⟨m, hm, hquote⟩ | h
    · exact .inl ⟨m + 2, by simpa using hm, hquote⟩
    · exact .inr h
  | case6 b rest _ _ _ n closed hn ih =>
    rw [hn] at ih
    rcases ih with ⟨m, hm, hquote⟩ | h
    · exact .inl ⟨m + 1, by simpa using hm, hquote⟩
    · exact .inr h

theorem border_scanQuoted (hquote : peek s 0 < 0x80) (kind : Kind) : Border s (scanQuoted (peek s 0) kind s).2 := by
  cases s with
  | nil => exact border_of_length_le (Nat.zero_le _)
  | cons quote rest =>
    change Border _ ((quotedTail quote rest).1 + 1)
    rcases quotedTail_end quote rest with ⟨m, hm, hlast⟩ | h
    · rw [hm]
      refine border_succ fun b hb => ?_
      rw [List.getElem?_cons_succ, hlast] at hb
      exact Option.some.inj hb ▸ hquote
    · refine border_of_not_continuation fun b hb => not_continuation_of_ascii ?_
      rcases h b hb with rfl | rfl <;> decide

theorem border_scanPunctuation (s : Text) : Border s (scanPunctuation s).2 := by
  have hascii : ∀ entry ∈ Kind.punctuationSpellings, ∀ b ∈ entry.2, b < 0x80 := by decide +kernel
  unfold scanPunctuation
  split
  · next kind spelling hfind =>
    refine border_of_ascii fun b hb => hascii _ (List.mem_of_find?_eq_some hfind) b ?_
    have hprefix := List.find?_some hfind
    rw [List.isPrefixOf_iff_prefix] at hprefix
    exact List.prefix_iff_eq_take.1 hprefix ▸ hb
  · exact border_width s

theorem not_of_mem_getElem?_takeWhile {p : UInt8 → Bool} : ∀ b ∈ s[(s.takeWhile p).length]?, p b = false := by
  induction s with
  | nil => simp
  | cons a s ih =>
    by_cases h : p a = true
    · simpa [h] using ih
    · simp [h]

/-- No rune reaches over the end of the token in front of a text. -/
theorem border_scan (s : Text) : Border s (scan s).2 := by
  unfold scan
  dsimp only
  split
  · next h =>
    have hslash := eq_of_beq ((Bool.and_eq_true _ _).mp h).2
    refine (border_peek (n := 1) (by rw [hslash]; decide)).add (border_of_not_continuation fun b hb => ?_)
    have hstop := not_of_mem_getElem?_takeWhile b hb
    refine not_continuation_of_ascii ?_
    rcases (Bool.and_eq_false_iff).1 hstop with h | h
    · rw [show b = 0 by simpa using h]
      decide
    · rw [show b = byte '\n' by simpa using h]
      decide
  split
  · next h =>
    have hstar := eq_of_beq ((Bool.and_eq_true _ _).mp h).2
    split
    · next n hend =>
      obtain ⟨m, rfl, hm⟩ := blockCommentEnd?_eq hend
      rw [Nat.add_comm]
      refine (border_peek (n := 1) (by rw [hstar]; decide)).add (border_succ fun b hb => ?_)
      rw [hm] at hb
      rw [← Option.some.inj hb]
      decide
    · exact border_of_length_le (Nat.le_refl _)
  split
  · exact border_takeWhile (forall_byte (by decide +kernel))
  split
  · exact border_nameLength s
  split
  · exact border_scanNumber s
  split
  · next h => exact border_scanQuoted (by rw [eq_of_beq h]; decide) _
  split
  · next h => exact border_scanQuoted (by rw [eq_of_beq h]; decide) _
  · exact border_scanPunctuation s

/-! ## Whole sources -/

/-- No rune reaches over the start of a token. -/
theorem border_of_lexFrom_eq {fuel : Nat} {p : Position} {before after : List Token} {t : Token}
    (h : lexFrom fuel p s = before ++ t :: after) : Border s (before.flatMap text).length := by
  induction fuel generalizing p s before with
  | zero =>
    obtain ⟨rfl, -⟩ := List.append_eq_singleton_iff.1 h.symm |>.resolve_right (by simp)
    exact Rune.border_zero s
  | succ fuel ih =>
    cases s with
    | nil => exact border_of_length_le (Nat.zero_le _)
    | cons b rest =>
      rw [lexFrom_cons] at h
      cases before with
      | nil => exact Rune.border_zero _
      | cons u before =>
        obtain ⟨rfl, htail⟩ := List.cons.inj h
        rw [List.flatMap_cons, List.length_append]
        have hrest := ih htail
        change Border _ (((b :: rest).take (scan (b :: rest)).2).length + _)
        rcases Nat.le_total (scan (b :: rest)).2 (b :: rest).length with hle | hle
        · rw [List.length_take, Nat.min_eq_left hle]
          exact (border_scan _).add hrest
        · rw [List.take_of_length_le hle]
          exact border_of_length_le (Nat.le_add_right _ _)

end Token

end KiteCompiler
