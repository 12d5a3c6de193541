import KiteCompiler.Proofs.Lexing.Lexemes
import Mathlib.Data.List.Find

/-!
# Tokens are found again

What `scan` takes from the front of a text it takes again from the front of another one, if the byte behind it does not
go on with the token (`Genuine.scan_append`). Which bytes do so is said by `Kind.stopsAt`; it depends on the kind of the
token only.
-/

namespace KiteCompiler

namespace Rune

theorem width_first_le (s : Text) : (first s).width ≤ s.length := by
  unfold first
  split
  · exact Nat.le_refl 0
  · repeat' first | split | dsimp only [invalid]
    all_goals simp only [List.length_cons]
    all_goals omega

/-- How many bytes a rune has that starts with this byte, unless it is a replacement. -/
def widthAt (a : UInt8) : Nat :=
  if a < 0x80 then 1 else if 0xC2 ≤ a && a ≤ 0xDF then 2 else if 0xE0 ≤ a && a ≤ 0xEF then 3 else 4

theorem width_first {a : UInt8} {s : Text} (hvalid : (first (a :: s)).code ≠ 0xFFFD) :
    (first (a :: s)).width = widthAt a := by
  revert hvalid
  unfold first widthAt
  dsimp only
  repeat' split
  all_goals first | exact fun _ => rfl | exact fun h => absurd rfl h

/-- A rune that is no replacement depends on its own bytes only. -/
theorem first_append {t s : Text} (r : Text) (hvalid : (first (t ++ s)).code ≠ 0xFFFD)
    (hwidth : (first (t ++ s)).width ≤ t.length) : first (t ++ r) = first (t ++ s) := by
  cases t with
  | nil =>
    cases s with
    | nil => exact absurd rfl hvalid
    | cons a s => exact absurd hwidth (Nat.not_le.2 (width_first_pos a s))
  | cons a t =>
    rw [List.cons_append] at hvalid hwidth
    rw [width_first hvalid, List.length_cons] at hwidth
    unfold widthAt at hwidth
    simp only [List.cons_append, first]
    split
    · rfl
    rw [if_neg ‹_›] at hwidth
    split
    · obtain ⟨b, t, rfl⟩ := List.exists_cons_of_length_pos (show 0 < t.length by rw [if_pos ‹_›] at hwidth; omega)
      rfl
    rw [if_neg ‹_›] at hwidth
    rcases t with _ | ⟨b, _ | ⟨c, _ | ⟨d, t⟩⟩⟩
    all_goals simp only [List.length_cons, List.length_nil] at hwidth
    all_goals split at hwidth <;> first | omega | rfl | skip
    all_goals simp [*]
end Rune

namespace Token

open Text (byte)

theorem replacement_classes : Text.isLetter 0xFFFD = false ∧ Text.isDecimalDigit 0xFFFD = false := by
  decide +kernel

/-! ## Names -/

theorem startsName_append {t s : Text} (r : Text) (h : startsName (t ++ s) = true)
    (hwidth : (Rune.first (t ++ s)).width ≤ t.length) : startsName (t ++ r) = true := by
  cases t with
  | nil =>
    cases s with
    | nil => cases h
    | cons a s => exact absurd hwidth (Nat.not_le.2 (Rune.width_first_pos a s))
  | cons a t =>
    simp only [List.cons_append, startsName] at h hwidth ⊢
    split at h
    · rwa [if_pos ‹_›]
    · rw [if_neg ‹_›, ← List.cons_append, Rune.first_append r (fun hcode => ?_) hwidth]
      · exact h
      · rw [← List.cons_append, hcode, replacement_classes.1] at h
        cases h

theorem continuesName_append {t s : Text} (r : Text) (h : continuesName (t ++ s) = true)
    (hwidth : (Rune.first (t ++ s)).width ≤ t.length) :
    continuesName (t ++ r) = true ∧ (Rune.first (t ++ r)).width = (Rune.first (t ++ s)).width := by
  cases t with
  | nil =>
    cases s with
    | nil => cases h
    | cons a s => exact absurd hwidth (Nat.not_le.2 (Rune.width_first_pos a s))
  | cons a t =>
    simp only [List.cons_append, continuesName] at h hwidth ⊢
    split at h
    · next ha =>
      rw [if_pos ha]
      refine ⟨?_, by simp only [Rune.first, if_pos ha]⟩
      simpa only [startsName, if_pos ha] using h
    · next ha =>
      have hfirst : Rune.first (a :: (t ++ r)) = Rune.first (a :: (t ++ s)) := by
        refine Rune.first_append (t := a :: t) r (fun hcode => ?_) hwidth
        rw [← List.cons_append, hcode, replacement_classes.1, replacement_classes.2] at h
        cases h
      rw [if_neg ha, hfirst]
      exact ⟨h, rfl⟩

theorem le_nameLength {skip : Nat} {s : Text} (h : skip ≤ s.length) : skip ≤ nameLength skip s := by
  induction s generalizing skip with
  | nil => exact h
  | cons b s ih =>
    cases skip with
    | zero => exact Nat.zero_le _
    | succ skip =>
      rw [nameLength]
      have := ih (Nat.le_of_succ_le_succ h)
      omega

theorem nameLength_le (skip : Nat) (s : Text) : nameLength skip s ≤ s.length := by
  induction s generalizing skip with
  | nil => simp [nameLength]
  | cons b s ih =>
    rw [List.length_cons]
    cases skip with
    | zero =>
      rw [nameLength]
      split
      · have := ih ((Rune.first (b :: s)).width - 1)
        omega
      · exact Nat.zero_le _
    | succ skip =>
      rw [nameLength]
      have := ih skip
      omega

/-- A name ends at the same place before anything that does not go on with it. -/
theorem nameLength_append {skip : Nat} {t s r : Text} (h : nameLength skip (t ++ s) = t.length)
    (hskip : skip ≤ t.length) (hr : continuesName r = false) : nameLength skip (t ++ r) = t.length := by
  induction t generalizing skip with
  | nil =>
    obtain rfl : skip = 0 := Nat.le_zero.1 hskip
    cases r with
    | nil => rfl
    | cons b r => rw [List.nil_append, nameLength, if_neg (by simp [hr])]; rfl
  | cons a t ih =>
    cases skip with
    | succ skip =>
      simp only [List.cons_append, List.length_cons, nameLength] at h hskip ⊢
      rw [ih (by omega) (by omega), Nat.add_comm]
    | zero =>
      simp only [List.cons_append, List.length_cons, nameLength] at h ⊢
      split at h
      · next hcontinues =>
        have hle := Rune.width_first_le (a :: (t ++ s))
        have hwidth : (Rune.first (a :: (t ++ s))).width - 1 ≤ nameLength ((Rune.first (a :: (t ++ s))).width - 1)
            (t ++ s) :=
          le_nameLength (by rw [List.length_cons] at hle; omega)
        obtain ⟨hcontinues', hwidth'⟩ := continuesName_append (t := a :: t) r hcontinues (by
          rw [List.length_cons]
          simp only [List.cons_append]
          omega)
        simp only [List.cons_append] at hcontinues' hwidth'
        rw [if_pos hcontinues', hwidth', ih (by omega) (by omega), Nat.add_comm]
      · omega

/-! ## Numbers -/

/-- Bytes that cannot go on with a name. -/
def endsName (b : UInt8) : Bool :=
  b < 0x80 && !(isAsciiLetter b || b == byte '_' || b == byte '$' || isDigit b)

/-- Bytes that cannot go on with a number. -/
def endsNumber (b : UInt8) : Bool := endsName b && b != byte '.' && b != byte '+' && b != byte '-'

/-- The text does not go on with a number. -/
def NumberEnds (r : Text) : Prop := ∀ b ∈ r.head?, endsNumber b = true

theorem continuesName_of_ends {b : UInt8} {r : Text} (h : endsName b = true) : continuesName (b :: r) = false := by
  simp only [endsName, Bool.and_eq_true, decide_eq_true_eq, Bool.not_eq_true', Bool.or_eq_false_iff] at h
  obtain ⟨hascii, ⟨⟨hletter, hunderscore⟩, hdollar⟩, hdigit⟩ := h
  simp [continuesName, startsName, hascii, hletter, hunderscore, hdollar, hdigit]

/-- What holds of all 256 bytes. -/
theorem forall_byte {P : UInt8 → Prop} (h : ∀ n ∈ List.range 256, P (UInt8.ofNat n)) (b : UInt8) : P b := by
  have hb := h b.toNat (List.mem_range.2 (UInt8.toNat_lt b))
  rwa [UInt8.ofNat_toNat] at hb

/-- What stands behind a number: nothing, which is read as zero, or a byte that ends it. -/
def stopsNumber (b : UInt8) : Bool := b == 0 || endsNumber b

/-! ### Parts of numbers -/

def isEither (lower upper : Char) (b : UInt8) : Bool := b == byte lower || b == byte upper

def isPoint (b : UInt8) : Bool := b == byte '.'

/-- A decimal number that is known to be a floating point number has no suffix of an integer. -/
def isDecimalSuffix (isFloat : Bool) (b : UInt8) : Bool := isFloatSuffix b || !isFloat && isLongSuffix b

def isRun (p : UInt8 → Bool) (b : UInt8) : Bool := p b || b == byte '_'

/-- The bytes that numbers consist of, by what is asked of them. -/
def numberClasses : List (UInt8 → Bool) :=
  [isRun isDigit, isRun isHexDigit, isRun isBinaryDigit, isFloatSuffix, isLongSuffix,
    isDecimalSuffix true, isDecimalSuffix false, isPoint, isEither '+' '-',
    isEither 'e' 'E', isEither 'p' 'P', isEither 'x' 'X', isEither 'b' 'B']

theorem numberClasses_apart {p : UInt8 → Bool} (hp : p ∈ numberClasses) (b : UInt8) :
    (stopsNumber b = true → p b = false) ∧ (p b = true → b < 0x80) := by
  revert b
  refine forall_byte ?_
  -- By the place in the list, as `decide` would go through all functions of a byte.
  rw [List.mem_iff_getElem] at hp
  obtain ⟨i, hi, rfl⟩ := hp
  revert i
  decide +kernel

section

variable {t s r : Text} {k : Nat} {p : UInt8 → Bool} {f g : Text → Nat → Nat}

theorem peek_append_of_lt {i : Nat} (hi : i < t.length) (r : Text) : peek (t ++ r) i = peek t i := by
  simp [peek, List.getD_eq_getElem?_getD, List.getElem?_append_left hi]

theorem peek_drop (s : Text) (k i : Nat) : peek (s.drop k) i = peek s (k + i) := by
  simp [peek, List.getD_eq_getElem?_getD, List.getElem?_drop]

theorem lt_of_peek (hp : p 0 = false) {i : Nat} (h : p (peek s i) = true) : i < s.length := by
  refine Nat.lt_of_not_le fun hle => ?_
  rw [show peek s i = 0 by simp [peek, List.getD_eq_getElem?_getD, hle], hp] at h
  cases h

theorem lt_of_class (hp : p ∈ numberClasses) {i : Nat} (h : p (peek s i) = true) : i < s.length :=
  lt_of_peek ((numberClasses_apart hp 0).1 rfl) h

theorem stops_of_length (hr : NumberEnds r) (t : Text) : stopsNumber (peek (t ++ r) t.length) = true := by
  cases r with
  | nil => simp [peek, List.getD_eq_getElem?_getD, stopsNumber]
  | cons b r => simpa [peek, List.getD_eq_getElem?_getD, stopsNumber] using .inr (hr b rfl)

/-- A byte that belongs to `t` is found, and no other one. -/
theorem class_append (hr : NumberEnds r) (hp : p ∈ numberClasses) (hk : k ≤ t.length)
    (h : p (peek (t ++ s) k) = true → k < t.length) : p (peek (t ++ r) k) = p (peek (t ++ s) k) := by
  rcases Nat.lt_or_eq_of_le hk with hlt | rfl
  · rw [peek_append_of_lt hlt, peek_append_of_lt hlt]
  · rw [(numberClasses_apart hp _).1 (stops_of_length hr t), Eq.comm, Bool.eq_false_iff]
    exact fun hs => Nat.lt_irrefl _ (h hs)

/-- What is taken from a place in a text on ends there or behind a byte of ASCII. -/
def Ends (f : Text → Nat → Nat) : Prop :=
  ∀ s k, f s k = k ∨ ∃ i, k ≤ i ∧ i < s.length ∧ peek s i < 0x80 ∧ f s k = i + 1

theorem Ends.le (hf : Ends f) (s : Text) (k : Nat) : k ≤ f s k := by
  rcases hf s k with h | ⟨i, h⟩ <;> omega

theorem Ends.seq (hf : Ends f) (hg : Ends g) : Ends fun s k => g s (f s k) := by
  intro s k
  rcases hg s (f s k) with h | ⟨i, hi, h⟩
  · simp only [h]
    exact hf s k
  · exact .inr ⟨i, Nat.le_trans (hf.le s k) hi, h⟩

/-- A part of a number, given by where it ends: it ends there also before anything that does not go on with the
number. -/
structure Part (f : Text → Nat → Nat) : Prop where
  ends : Ends f
  append {t s r : Text} {k : Nat} (hr : NumberEnds r) (h : f (t ++ s) k ≤ t.length) :
    f (t ++ r) k = f (t ++ s) k

theorem Part.seq (hf : Part f) (hg : Part g) : Part fun s k => g s (f s k) where
  ends := hf.ends.seq hg.ends
  append hr h := by rw [hf.append hr (Nat.le_trans (hg.ends.le _ _) h), hg.append hr h]

/-- A run of bytes. -/
def taken (p : UInt8 → Bool) (s : Text) (k : Nat) : Nat := k + ((s.drop k).takeWhile p).length

theorem part_taken (hp : p ∈ numberClasses) : Part (taken p) := by
  refine ⟨fun s k => ?_, fun {t s r k} hr h => ?_⟩
  · unfold taken
    rcases hlength : ((s.drop k).takeWhile p).length with _ | n
    · exact .inl rfl
    · have hn : n < ((s.drop k).takeWhile p).length := by omega
      have hle := (List.takeWhile_prefix (l := s.drop k) p).length_le
      have hpeek : peek s (k + n) = ((s.drop k).takeWhile p)[n] := by
        rw [← peek_drop, peek, List.getD_eq_getElem?_getD, List.getElem?_eq_getElem (by omega)]
        exact ((List.takeWhile_prefix p).getElem hn).symm
      rw [List.length_drop] at hle
      refine .inr ⟨k + n, by omega, by omega, ?_, by omega⟩
      rw [hpeek]
      exact (numberClasses_apart hp _).2 (List.all_eq_true.1 List.all_takeWhile _ (List.getElem_mem hn))
  · unfold taken at h ⊢
    have hnone : r.takeWhile p = [] := by
      cases r with
      | nil => rfl
      | cons b r => rw [List.takeWhile_cons, (numberClasses_apart hp b).1 (by simp [stopsNumber, hr b rfl])]; rfl
    have hk : k ≤ t.length := by omega
    rw [List.drop_append_of_le_length hk, List.takeWhile_append] at h ⊢
    rw [List.drop_append_of_le_length hk, List.takeWhile_append]
    split
    · next hall =>
      rw [if_pos hall, List.length_append, List.length_drop] at h
      rw [hnone, List.length_append, List.length_append, List.length_nil]
      omega
    · rfl

/-- What follows a byte if it is there. -/
def behind (p : UInt8 → Bool) (f : Text → Nat → Nat) (s : Text) (k : Nat) : Nat :=
  if p (peek s k) then f s (k + 1) else k

theorem part_behind (hp : p ∈ numberClasses) (hf : Part f) : Part (behind p f) := by
  refine ⟨fun s k => ?_, fun {t s r k} hr h => ?_⟩
  · unfold behind
    split
    · next hpeek =>
      have hlt := lt_of_class hp hpeek
      rcases hf.ends s (k + 1) with h | ⟨i, hi, h⟩
      · exact .inr ⟨k, Nat.le_refl k, hlt, (numberClasses_apart hp _).2 hpeek, h⟩
      · exact .inr ⟨i, by omega, h⟩
    · exact .inl rfl
  · unfold behind at h ⊢
    have hle := hf.ends.le (t ++ s) (k + 1)
    rw [class_append hr hp (by split at h <;> omega) fun hs => by rw [if_pos hs] at h; omega]
    split
    · next hs => exact hf.append hr (by rwa [if_pos hs] at h)
    · rfl

/-- One byte if it is there. -/
def single (p : UInt8 → Bool) : Text → Nat → Nat := behind p fun _ k => k

theorem part_single (hp : p ∈ numberClasses) : Part (single p) := part_behind hp ⟨fun _ _ => .inl rfl, fun _ _ => rfl⟩

theorem part_digits : Part (taken (isRun isDigit)) := part_taken (by simp [numberClasses])

theorem part_hexDigits : Part (taken (isRun isHexDigit)) := part_taken (by simp [numberClasses])

theorem part_floatSuffix : Part (single isFloatSuffix) := part_single (by simp [numberClasses])

theorem part_longSuffix : Part (single isLongSuffix) := part_single (by simp [numberClasses])

theorem part_decimalSuffix (isFloat : Bool) : Part (single (isDecimalSuffix isFloat)) :=
  part_single (by cases isFloat <;> simp [numberClasses])

def exponent (lower upper : Char) : Text → Nat → Nat :=
  behind (isEither lower upper) fun s k => taken (isRun isDigit) s (single (isEither '+' '-') s k)

theorem part_exponent {lower upper : Char} (h : isEither lower upper ∈ numberClasses) : Part (exponent lower upper) :=
  part_behind h ((part_single (by simp [numberClasses])).seq part_digits)

theorem part_decimalExponent : Part (exponent 'e' 'E') := part_exponent (by simp [numberClasses])

theorem exponent_eq (lower upper : Char) (s : Text) (k : Nat) :
    exponent lower upper s k = k + exponentLength lower upper (s.drop k) := by
  unfold exponent exponentLength single behind taken digitRun isEither isRun
  simp only [peek_drop, List.drop_drop, Nat.add_zero]
  split
  · split <;> simp only [Nat.add_assoc, Nat.add_zero]
  · rfl

/-- The fraction of a decimal number whose integer digits end at `k`. -/
def fraction (s : Text) (k : Nat) : Nat :=
  if peek s k == byte '.' && fractionFollows (peek s (k + 1)) then taken (isRun isDigit) s (k + 1) else k

theorem fraction_ends : Ends fraction := by
  intro s k
  unfold fraction
  split
  · next h =>
    have hends := (part_behind (p := isPoint) (by simp [numberClasses]) part_digits).ends s k
    rwa [behind, isPoint, if_pos ((Bool.and_eq_true _ _).mp h).1] at hends
  · exact .inl rfl

/-- A point that does not begin a fraction may do so before something else, unless the number ends before it. -/
theorem fraction_append (hr : NumberEnds r) (h : fraction (t ++ s) k ≤ t.length)
    (hpoint : isPoint (peek (t ++ s) k) = true → fraction (t ++ s) k = k → k = t.length ∨ s = []) :
    fraction (t ++ r) k = fraction (t ++ s) k := by
  have hk : k ≤ t.length := Nat.le_trans (fraction_ends.le _ _) h
  have hfollows : ∀ b, stopsNumber b = true → fractionFollows b = true := forall_byte (by decide +kernel)
  have hpoint' : isPoint ∈ numberClasses := by simp [numberClasses]
  unfold fraction at h hpoint ⊢
  split at h
  · next hs =>
    have hle := part_digits.ends.le (t ++ s) (k + 1)
    rw [Bool.and_eq_true] at hs
    have hnext : fractionFollows (peek (t ++ r) (k + 1)) = true := by
      rcases Nat.lt_or_eq_of_le (Nat.le_trans hle h) with hlt | heq
      · rw [peek_append_of_lt hlt, ← peek_append_of_lt hlt s, hs.2]
      · exact hfollows _ (heq ▸ stops_of_length hr t)
    have hdot : peek (t ++ r) k = peek (t ++ s) k := by
      rw [peek_append_of_lt (by omega), peek_append_of_lt (by omega)]
    rw [hdot, hs.1, hs.2, hnext, part_digits.append hr h]
  · next hs =>
    rw [if_neg hs] at hpoint ⊢
    refine if_neg fun hfound => hs ?_
    rw [Bool.and_eq_true] at hfound ⊢
    rcases Nat.lt_or_eq_of_le hk with hlt | rfl
    · have hdot := hfound.1
      rw [peek_append_of_lt hlt, ← peek_append_of_lt hlt s] at hdot
      -- nothing behind the point is read as zero, which begins a fraction
      obtain rfl := (hpoint hdot rfl).resolve_left (by omega)
      refine ⟨hdot, ?_⟩
      rcases Nat.lt_or_eq_of_le hlt with hlt | heq
      · rw [peek_append_of_lt hlt, ← peek_append_of_lt hlt r, hfound.2]
      · rw [show k + 1 = t.length from heq]
        exact hfollows _ (stops_of_length (by simp [NumberEnds]) t)
    · exact absurd hfound.1
        (by rw [← isPoint, (numberClasses_apart hpoint' _).1 (stops_of_length hr t)]; exact Bool.false_ne_true)

def hexTail (s : Text) (k : Nat) : Nat := exponent 'p' 'P' s (behind isPoint (taken (isRun isHexDigit)) s k)

theorem part_hexTail : Part hexTail :=
  (part_behind (by simp [numberClasses]) part_hexDigits).seq (part_exponent (by simp [numberClasses]))

theorem ite_taken (c : Bool) (p : UInt8 → Bool) (s : Text) (k : Nat) : (if c then taken (isRun p) s (k + 1) else k) =
    k + if c then 1 + digitRun p (s.drop (k + 1)) else 0 := by
  split
  · exact Nat.add_assoc ..
  · rfl

theorem advanced_iff (whole fraction power : Nat) :
    (decide (fraction > 0) || decide (power > 0)) = decide (whole < whole + fraction + power) := by
  rw [← Bool.decide_or, decide_eq_decide]
  omega

theorem scanDecimal_eq (s : Text) : scanDecimal s =
    let whole := taken (isRun isDigit) s 0
    let n := exponent 'e' 'E' s (fraction s whole)
    (if isFloatSuffix (peek s n) || whole < n then .floatLiteral else .intLiteral,
    single (isDecimalSuffix (whole < n)) s n) := by
  have hwhole : taken (isRun isDigit) s 0 = digitRun isDigit s := Nat.zero_add _
  unfold scanDecimal
  dsimp only
  rw [hwhole, exponent_eq, fraction, ite_taken, advanced_iff (digitRun isDigit s)]
  generalize digitRun isDigit s + _ + exponentLength _ _ _ = n
  unfold single behind isDecimalSuffix
  cases isFloatSuffix (peek s n) <;> cases decide (digitRun isDigit s < n) <;> simp
  split <;> rfl

theorem scanHex_eq (s : Text) : scanHex s =
    let whole := taken (isRun isHexDigit) s 2
    let n := hexTail s whole
    if whole < n then (.floatLiteral, single isFloatSuffix s n) else (.intLiteral, single isLongSuffix s n) := by
  have hwhole : taken (isRun isHexDigit) s 2 = 2 + digitRun isHexDigit (s.drop 2) := rfl
  unfold scanHex
  dsimp only
  rw [hwhole, hexTail, exponent_eq, behind, ite_taken, advanced_iff (2 + digitRun isHexDigit (s.drop 2))]
  simp only [decide_eq_true_eq]
  rfl

/-- Does a number in front of the text have this mark behind a zero? -/
def isMarked (lower upper : Char) (s : Text) : Bool := peek s 0 == byte '0' && isEither lower upper (peek s 1)

theorem scanNumber_eq (s : Text) : scanNumber s =
    if isMarked 'x' 'X' s then scanHex s else if isMarked 'b' 'B' s then scanBinary s else scanDecimal s := rfl

/-! ### Whole numbers -/

theorem le_scanDecimal (s : Text) : fraction s (taken (isRun isDigit) s 0) ≤ (scanDecimal s).2 := by
  rw [scanDecimal_eq]
  exact Nat.le_trans (part_decimalExponent.ends.le _ _) ((part_decimalSuffix _).ends.le _ _)

theorem two_le_scanHex (s : Text) : 2 ≤ (scanHex s).2 := by
  have hle := (part_hexDigits.seq part_hexTail).ends.le s 2
  rw [scanHex_eq]
  dsimp only
  split
  · exact Nat.le_trans hle (part_floatSuffix.ends.le _ _)
  · exact Nat.le_trans hle (part_longSuffix.ends.le _ _)

theorem part_binary : Part fun s k => single isLongSuffix s (taken (isRun isBinaryDigit) s k) :=
  (part_taken (by simp [numberClasses])).seq part_longSuffix

theorem scanHex_append (hr : NumberEnds r) (h : (scanHex (t ++ s)).2 ≤ t.length) :
    scanHex (t ++ r) = scanHex (t ++ s) := by
  rw [scanHex_eq] at h ⊢
  rw [scanHex_eq]
  dsimp only at h ⊢
  have hn : hexTail (t ++ s) (taken (isRun isHexDigit) (t ++ s) 2) ≤ t.length := by
    split at h
    · exact Nat.le_trans (part_floatSuffix.ends.le _ _) h
    · exact Nat.le_trans (part_longSuffix.ends.le _ _) h
  rw [part_hexDigits.append hr (Nat.le_trans (part_hexTail.ends.le _ _) hn), part_hexTail.append hr hn]
  split
  · next hfloat => rw [part_floatSuffix.append hr (by rwa [if_pos hfloat] at h)]
  · next hfloat => rw [part_longSuffix.append hr (by rwa [if_neg hfloat] at h)]

theorem scanDecimal_append (hr : NumberEnds r) (h : (scanDecimal (t ++ s)).2 ≤ t.length)
    (hs : (scanDecimal (t ++ s)).2 = t.length ∨ s = []) : scanDecimal (t ++ r) = scanDecimal (t ++ s) := by
  rw [scanDecimal_eq] at h hs ⊢
  rw [scanDecimal_eq]
  dsimp only at h hs ⊢
  have hn := Nat.le_trans ((part_decimalSuffix _).ends.le _ _) h
  have hle := Nat.le_trans (part_decimalExponent.ends.le _ _) hn
  rw [part_digits.append hr (Nat.le_trans (fraction_ends.le _ _) hle)]
  generalize taken (isRun isDigit) (t ++ s) 0 = whole at h hs hn hle ⊢
  have hfraction : fraction (t ++ r) whole = fraction (t ++ s) whole := by
    refine fraction_append hr hle fun hdot hnone => hs.imp_left fun h => ?_
    -- a point is neither the mark of an exponent nor a suffix
    have hexponent : exponent 'e' 'E' (t ++ s) whole = whole := by rw [exponent, behind, eq_of_beq hdot]; rfl
    rw [hnone, hexponent, decide_eq_false (Nat.lt_irrefl _), single, behind, eq_of_beq hdot] at h
    exact h
  rw [hfraction, part_decimalExponent.append hr hn]
  generalize exponent 'e' 'E' (t ++ s) (fraction (t ++ s) whole) = n at h hn ⊢
  have hfloat : isFloatSuffix (peek (t ++ r) n) = isFloatSuffix (peek (t ++ s) n) := by
    refine class_append hr (by simp [numberClasses]) hn fun hsuffix => ?_
    rw [single, behind, if_pos (by simp [isDecimalSuffix, hsuffix])] at h
    exact h
  rw [hfloat, (part_decimalSuffix _).append hr h]

theorem scanBinary_append (hr : NumberEnds r) (h : (scanBinary (t ++ s)).2 ≤ t.length) :
    scanBinary (t ++ r) = scanBinary (t ++ s) := congrArg (Prod.mk _) (part_binary.append hr h)

theorem isMarked_append (hr : NumberEnds r) {lower upper : Char}
    (hmark : isEither lower upper ∈ numberClasses) (hpos : 0 < t.length)
    (hs : isMarked lower upper (t ++ s) = true → 2 ≤ t.length) :
    isMarked lower upper (t ++ r) = isMarked lower upper (t ++ s) := by
  unfold isMarked at hs ⊢
  rw [peek_append_of_lt hpos, ← peek_append_of_lt hpos s]
  cases hzero : peek (t ++ s) 0 == byte '0' with
  | false => rfl
  | true =>
    rw [hzero, Bool.true_and] at hs
    exact class_append hr hmark hpos hs

/-- A number is found again before anything that does not go on with it, if it was all there was, or nothing
followed. -/
theorem scanNumber_append (hr : NumberEnds r) (h : (scanNumber (t ++ s)).2 ≤ t.length)
    (hs : (scanNumber (t ++ s)).2 = t.length ∨ s = []) (hpos : 0 < t.length) :
    scanNumber (t ++ r) = scanNumber (t ++ s) := by
  rw [scanNumber_eq] at h hs ⊢
  rw [scanNumber_eq, isMarked_append hr (s := s) (by simp [numberClasses]) hpos fun hx => by
    rw [if_pos hx] at h
    exact Nat.le_trans (two_le_scanHex _) h]
  split
  · next hx => exact scanHex_append hr (by rwa [if_pos hx] at h)
  · next hx =>
    rw [if_neg hx] at h hs
    rw [isMarked_append hr (s := s) (by simp [numberClasses]) hpos fun hb => by
      rw [if_pos hb] at h
      exact Nat.le_trans (part_binary.ends.le _ 2) h]
    split
    · next hb => exact scanBinary_append hr (by rwa [if_pos hb] at h)
    · next hb =>
      rw [if_neg hb] at h hs
      exact scanDecimal_append hr h hs

/-- A number ends behind a byte of ASCII. -/
theorem scanNumber_ends (s : Text) :
    (scanNumber s).2 = 0 ∨ ∃ i, i < s.length ∧ peek s i < 0x80 ∧ (scanNumber s).2 = i + 1 := by
  have hmarked (lower upper : Char) (hmark : isEither lower upper ∈ numberClasses) {n : Nat}
      (h : isMarked lower upper s = true) (hn : n = 2 ∨ ∃ i, 2 ≤ i ∧ i < s.length ∧ peek s i < 0x80 ∧ n = i + 1) :
      n = 0 ∨ ∃ i, i < s.length ∧ peek s i < 0x80 ∧ n = i + 1 := by
    have hsecond := ((Bool.and_eq_true _ _).mp h).2
    rcases hn with rfl | ⟨i, -, hi⟩
    · exact .inr ⟨1, lt_of_class hmark hsecond, (numberClasses_apart hmark _).2 hsecond, rfl⟩
    · exact .inr ⟨i, hi⟩
  rw [scanNumber_eq]
  split
  · refine hmarked 'x' 'X' (by simp [numberClasses]) ‹_› ?_
    rw [scanHex_eq]
    dsimp only
    split
    · exact ((part_hexDigits.seq part_hexTail).seq part_floatSuffix).ends s 2
    · exact ((part_hexDigits.seq part_hexTail).seq part_longSuffix).ends s 2
  split
  · exact hmarked 'b' 'B' (by simp [numberClasses]) ‹_› (part_binary.ends s 2)
  · rw [scanDecimal_eq]
    have hends (isFloat : Bool) :=
      ((part_digits.ends.seq fraction_ends).seq part_decimalExponent.ends).seq (part_decimalSuffix isFloat).ends s 0
    exact (hends _).imp_right fun ⟨i, _, hi⟩ => ⟨i, hi⟩

theorem scanNumber_le (s : Text) : (scanNumber s).2 ≤ s.length := by
  rcases scanNumber_ends s with h | ⟨i, hi, -, h⟩ <;> omega

/-- A number that starts with a point has a digit behind it. -/
theorem two_le_scanNumber {s : Text} (h : isDigit (peek s 0) = true) : 2 ≤ (scanNumber (byte '.' :: s)).2 := by
  cases s with
  | nil => cases h
  | cons b s =>
    have hdigits : 0 < digitRun isDigit (b :: s) := digitRun_cons_pos s h
    have hfraction : fraction (byte '.' :: b :: s) 0 = 1 + digitRun isDigit (b :: s) := by
      rw [fraction, peek_cons_zero, peek_cons_succ, fractionFollows, if_pos h]
      rfl
    rw [scanNumber_eq, show isMarked 'x' 'X' (byte '.' :: b :: s) = false from rfl,
      show isMarked 'b' 'B' (byte '.' :: b :: s) = false from rfl]
    simp only [Bool.false_eq_true, if_false]
    refine Nat.le_trans ?_ (le_scanDecimal _)
    rw [show taken (isRun isDigit) (byte '.' :: b :: s) 0 = 0 from rfl, hfraction]
    omega

end

/-! ## Quoted literals and punctuation -/

theorem quotedTail_append {quote : UInt8} {s : Text} (r : Text) (h : (quotedTail quote s).2 = true) :
    quotedTail quote (s.take (quotedTail quote s).1 ++ r) = quotedTail quote s := by
  fun_induction quotedTail quote s with
  | case1 => cases h
  | case2 b rest hb =>
    rw [List.take_succ_cons, List.cons_append, quotedTail.eq_def]
    exact if_pos hb
  | case3 => cases h
  | case4 => cases h
  | case5 b hb hend hescape c rest n closed heq ih =>
    rw [heq] at ih
    rw [List.take_succ_cons, List.take_succ_cons, List.cons_append, List.cons_append, quotedTail, if_neg hb,
      if_neg hend, if_pos hescape]
    dsimp only
    rw [ih h]
  | case6 b rest hb hend hescape n closed heq ih =>
    rw [heq] at ih
    rw [List.take_succ_cons, List.cons_append, quotedTail.eq_def]
    dsimp only
    rw [if_neg hb, if_neg hend, if_neg hescape, ih h]

/-- Does the byte make longer punctuation out of this one, or something else? -/
def extendsPunctuation (k : Kind) (b : UInt8) : Bool :=
  Kind.punctuation.any (fun k' => (k.label ++ [b]).isPrefixOf k'.label)
    || k == .slash && (b == byte '/' || b == byte '*') || k == .dot && isDigit b

/-- How punctuation is spelled: no other one is found in front of it, it is neither the start of a comment nor of a
number unless it is `/` or `.`, and its first byte starts nothing else. -/
theorem punctuation_spelled : ∀ k ∈ Kind.punctuation,
    (Kind.punctuationSpellings.find? fun entry => entry.2.isPrefixOf k.label) = some (k, k.label) ∧
    (k = .slash ∨ k = .dot ∨ (peek k.label 0 ≠ byte '/' ∧ peek k.label 0 ≠ byte '.') ∨
      (1 < k.label.length ∧ peek k.label 1 ≠ byte '/' ∧ peek k.label 1 ≠ byte '*' ∧ isDigit (peek k.label 1) = false)) ∧
    ∃ b ∈ k.label.head?, b < 0x80 ∧ (isAsciiLetter b || b == byte '_' || b == byte '$') = false ∧ isSpace b = false ∧
      isDigit b = false ∧ b ≠ byte '\'' ∧ b ≠ byte '"' := by
  decide +kernel

/-- A word of which nothing goes on behind `t` is spelled at the front of the longer text just if it is at the front of
`t`. -/
theorem isPrefixOf_append {w t r : Text} (h : ∀ b u, t ++ b :: u = w → r.head? ≠ some b) :
    w.isPrefixOf (t ++ r) = w.isPrefixOf t := by
  rw [Bool.eq_iff_iff, List.isPrefixOf_iff_prefix, List.isPrefixOf_iff_prefix]
  refine ⟨fun hw => ?_, fun hw => hw.trans (List.prefix_append _ _)⟩
  rcases List.prefix_or_prefix_of_prefix hw (List.prefix_append t r) with hshorter | ⟨u, hu⟩
  · exact hshorter
  · cases u with
    | nil => exact ⟨[], by rw [← hu, List.append_nil, List.append_nil]⟩
    | cons b u =>
      rw [← hu, List.prefix_append_right_inj] at hw
      obtain ⟨v, rfl⟩ := hw
      exact absurd rfl (h b u hu)

theorem scanPunctuation_append {k : Kind} (hk : k ∈ Kind.punctuation) {r : Text}
    (hr : ∀ b ∈ r.head?, extendsPunctuation k b = false) : scanPunctuation (k.label ++ r) = (k, k.label.length) := by
  have hsame : ∀ entry ∈ Kind.punctuationSpellings, entry.2.isPrefixOf (k.label ++ r) = entry.2.isPrefixOf k.label := by
    refine fun entry hentry => isPrefixOf_append fun b u hu hb => ?_
    obtain ⟨k', hk', rfl⟩ := List.mem_map.1 hentry
    have hextends : (k.label ++ [b]).isPrefixOf k'.label = true := by
      rw [List.isPrefixOf_iff_prefix, ← show k.label ++ b :: u = k'.label from hu]
      exact ⟨u, by simp⟩
    have := hr b hb
    simp only [extendsPunctuation, Bool.or_eq_false_iff, List.any_eq_false] at this
    exact absurd hextends (this.1.1 k' hk')
  unfold scanPunctuation
  rw [List.find?_congr hsame, (punctuation_spelled k hk).1]

/-! ## All tokens -/

/-- Words and numbers start neither a comment nor layout. -/
theorem byte_classes (b : UInt8) :
    ((isAsciiLetter b || b == byte '_' || b == byte '$') = true → b ≠ byte '/' ∧ isSpace b = false) ∧
    (¬b < 0x80 → b ≠ byte '/' ∧ isSpace b = false) ∧
    ((isDigit b || b == byte '.') = true → b < 0x80 ∧
      (isAsciiLetter b || b == byte '_' || b == byte '$') = false ∧ b ≠ byte '/' ∧ isSpace b = false) := by
  revert b
  refine forall_byte ?_
  decide +kernel

theorem startsName_of_lt {b : UInt8} (r : Text) (h : b < 0x80) :
    startsName (b :: r) = (isAsciiLetter b || b == byte '_' || b == byte '$') := by
  rw [startsName, if_pos h]

theorem scan_word {s : Text} (h : startsName s = true) :
    scan s = (Kind.ofWord (s.take (nameLength 0 s)), nameLength 0 s) := by
  cases s with
  | nil => cases h
  | cons b s =>
    have hbyte : b ≠ byte '/' ∧ isSpace b = false := by
      by_cases hascii : b < 0x80
      · rw [startsName_of_lt s hascii] at h
        exact (byte_classes b).1 h
      · exact (byte_classes b).2.1 hascii
    unfold scan
    simp [hbyte, h]

theorem scan_number {b : UInt8} {s : Text} (h : (isDigit b || (b == byte '.' && isDigit (peek s 0))) = true) :
    scan (b :: s) = scanNumber (b :: s) := by
  have hbyte : b < 0x80 ∧ (isAsciiLetter b || b == byte '_' || b == byte '$') = false ∧ b ≠ byte '/' ∧
      isSpace b = false := by
    refine (byte_classes b).2.2 ?_
    rw [Bool.or_eq_true, Bool.and_eq_true] at h
    rw [Bool.or_eq_true]
    exact h.imp_right And.left
  have hname : startsName (b :: s) = false := (startsName_of_lt s hbyte.1).trans hbyte.2.1
  unfold scan
  simp [hbyte, hname, h]

theorem scan_char (s : Text) : scan (byte '\'' :: s) = scanQuoted (byte '\'') .charLiteral (byte '\'' :: s) := by
  have hname : startsName (byte '\'' :: s) = false := rfl
  unfold scan
  rw [hname]
  rfl

theorem scan_string (s : Text) : scan (byte '"' :: s) = scanQuoted (byte '"') .stringLiteral (byte '"' :: s) := by
  have hname : startsName (byte '"' :: s) = false := rfl
  unfold scan
  rw [hname]
  rfl

/-- Neither a comment nor a number starts with this punctuation. -/
theorem not_mark_of_punctuation {k : Kind} (hk : k ∈ Kind.punctuation) {r : Text}
    (hr : ∀ b ∈ r.head?, extendsPunctuation k b = false) :
    (peek k.label 0 == byte '/' && (peek (k.label ++ r) 1 == byte '/' || peek (k.label ++ r) 1 == byte '*')) = false ∧
      (peek k.label 0 == byte '.' && isDigit (peek (k.label ++ r) 1)) = false := by
  rcases (punctuation_spelled k hk).2.1 with rfl | rfl | h | ⟨hlength, h⟩
  · cases r with
    | nil => decide
    | cons b r =>
      have := hr b rfl
      simp only [extendsPunctuation, Bool.or_eq_false_iff, beq_self_eq_true, Bool.true_and] at this
      exact ⟨by change (_ && (b == byte '/' || b == byte '*')) = false; simp [this.1.2], rfl⟩
  · cases r with
    | nil => decide
    | cons b r =>
      have := hr b rfl
      simp only [extendsPunctuation, Bool.or_eq_false_iff, beq_self_eq_true, Bool.true_and] at this
      exact ⟨rfl, by change (_ && isDigit b) = false; simp [this.2]⟩
  · simp [h]
  · simp [peek_append_of_lt hlength, h]

theorem scan_punctuation {k : Kind} (hk : k ∈ Kind.punctuation) {r : Text}
    (hr : ∀ b ∈ r.head?, extendsPunctuation k b = false) : scan (k.label ++ r) = (k, k.label.length) := by
  obtain ⟨b, hb, hascii, hname, hspace, hdigit, hquote, hquotes⟩ := (punctuation_spelled k hk).2.2
  obtain ⟨u, hu⟩ := List.head?_eq_some_iff.1 hb
  have hmarks := not_mark_of_punctuation hk hr
  have hscan := scanPunctuation_append hk hr
  rw [hu, peek_cons_zero] at hmarks
  rw [hu] at hscan ⊢
  have hname' : startsName (b :: (u ++ r)) = false := (startsName_of_lt _ hascii).trans hname
  rw [List.cons_append] at hmarks hscan ⊢
  have hline : (b == byte '/' && peek (b :: (u ++ r)) 1 == byte '/') = false := by
    cases hslash : b == byte '/' <;> simp_all
  have hblock : (b == byte '/' && peek (b :: (u ++ r)) 1 == byte '*') = false := by
    cases hslash : b == byte '/' <;> simp_all
  unfold scan
  simp only [peek_cons_zero, hline, hblock, hspace, hname', hdigit, hmarks.2, beq_eq_false_iff_ne.2 hquote,
    beq_eq_false_iff_ne.2 hquotes, Bool.false_eq_true, if_false, Bool.false_or]
  exact hscan

/-! ### Tokens by their kind -/

/-- Does a token of this kind end before the byte? -/
def Kind.stopsAt (k : Kind) (b : UInt8) : Bool :=
  if k ∈ [Kind.charLiteral, .stringLiteral] then true
  else if k ∈ [Kind.intLiteral, .floatLiteral] then endsNumber b
  else if k ∈ Kind.punctuation then !extendsPunctuation k b
  else endsName b

theorem stopsAt_number {k : Kind} (hk : k ∈ [Kind.intLiteral, .floatLiteral]) : k.stopsAt = endsNumber := by
  have hquoted : ∀ k ∈ [Kind.intLiteral, .floatLiteral], k ∉ [Kind.charLiteral, .stringLiteral] := by decide
  funext b
  rw [Kind.stopsAt, if_neg (hquoted k hk), if_pos hk]

theorem stopsAt_punctuation {k : Kind} (hk : k ∈ Kind.punctuation) (b : UInt8) :
    k.stopsAt b = !extendsPunctuation k b := by
  have hother : ∀ k ∈ Kind.punctuation, k ∉ [Kind.charLiteral, .stringLiteral] ∧
      k ∉ [Kind.intLiteral, .floatLiteral] := by
    decide
  rw [Kind.stopsAt, if_neg (hother k hk).1, if_neg (hother k hk).2, if_pos hk]

theorem stopsAt_word {k : Kind} (hk : k ∈ Kind.identifier :: Kind.words) : k.stopsAt = endsName := by
  have hother : ∀ k ∈ Kind.identifier :: Kind.words, k ∉ [Kind.charLiteral, .stringLiteral] ∧
      k ∉ [Kind.intLiteral, .floatLiteral] ∧ k ∉ Kind.punctuation := by decide
  funext b
  rw [Kind.stopsAt, if_neg (hother k hk).1, if_neg (hother k hk).2.1, if_neg (hother k hk).2.2]

theorem ofWord_mem (t : Text) : Kind.ofWord t ∈ Kind.identifier :: Kind.words := by
  rcases ofWord_eq (t := t) rfl with h | ⟨h, -⟩
  · rw [h]
    exact List.mem_cons_self
  · exact List.mem_cons_of_mem _ h

theorem width_le_nameLength {s : Text} (h : startsName s = true) : (Rune.first s).width ≤ nameLength 0 s := by
  cases s with
  | nil => cases h
  | cons b s =>
    have hle := Rune.width_first_le (b :: s)
    rw [List.length_cons] at hle
    have : (Rune.first (b :: s)).width - 1 ≤ nameLength ((Rune.first (b :: s)).width - 1) s := le_nameLength (by omega)
    rw [nameLength, if_pos (continuesName_of_startsName h)]
    omega

theorem scan_append_word {s r : Text} (h : startsName s = true) (hr : ∀ b ∈ r.head?, endsName b = true) :
    scan (s.take (nameLength 0 s) ++ r) =
    (Kind.ofWord (s.take (nameLength 0 s)), (s.take (nameLength 0 s)).length) := by
  have hr' : continuesName r = false := by
    cases r with
    | nil => rfl
    | cons b r => exact continuesName_of_ends (hr b rfl)
  have hlength : (s.take (nameLength 0 s)).length = nameLength 0 s := by
    rw [List.length_take, Nat.min_eq_left (nameLength_le 0 s)]
  have hwidth := width_le_nameLength h
  have hs := List.take_append_drop (nameLength 0 s) s
  generalize s.take (nameLength 0 s) = t, s.drop (nameLength 0 s) = s' at hlength hs
  subst hs
  rw [scan_word (startsName_append r h (by omega)), nameLength_append hlength.symm (Nat.zero_le _) hr', List.take_left']
  rfl

theorem scan_append_number {s r : Text}
    (h : (isDigit (peek s 0) || (peek s 0 == byte '.' && isDigit (peek s 1))) = true)
    (hr : ∀ b ∈ r.head?, endsNumber b = true) :
    scan (s.take (scanNumber s).2 ++ r) = ((scanNumber s).1, (s.take (scanNumber s).2).length) := by
  have hlength : (s.take (scanNumber s).2).length = (scanNumber s).2 := by
    rw [List.length_take, Nat.min_eq_left (scanNumber_le _)]
  have hpos : 0 < (scanNumber s).2 := by
    cases s with
    | nil => cases h
    | cons b s => exact scanNumber_pos h
  have hpoint : peek s 0 = byte '.' → isDigit (peek s 1) = true → 2 ≤ (scanNumber s).2 := by
    cases s with
    | nil => exact fun _ h => nomatch h
    | cons b s =>
      rintro rfl hdigit
      exact two_le_scanNumber hdigit
  have hs := List.take_append_drop (scanNumber s).2 s
  generalize s.take (scanNumber s).2 = t, s.drop (scanNumber s).2 = s' at hlength hs
  subst hs
  rw [← hlength] at hpos hpoint
  have hfirst : peek (t ++ r) 0 = peek (t ++ s') 0 := (peek_append_of_lt hpos r).trans (peek_append_of_lt hpos s').symm
  have hsecond (hdot : peek (t ++ s') 0 = byte '.') (hdigit : isDigit (peek (t ++ s') 1) = true) :
      isDigit (peek (t ++ r) 1) = true := by
    have hlt : 1 < t.length := hpoint hdot hdigit
    rwa [peek_append_of_lt hlt r, ← peek_append_of_lt hlt s']
  have hcondition :
      (isDigit (peek (t ++ r) 0) || (peek (t ++ r) 0 == byte '.' && isDigit (peek (t ++ r) 1))) = true := by
    simp only [Bool.or_eq_true, Bool.and_eq_true, beq_iff_eq] at h ⊢
    rw [hfirst]
    exact h.imp_right fun h => ⟨h.1, hsecond h.1 h.2⟩
  cases t with
  | nil => exact absurd hpos (Nat.lt_irrefl 0)
  | cons b t =>
    have hscan : scan (b :: t ++ r) = scanNumber (b :: t ++ r) := scan_number hcondition
    rw [hscan, scanNumber_append hr (Nat.le_of_eq hlength.symm) (.inl hlength.symm) hpos, hlength]

theorem scanQuoted_append {quote : UInt8} {kind : Kind} {s : Text} (r : Text)
    (h : (scanQuoted quote kind (quote :: s)).1 ≠ .error) :
    scanQuoted quote kind ((quote :: s).take (scanQuoted quote kind (quote :: s)).2 ++ r) =
      ((scanQuoted quote kind (quote :: s)).1, ((quote :: s).take (scanQuoted quote kind (quote :: s)).2).length) := by
  unfold scanQuoted at h ⊢
  simp only [List.drop_succ_cons, List.drop_zero, List.take_succ_cons, List.cons_append] at h ⊢
  cases hclosed : (quotedTail quote s).2 with
  | false => simp [hclosed] at h
  | true =>
    have hle := (quotedTail_closed hclosed).2
    rw [quotedTail_append r hclosed, hclosed, List.length_cons, List.length_take, Nat.min_eq_left hle]

/-- A token is found again in front of what does not go on with it. -/
theorem Genuine.scan_append {k : Kind} {t r : Text} (h : Genuine (k, t))
    (hk : k ∉ [Kind.lineComment, .comment, .whitespace, .error]) (hr : ∀ b ∈ r.head?, k.stopsAt b = true) :
    scan (t ++ r) = (k, t.length) := by
  obtain ⟨s, hs⟩ := h
  have herror : k ≠ .error := fun h => hk (by rw [h]; decide)
  have hscan := scanned s
  generalize hfound : scan s = found at hs hscan
  obtain ⟨rfl, rfl⟩ := Prod.mk.inj hs
  cases hscan with
  | layout hlayout => exact absurd hlayout hk
  | word h =>
    rw [stopsAt_word (ofWord_mem _)] at hr
    exact scan_append_word h hr
  | number h =>
    rw [stopsAt_number (by rcases scanNumber_kind s with h | h <;> rw [h] <;> decide)] at hr
    exact scan_append_number h hr
  | char h =>
    cases s with
    | nil => cases h
    | cons b s =>
      obtain rfl : b = byte '\'' := h
      have happend := scanQuoted_append r herror
      rw [← happend]
      exact scan_char _
  | string h =>
    cases s with
    | nil => cases h
    | cons b s =>
      obtain rfl : b = byte '"' := h
      have happend := scanQuoted_append r herror
      rw [← happend]
      exact scan_string _
  | punctuation =>
    have hpunctuation := (scanPunctuation_kind s).resolve_right herror
    rw [take_scanPunctuation hpunctuation]
    refine scan_punctuation hpunctuation fun b hb => ?_
    have := hr b hb
    rwa [stopsAt_punctuation hpunctuation, Bool.not_eq_true'] at this

end Token

end KiteCompiler
