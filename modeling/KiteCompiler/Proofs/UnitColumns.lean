import KiteCompiler.Proofs.EditorPositions

/-!
# Columns inside of characters

A column in bytes need not be at a border of the runes of its line. It is never turned into more units than bytes, but
right behind the first byte of a rune of three or four bytes it is turned into one unit less than the column before it.
There, and only there, the units go down, and at the start of a line below zero (`character_bounds_iff`).
-/

namespace KiteCompiler.Editor

/-- A rune of three or four bytes starts here. -/
def WideAt (line : Text) (column : Nat) : Prop := 3 ≤ (Rune.first (line.drop column)).width

/-! ## Bytes and units of a rune -/

/-- The code of a rune of three bytes fits into one unit, that of a rune of four bytes does not. -/
theorem width_first_cases (t : Text) : (Rune.first t).width ≤ 2 ∨
    (Rune.first t).width = 3 ∧ (Rune.first t).code < 0x10000 ∨
    (Rune.first t).width = 4 ∧ 0x10000 ≤ (Rune.first t).code := by
  fun_cases Rune.first t with
  | case6 =>
    refine .inr (.inl ⟨rfl, ?_⟩)
    dsimp only [Rune.payload]
    omega
  | case9 a _ _ _ hlead b c d _ low high h =>
    refine .inr (.inr ⟨rfl, ?_⟩)
    -- the first two bytes alone make the code large enough
    have htop : 16 ≤ a.toNat % 8 * 64 + Rune.payload b := by
      by_cases ha : a = 0xF0
      · have hpayload : ∀ b : UInt8, 0x90 ≤ b ∧ b ≤ 0xBF → 16 ≤ Rune.payload b := Token.forall_byte (by decide +kernel)
        have hb := hpayload b (by simp_all [low, high])
        omega
      · have hleads : ∀ a : UInt8, 0xF0 ≤ a ∧ a ≤ 0xF4 → a = 0xF0 ∨ 1 ≤ a.toNat % 8 :=
          Token.forall_byte (by decide +kernel)
        have := (hleads a (by simpa using hlead)).resolve_left ha
        omega
    dsimp only
    omega
  | _ => exact .inl (Nat.le_of_ble_eq_true rfl)

/-- A rune has as many bytes as units, one more, or two more if it is wide. -/
theorem width_first_units (b : UInt8) (t : Text) : 0 < units (Rune.first (b :: t)) ∧
    (Rune.first (b :: t)).width ≤ units (Rune.first (b :: t)) + 2 ∧
    (WideAt (b :: t) 0 ↔ (Rune.first (b :: t)).width = units (Rune.first (b :: t)) + 2) := by
  rw [WideAt, List.drop_zero, units]
  have := width_first_cases (b :: t)
  split <;> omega

/-! ## Columns rune by rune -/

theorem unitColumn_nil (column : Nat) : unitColumn [] column = column := by
  change ((0 : Nat) : Int) + column - (0 : Nat) = column
  omega

/-- A column is at the start of a line, inside of its first rune, or behind it. -/
theorem unitColumn_cons (b : UInt8) (t : Text) (column : Nat) : unitColumn (b :: t) column =
    if column = 0 then 0
    else if column < (Rune.first (b :: t)).width then
      (units (Rune.first (b :: t)) + column - (Rune.first (b :: t)).width : Int)
    else units (Rune.first (b :: t)) +
      unitColumn ((b :: t).drop (Rune.first (b :: t)).width) (column - (Rune.first (b :: t)).width) := by
  have hzero (rs : List (Rune × Text)) : passed 0 rs = (0, 0) := by
    unfold passed
    split <;> rfl
  rw [unitColumn, Rune.list_cons]
  by_cases hstart : column = 0
  · rw [if_pos hstart, hstart, hzero]
    rfl
  rw [if_neg hstart, passed, if_neg hstart]
  by_cases hinside : column < (Rune.first (b :: t)).width
  · rw [if_pos hinside, Nat.sub_eq_zero_of_le (Nat.le_of_lt hinside), hzero]
    dsimp only
    omega
  · rw [if_neg hinside, unitColumn]
    dsimp only
    omega

theorem not_wideAt_nil (column : Nat) : ¬WideAt [] column := by
  rw [WideAt, List.drop_nil]
  decide

theorem wideAt_drop (line : Text) (m n : Nat) : WideAt (line.drop m) n ↔ WideAt line (m + n) := by
  rw [WideAt, WideAt, List.drop_drop]

/-- No rune starts inside of another one. -/
theorem not_wideAt_of_lt_width {line : Text} {column : Nat} (hpos : 0 < column)
    (hlt : column < (Rune.first line).width) : ¬WideAt line column := by
  obtain ⟨b, hb, hcontinuation⟩ := Rune.continuation_of_lt_width hpos hlt
  obtain ⟨hlength, rfl⟩ := List.getElem?_eq_some_iff.1 hb
  rw [WideAt, List.drop_eq_getElem_cons hlength, Rune.width_first_of_continuation hcontinuation]
  decide

theorem unitColumn_bounds (line : Text) (column : Nat) : unitColumn line column ≤ column ∧ -1 ≤ unitColumn line column ∧
    (0 ≤ unitColumn line column ↔ ¬(column = 1 ∧ WideAt line 0)) := by
  induction line using Rune.induction generalizing column with
  | nil =>
    rw [unitColumn_nil]
    simp only [not_wideAt_nil, and_false, not_false_iff, iff_true]
    omega
  | cons b t ih =>
    have hpos := Rune.width_first_pos b t
    have hle := units_first_le b t
    obtain ⟨hunits, hwidth, hwide⟩ := width_first_units b t
    obtain ⟨hless, hmore, -⟩ := ih (column - (Rune.first (b :: t)).width)
    rw [unitColumn_cons, hwide]
    split
    · omega
    · split <;> omega

/-- The units go down only by one, behind the first byte of a wide rune. -/
theorem unitColumn_le_iff (line : Text) (column more : Nat) :
    unitColumn line column ≤ unitColumn line (column + more) ↔ ¬(more = 1 ∧ WideAt line column) := by
  induction line using Rune.induction generalizing column with
  | nil =>
    rw [unitColumn_nil, unitColumn_nil]
    simp only [not_wideAt_nil, and_false, not_false_iff, iff_true]
    omega
  | cons b t ih =>
    have hpos := Rune.width_first_pos b t
    rcases Nat.eq_zero_or_pos column with rfl | hcolumn
    · rw [unitColumn_cons, if_pos rfl, Nat.zero_add]
      exact (unitColumn_bounds _ _).2.2
    rcases Nat.lt_or_ge column (Rune.first (b :: t)).width with hlt | hge
    · have hbehind := unitColumn_bounds ((b :: t).drop (Rune.first (b :: t)).width)
        (column + more - (Rune.first (b :: t)).width)
      have hnarrow := not_wideAt_of_lt_width hcolumn hlt
      rw [unitColumn_cons, unitColumn_cons]
      simp only [hnarrow, and_false, not_false_iff, iff_true, if_neg (Nat.ne_of_gt hcolumn), if_pos hlt]
      rw [if_neg (by omega)]
      split <;> omega
    · have hrest := ih (column - (Rune.first (b :: t)).width)
      rw [wideAt_drop, show (Rune.first (b :: t)).width + (column - (Rune.first (b :: t)).width) = column by omega,
        ← Nat.sub_add_comm hge] at hrest
      rw [unitColumn_cons, unitColumn_cons, ← hrest]
      repeat rw [if_neg (by omega)]
      omega

/-! ## What the editor is told -/

/-- **Where columns wrap around.** The start of a report is the word for `unitColumn`, which is never more than the
column. It is below zero just behind the first byte of a wide rune at the start of the line, and it goes down only
behind the first byte of a wide rune. -/
theorem character_bounds_iff (content : Text) (i : Fin (Text.split 10 content).length) (column more : Nat) :
    let line := (Text.split 10 content).get i
    (locate (Text.split 10 content) ⟨i + 1, column⟩).1.character = word (unitColumn line column) ∧
      unitColumn line column ≤ column ∧ (0 ≤ unitColumn line column ↔ ¬(column = 1 ∧ WideAt line 0)) ∧
      (unitColumn line column ≤ unitColumn line (column + more) ↔ ¬(more = 1 ∧ WideAt line column)) := by
  intro line
  obtain ⟨hle, -, hnonneg⟩ := unitColumn_bounds line column
  refine ⟨?_, hle, hnonneg, unitColumn_le_iff line column more⟩
  have hline : (Text.split 10 content)[(i : Nat)]? = some line := List.getElem?_eq_getElem i.2
  rw [locate_line hline]
  dsimp only
  split
  · next hend =>
    -- a wide rune does not end with the first byte of its line
    rw [max_eq_left (hnonneg.2 ?_)]
    rintro ⟨rfl, hwide⟩
    have hwidth := Rune.width_first_le line
    rw [WideAt, List.drop_zero] at hwide
    omega
  · rfl

/-- One byte into a character of three bytes, the column is below zero, and the word for it is the largest one. -/
theorem character_wraps_around : unitColumn "€" 1 = -1 ∧
    (locate (Text.split 10 "€") ⟨1, 1⟩).1.character = 0xFFFFFFFF := by decide +kernel

end KiteCompiler.Editor
