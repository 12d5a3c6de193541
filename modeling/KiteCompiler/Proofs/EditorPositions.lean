import KiteCompiler.Editor.Report
import KiteCompiler.Proofs.Lexing.Borders
import KiteCompiler.Proofs.Pieces
import KiteCompiler.Proofs.Placement.Findings
import Mathlib.Algebra.Order.Ring.Nat

/-!
# Positions in the editor

An editor is told where a diagnostic is in lines and in units of UTF-16. Both are right for every diagnostic of every
source, valid UTF-8 or not (`report_of_mem_diagnostics`): the place is in a line of the source, at the start of a rune
as the line is decoded from its own start or at its end, and the editor gets the units of the runes before it. That is
so because diagnostics are at tokens, no rune reaches over the start of a token, and runes end with their lines.
-/

namespace KiteCompiler

open Text (byte)

/-! ## Runes -/

namespace Rune

variable {t : Text} {n : Nat}

/-- What follows a rune of several bytes does not matter for it. -/
theorem first_append_of_width_ne_one {a : UInt8} {t : Text} (h : (first (a :: t)).width ≠ 1) (r : Text) :
    first (a :: (t ++ r)) = first (a :: t) := by
  revert h
  unfold first
  dsimp only
  split
  · exact fun h => absurd rfl h
  split
  · rcases t with _ | ⟨b, t⟩
    · exact fun h => absurd rfl h
    · exact fun _ => rfl
  split
  · rcases t with _ | ⟨b, _ | ⟨c, t⟩⟩
    · exact fun h => absurd rfl h
    · exact fun h => absurd rfl h
    · exact fun _ => rfl
  split
  · rcases t with _ | ⟨b, _ | ⟨c, _ | ⟨d, t⟩⟩⟩
    · exact fun h => absurd rfl h
    · exact fun h => absurd rfl h
    · exact fun h => absurd rfl h
    · exact fun _ => rfl
  · exact fun h => absurd rfl h

/-- A rune of one byte is ASCII or a replacement. -/
theorem first_of_width_eq_one {a : UInt8} {t : Text} (h : (first (a :: t)).width = 1) :
    first (a :: t) = invalid ∨ a < 0x80 ∧ first (a :: t) = ⟨a.toNat, 1⟩ := by
  by_cases ha : a < 0x80
  · exact .inr ⟨ha, first_of_ascii ha t⟩
  · left
    revert h
    simp only [first, if_neg ha]
    repeat' split
    all_goals first | exact fun _ => rfl | exact fun h => absurd h (by simp)

/-- A rune does not get shorter by what follows it. -/
theorem width_first_append_le (t r : Text) : (first t).width ≤ (first (t ++ r)).width := by
  cases t with
  | nil => exact Nat.zero_le _
  | cons a t =>
    by_cases hone : (first (a :: t)).width = 1
    · rw [hone]
      exact width_first_pos a (t ++ r)
    · rw [List.cons_append, first_append_of_width_ne_one hone r]

theorem listFrom_eq (skip : Nat) (t : Text) : listFrom skip t = list (t.drop skip) := by
  induction t generalizing skip with
  | nil => cases skip <;> rfl
  | cons b t ih =>
    cases skip with
    | zero => rfl
    | succ skip => exact ih skip

theorem list_cons (b : UInt8) (t : Text) : list (b :: t) =
    (first (b :: t), (b :: t).take (first (b :: t)).width) :: list ((b :: t).drop (first (b :: t)).width) := by
  have hpos := width_first_pos b t
  obtain ⟨w, hw⟩ := Nat.exists_eq_succ_of_ne_zero (Nat.ne_of_gt hpos)
  change _ :: listFrom ((first (b :: t)).width - 1) t = _
  rw [listFrom_eq, hw]
  rfl

theorem Border.drop {m : Nat} (h : Border t (m + n)) : Border (t.drop m) n := by
  intro k hk
  have := h (m + k) (by omega)
  rw [List.drop_drop]
  omega

/-- A border in a source is a border in the line that it is in. -/
theorem Border.line {before line rest : Text} (h : Border (before ++ (line ++ rest)) (before.length + n))
    (hn : n ≤ line.length) : Border line n := by
  have h := h.drop
  rw [List.drop_left] at h
  intro k hk
  have hwidth := width_first_append_le (line.drop k) rest
  rw [← List.drop_append_of_le_length (by omega)] at hwidth
  have := h k hk
  omega

end Rune

/-! ## Units -/

namespace Editor

/-- The units of runes. -/
def unitLength (rs : List (Rune × Text)) : Nat := (rs.map fun r => units r.1).sum

/-- The units of the rune in front; if there is none it is one. -/
def unitsAhead (rs : List (Rune × Text)) : Nat := (rs.head?.map fun r => units r.1).getD 1

theorem units_le_two (r : Rune) : units r ≤ 2 := by
  unfold units
  split <;> omega

/-- A rune has no more units than bytes. -/
theorem units_first_le (b : UInt8) (t : Text) : units (Rune.first (b :: t)) ≤ (Rune.first (b :: t)).width := by
  by_cases hone : (Rune.first (b :: t)).width = 1
  · refine Nat.le_of_eq (Eq.trans (if_pos ?_) hone.symm)
    rcases Rune.first_of_width_eq_one hone with h | ⟨hb, h⟩
    · rw [h]
      decide
    · rw [h]
      exact Nat.lt_trans (UInt8.lt_iff_toNat_lt.1 hb) (by decide)
  · have := Rune.width_first_pos b t
    have := units_le_two (Rune.first (b :: t))
    omega

/-- The runes of a line up to a border. -/
theorem exists_passed {line : Text} {column : Nat} (h : Rune.Border line column) (hcolumn : column ≤ line.length) :
    ∃ before, Rune.list line = before ++ Rune.list (line.drop column) ∧ before.flatMap Prod.snd = line.take column ∧
      passed column (Rune.list line) = (unitLength before, column) ∧ unitLength before ≤ column := by
  induction line using Rune.induction generalizing column with
  | nil =>
    obtain rfl := Nat.le_zero.1 hcolumn
    exact ⟨[], rfl, rfl, rfl, Nat.le_refl 0⟩
  | cons b t ih =>
    rcases Nat.eq_zero_or_pos column with rfl | hpos
    · exact ⟨[], rfl, rfl, by rw [Rune.list_cons, passed, if_pos rfl]; rfl, Nat.le_refl 0⟩
    have hwidth := h 0 hpos
    have hwpos := Rune.width_first_pos b t
    have hunits := units_first_le b t
    rw [List.drop_zero, Nat.zero_add] at hwidth
    generalize hr : Rune.first (b :: t) = r at hwidth hwpos hunits ih
    obtain ⟨column, rfl⟩ := Nat.exists_eq_add_of_le hwidth
    obtain ⟨before, hlist, hbytes, hpassed, hle⟩ := ih h.drop (by rw [List.length_drop]; omega)
    have hsum : unitLength ((r, (b :: t).take r.width) :: before) = unitLength before + units r := by
      rw [unitLength, List.map_cons, List.sum_cons, Nat.add_comm]
      rfl
    refine ⟨(r, (b :: t).take r.width) :: before, ?_, ?_, ?_, by omega⟩
    · rw [Rune.list_cons, hr, hlist, List.drop_drop, List.cons_append]
    · rw [List.flatMap_cons, hbytes, List.take_add]
    · rw [Rune.list_cons, hr, passed, if_neg (by omega), Nat.add_sub_cancel_left, hpassed, hsum, Nat.add_comm r.width]

theorem word_natCast (n : Nat) : word n = UInt32.ofNat n := by
  have hmod : ((n : Int) % Int.pow 2 32).toNat = n % 2 ^ 32 := by
    change ((n : Int) % ((2 ^ 32 : Nat) : Int)).toNat = _
    rw [← Int.natCast_emod, Int.toNat_natCast]
  rw [word, hmod, ← UInt32.toNat_inj, UInt32.toNat_ofNat', UInt32.toNat_ofNat', Nat.mod_mod]

theorem unitWidth_eq (line : Text) (column : Nat) :
    unitWidth line column = unitsAhead (Rune.list (line.drop column)) := by
  unfold unitWidth
  cases line.drop column with
  | nil => rfl
  | cons b t =>
    rw [unitsAhead, Rune.list_cons]
    rfl

theorem locate_line {lines : List Text} {line : Text} {i : Nat} (h : lines[i]? = some line) (column : Nat) :
    locate lines ⟨i + 1, column⟩ =
      (⟨word i, word (if line.length ≤ column then max (unitColumn line column) 0 else unitColumn line column)⟩,
        unitWidth line column) := by
  have hvalid : Place.isValid ⟨i + 1, column⟩ = true := by
    simp [Place.isValid]
    omega
  rw [locate, if_pos hvalid]
  dsimp only
  rw [if_neg (by omega), show ((i : Int) + 1).toNat - 1 =
    i by omega, h, Int.toNat_natCast, show (i : Int) + 1 - 1 = i by omega]

/-- What an editor is told about a place in a line, at a border of its runes. -/
theorem report_of_border {source line : Text} {i column : Nat} (hline : (Text.split 10 source)[i]? = some line)
    (hborder : Rune.Border line column) (hcolumn : column ≤ line.length) {d : Diagnostic}
    (hplace : d.place = ⟨i + 1, column⟩) :
    ∃ before after, Rune.list line = before ++ after ∧ before.flatMap Prod.snd = line.take column ∧
      report source d = ⟨⟨⟨UInt32.ofNat i, UInt32.ofNat (unitLength before)⟩,
        ⟨UInt32.ofNat i, UInt32.ofNat (unitLength before + unitsAhead after)⟩⟩, d.severity = .warning, d.message⟩ ∧
      unitLength before ≤ column := by
  obtain ⟨before, hlist, hbytes, hpassed, hle⟩ := exists_passed hborder hcolumn
  refine ⟨before, _, hlist, hbytes, ?_, hle⟩
  have hunits : unitColumn line column = unitLength before := by
    rw [unitColumn, hpassed]
    dsimp only
    omega
  have hlocate : locate (Text.split 10 source) d.place =
      (⟨UInt32.ofNat i, UInt32.ofNat (unitLength before)⟩, unitsAhead (Rune.list (line.drop column))) := by
    rw [hplace, locate_line hline, hunits, max_eq_left (by omega), ite_self, word_natCast, word_natCast, unitWidth_eq]
  rw [report, hlocate]
  dsimp only
  rw [UInt32.ofNat_add]

end Editor

/-! ## Tokens -/

namespace Token

theorem exists_border_of_inside {source : Text} {t : Token} (ht : t ∈ significant source) {j : Nat}
    (hj : Grammar.Inside t j) :
    ∃ n ≤ source.length, Rune.Border source n ∧ t.span.first.right j = .inSource source n := by
  obtain ⟨before, after, hlex⟩ := List.append_of_mem (List.mem_of_mem_filter ht)
  have htexts : source = before.flatMap text ++ (t.text ++ after.flatMap text) := by
    have hsource : (lex source).flatMap text = source := flatMap_text_lexFrom (Nat.le_refl _)
    rw [← List.flatMap_cons, ← List.flatMap_append, ← hlex, hsource]
  have hfirst := (span_of_lexFrom_eq hlex).1
  rcases hj with rfl | ⟨r, hr, hj⟩
  · refine ⟨(before.flatMap text).length, ?_, border_of_lexFrom_eq hlex, (places_lex hlex).1⟩
    have := congrArg List.length htexts
    rw [List.length_append] at this
    omega
  · have hspelled := significant_spelled source t ht r hr
    have hascii : ∀ b ∈ t.text, b < 0x80 := by
      have hpunctuation : ∀ k ∈ Kind.punctuation, ∀ b ∈ k.label, b < 0x80 := by decide +kernel
      exact hspelled ▸ hpunctuation _ (Grammar.mem_punctuation_of_afterAngle hr)
    have hline : byte '\n' ∉ t.text.take j := fun hmem => by
      refine Grammar.newline_not_mem_of_afterAngle hr ?_
      rw [← hspelled]
      exact List.mem_of_mem_take hmem
    have hsplit : source = (before.flatMap text ++ t.text.take j) ++ (t.text.drop j ++ after.flatMap text) := by
      rw [List.append_assoc, ← List.append_assoc (t.text.take j), List.take_append_drop]
      exact htexts
    refine ⟨(before.flatMap text ++ t.text.take j).length, ?_, ?_, ?_⟩
    · have := congrArg List.length hsplit
      rw [List.length_append] at this
      omega
    · refine Rune.border_of_not_continuation fun b hb => Rune.not_continuation_of_ascii (hascii b ?_)
      rw [hsplit, List.getElem?_append_right (Nat.le_refl _), Nat.sub_self, List.drop_eq_getElem_cons hj] at hb
      rw [← Option.some.inj hb]
      exact List.getElem_mem hj
    · have hlength : (t.text.take j).length = j := by
        rw [List.length_take]
        omega
      conv => rhs; rw [hsplit]
      rw [Position.inSource_append, Position.after_append, ← hfirst, Position.after_eq_right _ hline, hlength]

end Token

namespace Editor

/-- A border of a source is one of the line that it is in. -/
theorem exists_line_of_border {source : Text} {n : Nat} (hn : n ≤ source.length) (h : Rune.Border source n) :
    ∃ (i : Nat) (line : Text) (column : Nat), (Text.split 10 source)[i]? = some line ∧
      (Position.inSource source n).place = ⟨i + 1, column⟩ ∧ column ≤ line.length ∧ Rune.Border line column ∧
      i + line.length ≤ source.length := by
  have hparts := List.take_append_drop n source
  obtain ⟨earlier, hearlier⟩ := Text.afterLast_suffix (byte '\n') (source.take n)
  have hcount : (source.take n).count (byte '\n') ≤ earlier.length := by
    rw [← hearlier, List.count_append, List.count_eq_zero_of_not_mem (Text.separator_not_mem_afterLast _)]
    exact List.count_le_length
  have hline := Text.getElem?_split_append (byte '\n') (source.take n) (source.drop n)
  rw [hparts] at hline
  have hrest := List.takeWhile_append_dropWhile (p := (· ≠ byte '\n')) (l := source.drop n)
  generalize hstart : Text.afterLast (byte '\n') (source.take n) = start at *
  generalize (source.drop n).takeWhile (· ≠ byte '\n') = stop, (source.drop n).dropWhile (· ≠ byte '\n') = rest at *
  have hsource : source = earlier ++ ((start ++ stop) ++ rest) := by
    rw [List.append_assoc, hrest, ← List.append_assoc, hearlier, hparts]
  have hlength : earlier.length + start.length = n := by
    rw [← List.length_append, hearlier, List.length_take, Nat.min_eq_left hn]
  refine ⟨(source.take n).count (byte '\n'), start ++ stop, start.length, hline, ?_, ?_, ?_, ?_⟩
  · rw [Position.place, Position.inSource, hstart]
    push_cast
    rw [Int.add_comm]
  · rw [List.length_append]
    exact Nat.le_add_right _ _
  · rw [← hlength, hsource] at h
    exact h.line (by rw [List.length_append]; exact Nat.le_add_right _ _)
  · have := congrArg List.length hsource
    simp only [List.length_append] at *
    omega

end Editor

end KiteCompiler
