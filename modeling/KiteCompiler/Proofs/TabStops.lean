import KiteCompiler.Diagnostic.Excerpt
import KiteCompiler.Proofs.Pieces

/-!
# Tab stops

In an excerpt every byte of the line has its `Shown` cell: a tab as many spaces as lead to the next tab stop, any other
byte itself. A line that is cut off is shown in the cells of the bytes that are left (`Shown.take`), so the caret stands
behind the cells of all bytes before its column.
-/

namespace KiteCompiler.Excerpt

/-- The cells in which the bytes of a line are shown, if it stands behind `piece`, the bytes since the last tab, and
this piece starts in `column`. -/
inductive Shown (width : Text → Nat) : Nat → Text → Text → List Text → Prop
  | nil {column : Nat} {piece : Text} : Shown width column piece [] []
  | byte {column : Nat} {piece line : Text} {cells : List Text} {b : UInt8} (hb : b ≠ Text.byte '\t')
      (h : Shown width column (piece ++ [b]) line cells) : Shown width column piece (b :: line) ([b] :: cells)
  | tab {column n : Nat} {piece line : Text} {cells : List Text} (hpos : 1 ≤ n) (hle : n ≤ tabStop)
      (hstop : tabStop ∣ column + width piece + n) (h : Shown width (column + width piece + n) [] line cells) :
      Shown width column piece (Text.byte '\t' :: line) (Text.spaces n :: cells)

variable {width : Text → Nat} {column : Nat} {piece line : Text} {cells : List Text}

theorem exists_shown (width : Text → Nat) (column : Nat) (piece line : Text) :
    ∃ cells, Shown width column piece line cells := by
  induction line generalizing column piece with
  | nil => exact ⟨[], .nil⟩
  | cons b line ih =>
    by_cases hb : b = Text.byte '\t'
    · subst hb
      have hmod := Nat.mod_lt (column + width piece) (show 0 < tabStop by decide)
      obtain ⟨cells, h⟩ := ih (column + width piece + (tabStop - (column + width piece) % tabStop)) []
      refine ⟨_, .tab (by omega) (Nat.sub_le _ _) ?_ h⟩
      unfold tabStop
      omega
    · obtain ⟨cells, h⟩ := ih column (piece ++ [b])
      exact ⟨_, .byte hb h⟩

namespace Shown

/-- The pieces of a line are expanded to its cells. -/
theorem expandPieces_split (h : Shown width column piece line cells) (hpiece : Text.byte '\t' ∉ piece) :
    expandPieces width column (Text.split (Text.byte '\t') (piece ++ line)) = piece ++ cells.flatten := by
  induction h with
  | nil => rw [List.append_nil, Text.split_of_not_mem hpiece]; exact (List.append_nil _).symm
  | @byte _ piece line cells b hb _ ih =>
    have happend : piece ++ b :: line = piece ++ [b] ++ line := by simp
    rw [happend, ih (by simpa [hpiece] using Ne.symm hb)]
    simp
  | @tab column n piece line cells hpos hle hstop _ ih =>
    obtain ⟨next, rest, hsplit⟩ := List.exists_cons_of_ne_nil (Text.split_ne_nil (Text.byte '\t') line)
    have hn : tabStop - (column + width piece) % tabStop = n := by
      unfold tabStop at hle hstop ⊢
      omega
    rw [Text.split_append_separator, Text.split_of_not_mem hpiece, hsplit, List.singleton_append, expandPieces,
      ← hsplit]
    · rw [hn, List.append_assoc, List.flatten_cons]
      exact congrArg _ (congrArg _ (ih List.not_mem_nil))
    · exact List.cons_ne_nil next rest

theorem expandTabs_eq (h : Shown width 0 [] line cells) : expandTabs width line = cells.flatten :=
  h.expandPieces_split List.not_mem_nil

/-- The first bytes of a line are shown in its first cells. -/
theorem take (h : Shown width column piece line cells) (n : Nat) :
    Shown width column piece (line.take n) (cells.take n) := by
  induction h generalizing n with
  | nil => rw [List.take_nil, List.take_nil]; exact .nil
  | byte hb _ ih =>
    cases n with
    | zero => exact .nil
    | succ n => exact .byte hb (ih n)
  | tab hpos hle hstop _ ih =>
    cases n with
    | zero => exact .nil
    | succ n => exact .tab hpos hle hstop (ih n)

theorem tab_not_mem (h : Shown width column piece line cells) : Text.byte '\t' ∉ cells.flatten := by
  induction h with
  | nil => exact List.not_mem_nil
  | byte hb _ ih => exact List.not_mem_cons_of_ne_of_not_mem (Ne.symm hb) ih
  | tab _ _ _ _ ih =>
    rw [List.flatten_cons, List.mem_append, not_or]
    exact ⟨fun hmem => absurd (List.eq_of_mem_replicate hmem) (by decide), ih⟩

end Shown

/-- **The caret stands under its character.** A text is expanded to the beginning of what it is expanded to with more
behind it, and without a tab; the excerpt consists of the cells of the bytes before any column, whose width is that of
the column, and those of the other bytes. -/
theorem excerpt_aligned (width : Text → Nat) (line rest : Text) :
    expandTabs width line <+: expandTabs width (line ++ rest) ∧ Text.byte '\t' ∉ expandTabs width line ∧
      ∃ cells, Shown width 0 [] line cells ∧ ∀ column : Int,
        expandTabs width line = (cells.take column.toNat).flatten ++ (cells.drop column.toNat).flatten ∧
        columnWidth width line column = width (cells.take column.toNat).flatten := by
  obtain ⟨cells, h⟩ := exists_shown width 0 [] (line ++ rest)
  have hline : Shown width 0 [] line (cells.take line.length) := by simpa using h.take line.length
  refine ⟨?_, hline.expandTabs_eq ▸ hline.tab_not_mem, _, hline, fun column => ⟨?_, ?_⟩⟩
  · rw [h.expandTabs_eq, hline.expandTabs_eq]
    exact ⟨(cells.drop line.length).flatten, by rw [← List.flatten_append, List.take_append_drop]⟩
  · rw [hline.expandTabs_eq, ← List.flatten_append, List.take_append_drop]
  · rw [columnWidth, (hline.take column.toNat).expandTabs_eq]

end KiteCompiler.Excerpt
