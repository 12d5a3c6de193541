import KiteCompiler.Text.Basic
import Mathlib.Algebra.Order.Ring.Nat
import Mathlib.Data.List.Basic
import Mathlib.Data.List.Induction

/-!
# Texts in pieces

Splitting a text at a separator and joining pieces are inverse to each other as long as the separator is in no piece.
-/

namespace KiteCompiler.Text

variable {separator : UInt8}

theorem split_eq_splitOn (separator : UInt8) (t : Text) : split separator t = t.splitOn separator := by
  induction t with
  | nil => rfl
  | cons b t ih =>
    obtain ⟨piece, pieces, h⟩ := List.exists_cons_of_ne_nil (List.splitOnP_ne_nil (· == separator) t)
    rw [split, ih]
    simp [List.splitOn, List.splitOnP_cons_eq_if_modifyHead, h]

theorem split_ne_nil (separator : UInt8) (t : Text) : split separator t ≠ [] :=
  split_eq_splitOn separator t ▸ List.splitOnP_ne_nil _ t

theorem split_cons_of_ne {b : UInt8} (hb : b ≠ separator) (t : Text) :
    ∃ piece pieces, split separator t = piece :: pieces ∧ split separator (b :: t) = (b :: piece) :: pieces := by
  obtain ⟨piece, pieces, h⟩ := List.exists_cons_of_ne_nil (split_ne_nil separator t)
  exact ⟨piece, pieces, h, by rw [split, if_neg hb, h]⟩

theorem split_separator_cons (t : Text) : split separator (separator :: t) = [] :: split separator t := by
  rw [split, if_pos rfl]

theorem head?_split (t : Text) : (split separator t).head? = some (t.takeWhile (· ≠ separator)) := by
  induction t with
  | nil => rfl
  | cons b t ih =>
    by_cases hb : b = separator
    · subst hb
      rw [split_separator_cons]
      simp
    · obtain ⟨piece, pieces, h, hcons⟩ := split_cons_of_ne hb t
      rw [h] at ih
      rw [hcons]
      simpa [hb] using ih

theorem split_append_separator (t u : Text) :
    split separator (t ++ separator :: u) = split separator t ++ split separator u := by
  simp only [split_eq_splitOn, List.splitOn]
  exact List.splitOnP_append_cons t u (BEq.refl separator)

theorem length_split (t : Text) : (split separator t).length = t.count separator + 1 := by
  induction t with
  | nil => rfl
  | cons b t ih =>
    by_cases hb : b = separator
    · subst hb
      rw [split_separator_cons, List.length_cons, ih, List.count_cons_self]
    · obtain ⟨piece, pieces, h, hcons⟩ := split_cons_of_ne hb t
      rw [hcons, List.count_cons_of_ne hb, ← ih, h]
      rfl

theorem afterLast_concat_separator (t : Text) : afterLast separator (t ++ [separator]) = [] := by simp [afterLast]

theorem afterLast_concat_of_ne {b : UInt8} (hb : b ≠ separator) (t : Text) :
    afterLast separator (t ++ [b]) = afterLast separator t ++ [b] := by simp [afterLast, hb]

theorem afterLast_suffix (separator : UInt8) (t : Text) : afterLast separator t <:+ t := by
  rw [afterLast, ← List.reverse_prefix, List.reverse_reverse]
  exact List.takeWhile_prefix _

theorem separator_not_mem_afterLast (t : Text) : separator ∉ afterLast separator t := by
  intro h
  have := List.all_eq_true.1 List.all_takeWhile _ (List.mem_reverse.1 h)
  simp at this

/-- The piece that goes over the border of two texts. -/
theorem getElem?_split_append (separator : UInt8) (t u : Text) :
    (split separator (t ++ u))[t.count separator]? =
      some (afterLast separator t ++ u.takeWhile (· ≠ separator)) := by
  induction t using List.reverseRecOn generalizing u with
  | nil => rw [List.nil_append, List.count_nil, ← List.head?_eq_getElem?, head?_split]; rfl
  | append_singleton t b ih =>
    rw [List.append_assoc, List.singleton_append]
    by_cases hb : b = separator
    · subst hb
      rw [split_append_separator, afterLast_concat_separator, List.count_append, List.count_singleton_self,
        List.getElem?_append_right (by rw [length_split]), length_split, Nat.sub_self, ← List.head?_eq_getElem?,
        head?_split]
      rfl
    · rw [afterLast_concat_of_ne hb, List.count_append, List.count_singleton, if_neg (by simpa using hb), Nat.add_zero,
        ih]
      simp [hb]

theorem not_mem_of_mem_split {piece t : Text} (h : piece ∈ split separator t) : separator ∉ piece := by
  induction t generalizing piece with
  | nil => rw [List.mem_singleton.1 h]; exact List.not_mem_nil
  | cons b t ih =>
    by_cases hb : b = separator
    · subst hb
      rw [split_separator_cons] at h
      rcases List.mem_cons.1 h with rfl | h
      · exact List.not_mem_nil
      · exact ih h
    · obtain ⟨first, pieces, hsplit, hcons⟩ := split_cons_of_ne hb t
      rw [hsplit] at ih
      rw [hcons] at h
      rcases List.mem_cons.1 h with rfl | h
      · exact List.not_mem_cons_of_ne_of_not_mem (Ne.symm hb) (ih List.mem_cons_self)
      · exact ih (List.mem_cons_of_mem first h)

theorem split_of_not_mem {t : Text} (h : separator ∉ t) : split separator t = [t] := by
  rw [split_eq_splitOn, List.splitOn_eq_singleton h]

theorem join_cons (separator t : Text) (ts : List Text) :
    Text.join separator (t :: ts) = t ++ ts.flatMap (separator ++ ·) := by
  unfold Text.join
  induction ts generalizing t with
  | nil => simp
  | cons u ts ih => rw [List.intercalate_cons_cons, ih, List.flatMap_cons, List.append_assoc, List.append_assoc]

theorem split_join {ts : List Text} (h : ts ≠ []) :
    split separator (join [separator] ts) = ts.flatMap (split separator) := by
  obtain ⟨t, ts, rfl⟩ := List.exists_cons_of_ne_nil h
  rw [join_cons]
  clear h
  induction ts generalizing t with
  | nil => simp
  | cons u ts ih =>
    rw [List.flatMap_cons, List.singleton_append, List.cons_append, split_append_separator, ih]
    rfl

theorem flatMap_split {ts : List Text} (h : ∀ t ∈ ts, separator ∉ t) : ts.flatMap (split separator) = ts := by
  induction ts with
  | nil => rfl
  | cons t ts ih =>
    obtain ⟨ht, hts⟩ := List.forall_mem_cons.1 h
    rw [List.flatMap_cons, split_of_not_mem ht, ih hts, List.singleton_append]

theorem join_split (t : Text) : join [separator] (split separator t) = t := by
  rw [split_eq_splitOn, join, List.intercalate_splitOn]

theorem replace_join {new : UInt8} {ts : List Text} (h : ∀ t ∈ ts, separator ∉ t) :
    replace separator new (join [separator] ts) = join [new] ts := by
  have hsame {t : Text} (ht : separator ∉ t) : replace separator new t = t := by
    refine (List.map_congr_left fun b hb => if_neg ?_).trans (List.map_id t)
    rintro rfl
    exact ht hb
  cases ts with
  | nil => rfl
  | cons t ts =>
    obtain ⟨ht, hts⟩ := List.forall_mem_cons.1 h
    have hrest : replace separator new (ts.flatMap ([separator] ++ ·)) = ts.flatMap ([new] ++ ·) := by
      rw [replace, List.map_flatMap]
      refine List.flatMap_congr fun u hu => ?_
      simpa [replace] using hsame (hts u hu)
    rw [join_cons, join_cons, replace, List.map_append, ← replace, ← replace, hsame ht, hrest]

end KiteCompiler.Text
