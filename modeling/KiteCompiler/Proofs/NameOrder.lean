import KiteCompiler.Text.Basic
import Mathlib.Data.List.Induction

/-!
# The order of names

Byte-wise dictionary order is a total order in which the texts with a common beginning stand together. Sorting by it and
leaving out repetitions of neighbours gives each text once, in strictly ascending order (`pairwise_eraseRepsBy`).
-/

namespace List

variable {α : Type*} (r : α → α → Bool)

theorem eraseRepsBy_loop (a : α) (l done : List α) :
    eraseRepsBy.loop r a l done = done.reverse ++ eraseRepsBy r (a :: l) := by
  have hloop (l : List α) : ∀ a done, eraseRepsBy.loop r a l done = done.reverse ++ eraseRepsBy.loop r a l [] := by
    induction l with
    | nil => simp [eraseRepsBy.loop]
    | cons b l ih =>
      intro a done
      rw [eraseRepsBy.loop, eraseRepsBy.loop]
      cases r a b with
      | true => exact ih a done
      | false => simp [ih b (a :: done), ih b [a]]
  exact hloop l a done

theorem eraseRepsBy_cons_cons (a b : α) (l : List α) :
    eraseRepsBy r (a :: b :: l) = if r a b then eraseRepsBy r (a :: l) else a :: eraseRepsBy r (b :: l) := by
  rw [eraseRepsBy, eraseRepsBy.loop]
  cases r a b with
  | true => rfl
  | false => simp [eraseRepsBy_loop]

theorem eraseRepsBy_sublist (l : List α) : eraseRepsBy r l <+ l := by
  induction l using twoStepInduction with
  | nil => exact Sublist.refl _
  | singleton a => exact Sublist.refl _
  | cons_cons a b l _ ih =>
    rw [eraseRepsBy_cons_cons]
    split
    · exact (ih a).trans ((sublist_cons_self b l).cons_cons a)
    · exact (ih b).cons_cons a

theorem mem_eraseRepsBy {r : α → α → Bool} (hr : ∀ a b, r a b = true → a = b) {x : α} {l : List α} :
    x ∈ eraseRepsBy r l ↔ x ∈ l := by
  induction l using twoStepInduction with
  | nil => rfl
  | singleton a => rfl
  | cons_cons a b l _ ih =>
    rw [eraseRepsBy_cons_cons]
    split
    · next hab => rw [ih a, hr a b hab]; simp
    · rw [mem_cons, ih b, ← mem_cons]

end List

namespace KiteCompiler

namespace Text

theorem precedes_iff : {a b : Text} → (precedes a b = true ↔ a ≤ b)
  | [], _ => by simp [precedes]
  | _ :: _, [] => by simp [precedes]
  | x :: a, y :: b => by
    rw [precedes, List.cons_le_cons_iff]
    by_cases hxy : x = y
    · simp [hxy, precedes_iff, UInt8.lt_irrefl]
    · simp [hxy]

theorem precedes_trans {a b c : Text} (hab : precedes a b = true) (hbc : precedes b c = true) : precedes a c = true :=
  precedes_iff.2 (List.le_trans (precedes_iff.1 hab) (precedes_iff.1 hbc))

theorem precedes_total (a b : Text) : (precedes a b || precedes b a) = true := by
  simpa [precedes_iff] using List.le_total a b

theorem precedes_refl (a : Text) : precedes a a = true := precedes_iff.2 (List.le_refl a)

theorem precedes_antisymm {a b : Text} (hab : precedes a b = true) (hba : precedes b a = true) : a = b :=
  List.le_antisymm (precedes_iff.1 hab) (precedes_iff.1 hba)

/-- What stands between the beginning of a text and the text begins in the same way. -/
theorem prefix_of_precedes : {start a b : Text} → precedes start a = true → precedes a b = true → start <+: b →
    start <+: a
  | [], _, _, _, _, _ => List.nil_prefix
  | _ :: _, [], _, ha, _, _ => by simp [precedes] at ha
  | _ :: _, _ :: _, [], _, _, hb => by simp at hb
  | x :: start, y :: a, z :: b, ha, hab, hb => by
    obtain ⟨rfl, hstart⟩ := List.cons_prefix_cons.1 hb
    simp only [precedes] at ha hab
    by_cases hxy : x = y
    · subst hxy
      simp only [if_true] at ha hab
      exact List.cons_prefix_cons.2 ⟨rfl, prefix_of_precedes ha hab hstart⟩
    · simp only [hxy, Ne.symm hxy, if_false, decide_eq_true_eq] at ha hab
      exact absurd ha (UInt8.lt_asymm hab)

/-- Strictly before another text. -/
def Before (a b : Text) : Prop := precedes a b = true ∧ a ≠ b

instance (a b : Text) : Decidable (Before a b) := inferInstanceAs (Decidable (_ ∧ _))

theorem Before.asymm {a b : Text} (h : Before a b) : ¬Before b a := fun h' => h.2 (precedes_antisymm h.1 h'.1)

/-- Of a sorted list, one element is left for each key. -/
theorem pairwise_eraseRepsBy {α : Type*} {key : α → Text} {r : α → α → Bool} (hr : ∀ a b, r a b = true ↔ key a = key b)
    {l : List α} (h : l.Pairwise fun a b => precedes (key a) (key b) = true) :
    (l.eraseRepsBy r).Pairwise fun a b => Before (key a) (key b) := by
  induction l using List.twoStepInduction with
  | nil => exact .nil
  | singleton a => exact List.pairwise_singleton _ a
  | cons_cons a b l _ ih =>
    rw [List.eraseRepsBy_cons_cons]
    split
    · exact ih a (h.sublist ((List.sublist_cons_self b l).cons_cons a))
    · next hab =>
      obtain ⟨ha, hb⟩ := List.pairwise_cons.1 h
      refine List.pairwise_cons.2 ⟨fun c hc => ?_, ih b hb⟩
      have hc := (List.eraseRepsBy_sublist r (b :: l)).subset hc
      refine ⟨ha c hc, fun hac => hab ((hr a b).2 ?_)⟩
      -- `b` stands between `a` and `c`
      have hbc : precedes (key b) (key c) = true := by
        rcases List.mem_cons.1 hc with rfl | hc
        · exact precedes_refl _
        · exact List.rel_of_pairwise_cons hb hc
      exact precedes_antisymm (ha b List.mem_cons_self) (hac ▸ hbc)

theorem pairwise_mergeSort {α : Type*} (key : α → Text) (l : List α) :
    (l.mergeSort fun a b => precedes (key a) (key b)).Pairwise fun a b => precedes (key a) (key b) = true := by
  apply List.pairwise_mergeSort
  · exact fun _ _ _ => precedes_trans
  · exact fun a b => precedes_total (key a) (key b)

/-- A list in strictly ascending order is known by its elements. -/
theorem eq_of_pairwise_before {α : Type*} {key : α → Text} {l m : List α}
    (hl : l.Pairwise fun a b => Before (key a) (key b)) (hm : m.Pairwise fun a b => Before (key a) (key b))
    (h : ∀ a, a ∈ l ↔ a ∈ m) : l = m := by
  have hnodup {l : List α} (hl : l.Pairwise fun a b => Before (key a) (key b)) : l.Nodup :=
    hl.imp fun hab => fun heq => hab.2 (congrArg key heq)
  exact ((List.perm_ext_iff_of_nodup (hnodup hl) (hnodup hm)).2 h).eq_of_pairwise
    (fun a b _ _ hab hba => absurd hba hab.asymm) hl hm

end Text

end KiteCompiler
