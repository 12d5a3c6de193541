import KiteCompiler.Tree
import Mathlib.Data.List.Forall2

/-!
# Labelled trees: induction, maps and relations

What holds of a tree whenever it holds of the subtrees right below its root holds of all trees (`Tree.induction`).
`Tree.map` changes the labels; `Tree.Rel` lifts a relation between labels to trees of the same shape.
-/

namespace KiteCompiler

variable {α β : Type}

/-! ## Related lists -/

theorem Forall₂.isEmpty_eq {r : α → β → Prop} {as : List α} {bs : List β} (h : List.Forall₂ r as bs) :
    as.isEmpty = bs.isEmpty := by
  cases h <;> rfl

theorem Forall₂.map_eq {γ : Type} {f : α → γ} {f' : β → γ} {as : List α} {bs : List β}
    (h : List.Forall₂ (fun a b => f a = f' b) as bs) : as.map f = bs.map f' := by
  induction h with
  | nil => rfl
  | cons hab _ ih => rw [List.map_cons, List.map_cons, hab, ih]

theorem Forall₂.getLast? {r : α → β → Prop} {as : List α} {bs : List β} (h : List.Forall₂ r as bs) :
    Option.Rel r as.getLast? bs.getLast? := by
  induction h with
  | nil => exact .none
  | @cons _ _ as bs hab _ ih =>
    rw [List.getLast?_cons, List.getLast?_cons]
    generalize as.getLast? = x, bs.getLast? = y at ih
    cases ih with
    | some h => exact .some h
    | none => exact .some hab

theorem Forall₂.getElem? {r : α → β → Prop} {as : List α} {bs : List β} (h : List.Forall₂ r as bs) (i : Nat) :
    Option.Rel r as[i]? bs[i]? := by
  induction h generalizing i with
  | nil => exact .none
  | cons hab _ ih =>
    cases i with
    | zero => exact .some hab
    | succ i => simpa using ih i

theorem Forall₂.set {r : α → β → Prop} {as : List α} {bs : List β} {a : α} {b : β} (h : List.Forall₂ r as bs)
    (hab : r a b) (i : Nat) : List.Forall₂ r (as.set i a) (bs.set i b) := by
  induction h generalizing i with
  | nil => exact .nil
  | cons hc hrest ih =>
    cases i with
    | zero => exact .cons hab hrest
    | succ i => exact .cons hc (ih i)

/-- Sorting keeps related lists related if the orders agree on related elements. -/
theorem Forall₂.mergeSort {r : α → β → Prop} {le : α → α → Bool} {le' : β → β → Bool} {as : List α} {bs : List β}
    (hle : ∀ a a' b b', r a b → r a' b' → le a a' = le' b b') (h : List.Forall₂ r as bs) :
    List.Forall₂ r (as.mergeSort le) (bs.mergeSort le') := by
  -- both lists are projections of one list of pairs, and so are the sorted ones
  have hzip : ∀ x ∈ as.zip bs, r x.1 x.2 := fun _ hx => List.forall₂_zip h hx
  have hfst := List.map_fst_zip (Nat.le_of_eq h.length_eq)
  have hsnd := List.map_snd_zip (Nat.le_of_eq h.length_eq.symm)
  have hfst' : ((as.zip bs).mergeSort fun x y => le x.1 y.1).map Prod.fst = as.mergeSort le := by
    rw [List.map_mergeSort (s := le) fun _ _ _ _ => rfl, hfst]
  have hsnd' : ((as.zip bs).mergeSort fun x y => le x.1 y.1).map Prod.snd = bs.mergeSort le' := by
    rw [List.map_mergeSort (s := le') fun x hx y hy => hle _ _ _ _ (hzip x hx) (hzip y hy), hsnd]
  rw [← hfst', ← hsnd', List.forall₂_map_left_iff, List.forall₂_map_right_iff, List.forall₂_same]
  exact fun x hx => hzip x (List.mem_mergeSort.1 hx)

namespace Tree

mutual

theorem induction {P : Tree α → Prop} (step : ∀ a ts, (∀ t ∈ ts, P t) → P (node a ts)) : (t : Tree α) → P t
  | node a ts => step a ts (inductionAll step ts)

theorem inductionAll {P : Tree α → Prop} (step : ∀ a ts, (∀ t ∈ ts, P t) → P (node a ts)) :
    (ts : List (Tree α)) → ∀ t ∈ ts, P t
  | [] => fun _ h => nomatch h
  | t :: ts => List.forall_mem_cons.2 ⟨induction step t, inductionAll step ts⟩

end

/-! ## Subtrees -/

mutual

/-- All subtrees, the tree itself first. -/
def subtrees : Tree α → List (Tree α)
  | node a ts => node a ts :: subtreesAll ts

/-- The subtrees of the trees of a list. -/
def subtreesAll : List (Tree α) → List (Tree α)
  | [] => []
  | t :: ts => subtrees t ++ subtreesAll ts

end

theorem subtreesAll_eq_flatMap (ts : List (Tree α)) : subtreesAll ts = ts.flatMap subtrees := by
  induction ts with
  | nil => rfl
  | cons t ts ih => rw [subtreesAll, List.flatMap_cons, ih]

@[simp] theorem subtrees_node (a : α) (ts : List (Tree α)) :
    (node a ts).subtrees = node a ts :: ts.flatMap subtrees := by
  rw [subtrees, subtreesAll_eq_flatMap]

/-- All subtrees have a property. -/
def Every (P : Tree α → Prop) (t : Tree α) : Prop := ∀ u ∈ t.subtrees, P u

theorem every_node {P : Tree α → Prop} {a : α} {ts : List (Tree α)} :
    (node a ts).Every P ↔ P (node a ts) ∧ ∀ t ∈ ts, t.Every P := by
  simp only [Every, subtrees_node, List.forall_mem_cons, List.mem_flatMap]
  exact and_congr_right fun _ => ⟨fun h t ht u hu => h u ⟨t, ht, hu⟩, fun h u ⟨t, ht, hu⟩ => h t ht u hu⟩

theorem Every.root {P : Tree α → Prop} {t : Tree α} (h : t.Every P) : P t := by
  cases t
  exact (every_node.1 h).1

theorem Every.child {P : Tree α → Prop} {t c : Tree α} (h : t.Every P) (hc : c ∈ t.children) : c.Every P := by
  cases t
  exact (every_node.1 h).2 c hc

theorem Every.below {P : Tree α → Prop} {t u : Tree α} (h : t.Every P) (hu : u ∈ t.subtrees) : u.Every P := by
  induction t using Tree.induction with
  | step a ts ih =>
    rw [subtrees_node, List.mem_cons, List.mem_flatMap] at hu
    rcases hu with rfl | ⟨c, hc, hu⟩
    · exact h
    · exact ih c hc (h.child hc) hu

theorem Every.mono {P Q : Tree α → Prop} (hPQ : ∀ t, P t → Q t) {t : Tree α} (h : t.Every P) : t.Every Q :=
  fun u hu => hPQ u (h u hu)

/-! ## Maps -/

/-- The tree with its labels changed. -/
def map (f : α → β) : Tree α → Tree β := fold fun a below => node (f a) below

@[simp] theorem map_node (f : α → β) (a : α) (ts : List (Tree α)) :
    (node a ts).map f = node (f a) (ts.map (Tree.map f)) := fold_node _ _ _

@[simp] theorem preorder_node (a : α) (ts : List (Tree α)) : (node a ts).preorder = a :: ts.flatMap preorder := by
  simp only [preorder, fold_node, List.flatMap]

/-- The nodes in preorder are the roots of the subtrees. -/
theorem map_label_subtrees (t : Tree α) : t.subtrees.map label = t.preorder := by
  induction t using induction with
  | step a ts ih =>
    rw [subtrees_node, preorder_node, List.map_cons, List.map_flatMap]
    exact congrArg (List.cons _) (List.flatMap_congr ih)

theorem preorder_map (f : α → β) (t : Tree α) : (t.map f).preorder = t.preorder.map f := by
  induction t using induction with
  | step a ts ih =>
    rw [map_node, preorder_node, preorder_node, List.map_cons, List.flatMap_map, List.map_flatMap]
    exact congrArg (List.cons _) (List.flatMap_congr ih)

/-! ## Relations -/

mutual

/-- Trees of the same shape with related labels. -/
def Rel (r : α → β → Prop) : Tree α → Tree β → Prop
  | node a ts, node b us => r a b ∧ RelAll r ts us

/-- Lists of related trees. -/
def RelAll (r : α → β → Prop) : List (Tree α) → List (Tree β) → Prop
  | [], [] => True
  | t :: ts, u :: us => Rel r t u ∧ RelAll r ts us
  | _, _ => False

end

theorem relAll_iff {r : α → β → Prop} {ts : List (Tree α)} {us : List (Tree β)} :
    RelAll r ts us ↔ List.Forall₂ (Rel r) ts us := by
  induction ts generalizing us with
  | nil => cases us <;> simp [RelAll]
  | cons t ts ih => cases us <;> simp [RelAll, ih]

theorem rel_iff {r : α → β → Prop} {t : Tree α} {u : Tree β} :
    Rel r t u ↔ r t.label u.label ∧ List.Forall₂ (Rel r) t.children u.children := by
  cases t
  cases u
  simp [Rel, relAll_iff, label, children]

theorem Rel.mono {r q : α → β → Prop} (hq : ∀ a b, r a b → q a b) {t : Tree α} {u : Tree β} (h : Rel r t u) :
    Rel q t u := by
  induction t using induction generalizing u with
  | step a ts ih =>
    obtain ⟨hlabel, hchildren⟩ := rel_iff.1 h
    refine rel_iff.2 ⟨hq _ _ hlabel, List.forall₂_iff_get.2 ⟨hchildren.length_eq, fun i hi hi' => ?_⟩⟩
    exact ih _ (List.getElem_mem hi) (hchildren.get hi hi')

theorem Rel.refl {r : α → α → Prop} (hr : ∀ a, r a a) (t : Tree α) : Rel r t t := by
  induction t using induction with
  | step a ts ih => exact rel_iff.2 ⟨hr a, List.forall₂_same.2 ih⟩

theorem Rel.left {r : α → β → Prop} {q : α → α → Prop} (hq : ∀ a b, r a b → q a a) {t : Tree α} {u : Tree β}
    (h : Rel r t u) : Rel q t t := by
  induction t using induction generalizing u with
  | step a ts ih =>
    obtain ⟨hlabel, hchildren⟩ := rel_iff.1 h
    refine rel_iff.2 ⟨hq _ _ hlabel, List.forall₂_same.2 fun t ht => ?_⟩
    obtain ⟨i, hi, rfl⟩ := List.getElem_of_mem ht
    exact ih _ ht (hchildren.get hi (hchildren.length_eq ▸ hi))

/-- Related trees have related folds. -/
theorem Rel.fold {γ δ : Type} {r : α → β → Prop} {q : γ → δ → Prop} {f : α → List γ → γ} {f' : β → List δ → δ}
    (step : ∀ a b xs ys, r a b → List.Forall₂ q xs ys → q (f a xs) (f' b ys)) {t : Tree α} {u : Tree β}
    (h : Rel r t u) : q (t.fold f) (u.fold f') := by
  induction t using induction generalizing u with
  | step a ts ih =>
    obtain ⟨b, us⟩ := u
    obtain ⟨hlabel, hchildren⟩ := rel_iff.1 h
    rw [fold_node, fold_node]
    refine step _ _ _ _ hlabel (List.forall₂_map_left_iff.2 (List.forall₂_map_right_iff.2 ?_))
    exact List.forall₂_iff_get.2 ⟨hchildren.length_eq, fun i hi hi' => ih _ (List.get_mem ..) (hchildren.get hi hi')⟩

end Tree

end KiteCompiler
