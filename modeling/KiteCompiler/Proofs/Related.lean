import KiteCompiler.Cst.Basic
import KiteCompiler.Proofs.Trees

/-!
# Corresponding values

Two computations are compared by saying what it means for values of each type to correspond (`Relates`), with an index
for what they are compared by. That two given values correspond (`Related`) is found by instance search: functions
correspond if they take corresponding values to corresponding ones, so it passes through applications, and values of a
`Plain` type correspond only to themselves. What is bound in both computations is a `Pair` of corresponding values.
-/

namespace KiteCompiler

variable {ι : Type} {i : ι} {α β : Type}

/-- What it means for values of this type that they correspond. -/
class Relates (i : ι) (α : Type) where
  rel : α → α → Prop

/-- Values that correspond. -/
class Related (i : ι) [Relates i α] (a a' : α) : Prop where
  rel : Relates.rel i a a'

/-- Two values that correspond. -/
structure Pair (i : ι) (α : Type) [Relates i α] where
  left : α
  right : α
  rel : Relates.rel i left right

/-- Values of this type correspond only to themselves. -/
class Plain (α : Type) : Prop

/-- Questions with the same answer. -/
class Same (i : ι) (c c' : Prop) : Prop where
  iff : c ↔ c'

instance : Plain Bool := ⟨⟩

instance : Plain Unit := ⟨⟩

instance : Plain Nat := ⟨⟩

instance : Plain Int := ⟨⟩

instance : Plain Text := ⟨⟩

instance : Plain Token.Kind := ⟨⟩

instance : Plain Cst.Kind := ⟨⟩

instance [Plain α] : Relates i α := ⟨Eq⟩

section

variable [Relates i α] [Relates i β]

instance : Relates i (List α) := ⟨List.Forall₂ (Relates.rel i)⟩

instance : Relates i (Option α) := ⟨Option.Rel (Relates.rel i)⟩

instance : Relates i (α × β) := ⟨fun x x' => Relates.rel i x.1 x'.1 ∧ Relates.rel i x.2 x'.2⟩

instance : Relates i (α ⊕ β) := ⟨Sum.LiftRel (Relates.rel i) (Relates.rel i)⟩

instance : Relates i (α → β) := ⟨fun f f' => ∀ a a', Relates.rel i a a' → Relates.rel i (f a) (f' a')⟩

end

/-- All values of this type correspond to themselves. -/
class Simple (i : ι) (α : Type) [Relates i α] : Prop where
  self (a : α) : Relates.rel i a a

instance [Plain α] : Simple i α := ⟨fun _ => rfl⟩

instance [Plain α] [Relates i β] [Simple i β] : Simple i (α → β) := by
  refine ⟨fun f a a' h => ?_⟩
  obtain rfl : a = a' := h
  exact Simple.self (f a)

section

variable [Relates i α] [Simple i α]

instance : Simple i (List α) := ⟨fun _ => List.forall₂_same.2 fun a _ => Simple.self a⟩

instance : Simple i (Option α) := ⟨fun o => match o with | some a => .some (Simple.self a) | none => .none⟩

end

/-- The function takes corresponding values to corresponding ones. -/
abbrev Respects (i : ι) [Relates i α] (f : α) : Prop := Related i f f

namespace Related

variable [Relates i α] [Relates i β] {a a' : α} {as as' bs bs' : List α} {o o' : Option α}

instance pair (x : Pair i α) : Related i x.left x.right := ⟨x.rel⟩

instance self [Simple i α] (a : α) : Related i a a := ⟨Simple.self a⟩

/-- Corresponding functions of corresponding values. -/
instance (priority := low) app {f f' : α → β} [hf : Related i f f'] [h : Related i a a'] : Related i (f a) (f' a') :=
  ⟨hf.rel _ _ h.rel⟩

instance nil : Related i ([] : List α) [] := ⟨.nil⟩

instance cons [h : Related i a a'] [hs : Related i as as'] : Related i (a :: as) (a' :: as') := ⟨.cons h.rel hs.rel⟩

instance append [h : Related i as as'] [h' : Related i bs bs'] : Related i (as ++ bs) (as' ++ bs') :=
  ⟨List.rel_append h.rel h'.rel⟩

instance isEmpty [h : Related i as as'] : Related i as.isEmpty as'.isEmpty := ⟨Forall₂.isEmpty_eq h.rel⟩

instance none : Related i (none : Option α) .none := ⟨.none⟩

instance some [h : Related i a a'] : Related i (some a) (.some a') := ⟨.some h.rel⟩

/-- Both are there, and correspond, or neither is. -/
@[elab_as_elim] theorem option_cases {P : Option α → Option α → Prop} (h : Relates.rel i o o') (hnone : P .none .none)
    (hsome : ∀ x : Pair i α, P (.some x.left) (.some x.right)) : P o o' := by
  cases h with
  | some h => exact hsome ⟨_, _, h⟩
  | none => exact hnone

instance toList [h : Related i o o'] : Related i o.toList o'.toList := option_cases h.rel nil fun _ => cons

instance isSome [h : Related i o o'] : Related i o.isSome o'.isSome := option_cases h.rel (self _) fun _ => self _

instance isNone [h : Related i o o'] : Related i o.isNone o'.isNone := option_cases h.rel (self _) fun _ => self _

instance getD [h : Related i o o'] [ha : Related i a a'] : Related i (o.getD a) (o'.getD a') :=
  option_cases h.rel ha fun _ => pair _

section Maps

variable {f f' : α → β} [hf : ∀ x : Pair i α, Related i (f x.left) (f' x.right)]

instance mapOption [h : Related i o o'] : Related i (o.map f) (o'.map f') :=
  option_cases h.rel none fun x => @some _ _ _ _ _ _ (hf x)

instance mapList [h : Related i as as'] : Related i (as.map f) (as'.map f') := by
  refine ⟨?_⟩
  induction h.rel with
  | nil => exact .nil
  | cons ha _ ih => exact .cons (hf ⟨_, _, ha⟩).rel ih

end Maps

instance filterMap {f f' : α → Option β} [hf : Related i f f'] [h : Related i as as'] :
    Related i (as.filterMap f) (as'.filterMap f') := by
  refine ⟨?_⟩
  induction h.rel with
  | nil => exact .nil
  | @cons a a' _ _ ha _ ih =>
    have ho := hf.rel _ _ ha
    rw [List.filterMap_cons, List.filterMap_cons]
    generalize f a = o, f' a' = o' at ho
    cases ho with
    | some hb => exact .cons hb ih
    | none => exact ih

instance find? {p p' : α → Bool} [hp : ∀ x : Pair i α, Related i (p x.left) (p' x.right)] [h : Related i as as'] :
    Related i (as.find? p) (as'.find? p') := by
  refine ⟨?_⟩
  induction h.rel with
  | nil => exact .none
  | cons ha _ ih =>
    have hpa : p _ = p' _ := (hp ⟨_, _, ha⟩).rel
    simp only [List.find?_cons, hpa]
    split
    · exact .some ha
    · exact ih

instance : Respects i (@Option.some α) := ⟨fun _ _ => .some⟩

instance : Respects i (@Sum.inl α β) := ⟨fun _ _ => .inl⟩

instance : Respects i (@Sum.inr α β) := ⟨fun _ _ => .inr⟩

instance : Respects i (@Sum.getLeft? α β) := ⟨by rintro _ _ (h | h); exacts [.some h, .none]⟩

instance : Respects i (@Sum.getRight? α β) := ⟨by rintro _ _ (h | h); exacts [.none, .some h]⟩

instance tuple {b b' : β} [ha : Related i a a'] [hb : Related i b b'] : Related i (a, b) (a', b') := ⟨ha.rel, hb.rel⟩

instance fst {x x' : α × β} [h : Related i x x'] : Related i x.1 x'.1 := ⟨h.rel.1⟩

instance snd {x x' : α × β} [h : Related i x x'] : Related i x.2 x'.2 := ⟨h.rel.2⟩

instance ite {b b' : α} {c c' : Prop} [Decidable c] [Decidable c'] [hc : Same i c c'] [ha : Related i a a']
    [hb : Related i b b'] : Related i (if c then a else b) (if c' then a' else b') := by
  by_cases h : c
  · rwa [if_pos h, if_pos (hc.iff.1 h)]
  · rwa [if_neg h, if_neg (mt hc.iff.2 h)]

end Related

namespace Same

variable {c c' d d' : Prop}

instance refl (c : Prop) : Same i c c := ⟨.rfl⟩

instance not [hc : Same i c c'] : Same i (¬c) (¬c') := ⟨not_congr hc.iff⟩

instance eq [Plain α] {a a' b b' : α} [ha : Related i a a'] [hb : Related i b b'] : Same i (a = b) (a' = b') :=
  ⟨by rw [show a = a' from ha.rel, show b = b' from hb.rel]⟩

end Same

instance {c c' : Prop} [Decidable c] [Decidable c'] [h : Same i c c'] : Related i (decide c) (decide c') :=
  ⟨decide_eq_decide.2 h.iff⟩

end KiteCompiler
