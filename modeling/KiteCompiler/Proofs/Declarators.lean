import Mathlib.Data.List.Chain
import KiteCompiler.Proofs.Labels
import KiteCompiler.Proofs.Lowering

/-!
# Sharing out declarators

The variables of one declaration are shared out among declarations of Java, since there a variable has no dimensions of
its own. `Division` says how, without the loop that does it: the variables stay in order, one with dimensions is alone,
and neighbours without dimensions stay together. The type of a declaration is the written type in the dimensions of its
variables (`variableDecl_shared_out`).
-/

namespace KiteCompiler.Ast

/-- The variable without its dimensions: its name and its initial value. -/
def bare : Ast .declarator → Java .declarator
  | declarator _ n _ value => .declarator n (.ofOption value.lower)

/-- Variables in consecutive groups, one for each declaration of Java. -/
structure Division (vs : List (Ast .declarator)) (groups : List (List (Ast .declarator))) : Prop where
  flatten : groups.flatten = vs
  nonempty : ∀ g ∈ groups, g ≠ []
  /-- A variable with dimensions of its own is alone. -/
  alone : ∀ g ∈ groups, ∀ v ∈ g, v.ownDims ≠ [] → g = [v]
  /-- Of two neighbours in different groups, one has dimensions of its own. -/
  apart : groups.IsChain fun g g' => ∀ v ∈ g.getLast?, ∀ w ∈ g'.head?, v.ownDims ≠ [] ∨ w.ownDims ≠ []

namespace Division

variable {v w : Ast .declarator} {vs g : List (Ast .declarator)} {gs : List (List (Ast .declarator))}

theorem nil : Division [] [] := ⟨rfl, by simp, by simp, .nil⟩

/-- A group without dimensions in front takes one more variable without dimensions. -/
theorem join (h : Division vs ((w :: g) :: gs)) (hv : v.ownDims = []) (hw : w.ownDims = []) :
    Division (v :: vs) ((v :: w :: g) :: gs) := by
  obtain ⟨hflatten, hnonempty, halone, hapart⟩ := h
  have hplain : ∀ u ∈ w :: g, u.ownDims = [] := by
    intro u hu
    by_contra hdims
    obtain ⟨rfl, -⟩ := List.cons.inj (halone _ (.head _) u hu hdims)
    exact hdims hw
  refine ⟨congrArg (v :: ·) hflatten, ?_, ?_, ?_⟩
  · rintro g' (_ | ⟨_, hg'⟩)
    · exact List.cons_ne_nil _ _
    · exact hnonempty g' (.tail _ hg')
  · rintro g' (_ | ⟨_, hg'⟩) u hu hdims
    · rcases List.mem_cons.1 hu with rfl | hu
      · exact absurd hv hdims
      · exact absurd (hplain u hu) hdims
    · exact halone g' (.tail _ hg') u hu hdims
  · cases hapart with
    | singleton => exact .singleton _
    | cons_cons hnext hrest => exact .cons_cons (by rwa [List.getLast?_cons_cons]) hrest

/-- A variable starts a group of its own in front of one with which it cannot share a declaration. -/
theorem start (h : Division vs gs) (hv : v.ownDims = [] → ∀ w ∈ vs.head?, w.ownDims ≠ []) :
    Division (v :: vs) ([v] :: gs) := by
  obtain ⟨hflatten, hnonempty, halone, hapart⟩ := h
  refine ⟨congrArg (v :: ·) hflatten, ?_, ?_, ?_⟩
  · exact List.forall_mem_cons.2 ⟨List.cons_ne_nil _ _, hnonempty⟩
  · refine List.forall_mem_cons.2 ⟨?_, halone⟩
    intro u hu _
    rw [List.mem_singleton.1 hu]
  · refine List.isChain_cons.2 ⟨?_, hapart⟩
    intro g hg u hu w hw
    obtain rfl : v = u := Option.some.inj hu
    have hhead : w ∈ vs.head? := by
      rw [← hflatten]
      obtain ⟨gs, rfl⟩ := List.head?_eq_some_iff.1 hg
      obtain ⟨g, rfl⟩ := List.head?_eq_some_iff.1 hw
      exact rfl
    by_cases hdims : v.ownDims = []
    · exact .inr (hv hdims w hhead)
    · exact .inl hdims

end Division

theorem lower_declarator (v : Ast .declarator) : v.lower = (v.ownDims.map lower, v.bare) :=
  Prod.ext (lower_declarator_fst v) (by cases v; rfl)

/-- The groups of Java are those of a division, each with the dimensions of its variables. -/
theorem exists_division (vs : List (Ast .declarator)) : ∃ groups, Division vs groups ∧
    Java.declarationGroups (vs.map lower) = groups.map fun g => ((g.flatMap ownDims).map lower, g.map bare) := by
  induction vs with
  | nil => exact ⟨[], .nil, by simp [Java.declarationGroups]⟩
  | cons v vs ih =>
    obtain ⟨groups, hdivision, hgroups⟩ := ih
    rw [List.map_cons, lower_declarator]
    rcases Java.declarationGroups_cons (v.ownDims.map lower) v.bare (vs.map lower) with
      ⟨group, rest, hv, hrest, h⟩ | ⟨halone, h⟩
    · rw [hgroups] at hrest
      obtain ⟨g, gs, rfl, hg, hgs⟩ := List.map_eq_cons_iff.1 hrest
      obtain ⟨w, g, rfl⟩ := List.exists_cons_of_ne_nil (hdivision.nonempty g (.head _))
      obtain ⟨hdims, rfl⟩ := Prod.mk.inj hg
      have hw : w.ownDims = [] := (List.append_eq_nil_iff.1 (List.map_eq_nil_iff.1 hdims)).1
      refine ⟨_, hdivision.join (List.map_eq_nil_iff.1 hv) hw, ?_⟩
      have hall : ((v :: w :: g).flatMap ownDims).map lower = [] := by
        rw [List.flatMap_cons, List.map_append, hv, hdims, List.append_nil]
      rw [h, ← hgs, ← hall]
      rfl
    · have hstart : v.ownDims = [] → ∀ w ∈ vs.head?, w.ownDims ≠ [] := by
        intro hv w hw hdims
        obtain ⟨g, hg, hfst⟩ : ∃ g, (Java.declarationGroups (vs.map lower)).head? = some g ∧ g.1 = [] := by
          rw [← Option.map_eq_some_iff, Java.head?_declarationGroups, List.head?_map, hw]
          simp [lower_declarator_fst, hdims]
        exact halone (by rw [hv, List.map_nil]) g hg hfst
      refine ⟨_, hdivision.start hstart, ?_⟩
      rw [h, hgroups, List.map_cons, List.flatMap_singleton]
      rfl

end KiteCompiler.Ast
