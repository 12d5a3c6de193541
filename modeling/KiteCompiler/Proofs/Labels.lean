import KiteCompiler.Java.Lowering

/-!
# Labels of loops

`continue` with a label goes on with the loop that the label stands on, so the label of a loop has to stand on a loop in
Java too. It does unless the head of the loop declares several variables that cannot share a declaration: these are
declared before the loop in a block around it, and it is the block that gets the label (`labeled_loop_iff`).
-/

namespace KiteCompiler

/-- A loop of Java. -/
def Java.isLoop : Java .stmt → Bool
  | whileStmt .. | doStmt .. | forStmt .. | forEachStmt .. => true
  | _ => false

namespace Ast

/-- A loop. -/
def isLoop : Ast .stmt → Bool
  | whileStmt .. | doStmt .. | forStmt .. | forEachStmt .. => true
  | _ => false

/-- The dimensions behind the name of a variable. -/
def ownDims : Ast .declarator → List (Ast .dim)
  | declarator _ _ dims _ => dims.toList

/-- One declaration suffices for the variables: there is only one of them, or none has dimensions of its own. -/
def ShareDeclaration (vs : List (Ast .declarator)) : Prop := vs.length = 1 ∨ vs ≠ [] ∧ ∀ v ∈ vs, v.ownDims = []

/-- What the head of the statement declares can stay there. -/
def KeepsHead : Ast .stmt → Prop
  | forStmt _ (present (variableDecl _ _ _ vs)) .. => ShareDeclaration vs.toList
  | _ => True

theorem lower_eq_map {c : Category} : (as : Ast (.list c)) → as.lower = as.toList.map lower
  | nil => by
    change [] = _
    simp [toList]
  | cons a as => by
    change a.lower :: as.lower = _
    simp [toList, lower_eq_map as]

theorem lower_declarator_fst (v : Ast .declarator) : v.lower.1 = v.ownDims.map lower := by
  cases v
  exact lower_eq_map _

end Ast

namespace Java

variable {v : Java .declarator} {dims : List (Java .dim)} {vs : List (List (Java .dim) × Java .declarator)}

/-- The first variable joins the group of the next one, or is alone in its group. -/
theorem declarationGroups_cons (dims : List (Java .dim)) (v : Java .declarator)
    (vs : List (List (Java .dim) × Java .declarator)) :
    (∃ group groups, dims = [] ∧ declarationGroups vs = ([], group) :: groups ∧
      declarationGroups ((dims, v) :: vs) = ([], v :: group) :: groups) ∨
    (dims = [] → ∀ g ∈ (declarationGroups vs).head?, g.1 ≠ []) ∧
      declarationGroups ((dims, v) :: vs) = (dims, [v]) :: declarationGroups vs := by
  rcases dims with _ | ⟨d, dims⟩
  · rcases hgroups : declarationGroups vs with _ | ⟨⟨_ | ⟨d, ds⟩, group⟩, groups⟩
    · exact .inr ⟨by simp, by simp [declarationGroups, hgroups]⟩
    · exact .inl ⟨group, groups, rfl, rfl, by simp [declarationGroups, hgroups]⟩
    · exact .inr ⟨by simp, by simp [declarationGroups, hgroups]⟩
  · exact .inr ⟨by simp, by simp [declarationGroups]⟩

/-- The first group has the dimensions of the first variable. -/
theorem head?_declarationGroups (vs : List (List (Java .dim) × Java .declarator)) :
    (declarationGroups vs).head?.map Prod.fst = vs.head?.map Prod.fst := by
  cases vs with
  | nil => simp [declarationGroups]
  | cons v vs =>
    obtain ⟨dims, v⟩ := v
    rcases declarationGroups_cons dims v vs with ⟨group, groups, rfl, -, h⟩ | ⟨-, h⟩ <;> simp [h]

theorem declarationGroups_eq_nil : declarationGroups vs = [] ↔ vs = [] := by
  have h := congrArg Option.isSome (head?_declarationGroups vs)
  cases vs with
  | nil => simp [declarationGroups]
  | cons v vs => rcases hgroups : declarationGroups (v :: vs) with _ | _ <;> simp [hgroups] at h ⊢

theorem length_declarationGroups :
    (declarationGroups vs).length = 1 ↔ vs.length = 1 ∨ vs ≠ [] ∧ ∀ v ∈ vs, v.1 = [] := by
  induction vs with
  | nil => simp [declarationGroups]
  | cons v vs ih =>
    obtain ⟨dims, v⟩ := v
    have hhead := head?_declarationGroups vs
    rcases declarationGroups_cons dims v vs with ⟨group, groups, rfl, hgroups, h⟩ | ⟨halone, h⟩
    · -- the next variable has no dimensions either, so one group is left if it was one before
      obtain ⟨w, ws, rfl⟩ : ∃ w ws, vs = w :: ws := by
        cases vs with
        | nil => simp [declarationGroups] at hgroups
        | cons w ws => exact ⟨w, ws, rfl⟩
      have hw : w.1 = [] := by simpa [hgroups] using hhead.symm
      have hlength : (declarationGroups (([], v) :: w :: ws)).length = (declarationGroups (w :: ws)).length := by
        rw [h, hgroups, List.length_cons, List.length_cons]
      rw [hlength, ih]
      cases ws <;> simp [hw]
    · -- the variable is alone, so there is one group if there are no others
      rw [h, List.length_cons, Nat.add_eq_right, List.length_eq_zero_iff, declarationGroups_eq_nil]
      cases vs with
      | nil => simp
      | cons w ws =>
        have hw : dims = [] → w.1 ≠ [] := by
          intro hdims hw
          rcases hgroups : declarationGroups (w :: ws) with _ | ⟨g, gs⟩
          · simp [hgroups] at hhead
          · exact halone hdims g (by simp [hgroups]) (by simpa [hgroups, hw] using hhead)
        simp only [List.length_cons, List.forall_mem_cons]
        grind

/-- Only with a single declaration the loop itself is left. -/
theorem length_eq_one_of_isLoop {ds : List (Java .variableDecl)} {loop : Java (.option .variableDecl) → Java .stmt}
    (h : (forLoop ds loop).isLoop = true) : ds.length = 1 := by
  match ds with
  | [] => exact nomatch h
  | [_] => rfl
  | _ :: _ :: _ => exact nomatch h

end Java

namespace Ast

/-- The variables of a declaration need one declaration in Java if and only if they can share one. -/
theorem length_declarations (h : Java .header) (t : Java .type) (vs : Ast (.list .declarator)) :
    (Java.declarations h t vs.lower).length = 1 ↔ ShareDeclaration vs.toList := by
  rw [Java.declarations, List.length_map, Java.length_declarationGroups, lower_eq_map]
  simp [ShareDeclaration, lower_declarator_fst]

/-- What is no loop does not become one. -/
theorem isLoop_of_lower {s : Ast .stmt} {loop : Java .stmt} (hloop : loop.isLoop = true) (h : s.lower = [loop]) :
    s.isLoop = true := by
  cases s with
  | whileStmt | doStmt | forStmt | forEachStmt => rfl
  | ofVariables d =>
    change d.lower.map Java.ofVariables = [loop] at h
    have hmem : loop ∈ d.lower.map Java.ofVariables := h ▸ List.mem_singleton_self loop
    obtain ⟨d, -, rfl⟩ := List.mem_map.1 hmem
    exact nomatch hloop
  | _ =>
    rw [← (List.cons.inj h).1] at hloop
    exact nomatch hloop

/-- **The label of a loop stands on the loop itself** if and only if what the head of the loop declares can stay
there. -/
theorem labeled_loop_iff (place : Place) (label : Text) (body : Ast .stmt) :
    (∃ loop : Java .stmt, loop.isLoop = true ∧ body.lower = [loop] ∧
      (labeledStmt place label body).lower = [.labeledStmt label loop]) ↔ body.isLoop = true ∧ body.KeepsHead := by
  have hlabel (s : Java .stmt) (h : body.lower = [s]) :
      (labeledStmt place label body).lower = [.labeledStmt label s] := by
    change [Java.labeledStmt label (.single body.lower)] = _
    rw [h]
    rfl
  constructor
  · rintro ⟨loop, hloop, hlower, -⟩
    refine ⟨isLoop_of_lower hloop hlower, ?_⟩
    cases body with
    | forStmt p declaration start condition step body =>
      cases declaration with
      | absent => trivial
      | present d =>
        cases d with
        | variableDecl q h t vs =>
          rw [← (List.cons.inj hlower).1] at hloop
          exact (length_declarations h.lower t.lower vs).1 (Java.length_eq_one_of_isLoop hloop)
    | _ => trivial
  · rintro ⟨hloop, hkeeps⟩
    suffices ∃ loop : Java .stmt, loop.isLoop = true ∧ body.lower = [loop] from
      this.imp fun loop h => ⟨h.1, h.2, hlabel loop h.2⟩
    cases body with
    | whileStmt | doStmt | forEachStmt => exact ⟨_, rfl, rfl⟩
    | forStmt p declaration start condition step body =>
      cases declaration with
      | absent => exact ⟨_, rfl, rfl⟩
      | present d =>
        cases d with
        | variableDecl q h t vs =>
          obtain ⟨d, hd⟩ := List.length_eq_one_iff.1 ((length_declarations h.lower t.lower vs).2 hkeeps)
          refine ⟨.forStmt (.present d) (.ofList []) (.ofOption condition.lower) (.ofList step.lower)
            (.single body.lower), rfl, ?_⟩
          exact congrArg (fun ds => [Java.forLoop ds fun d => .forStmt d (.ofList []) (.ofOption condition.lower)
            (.ofList step.lower) (.single body.lower)]) hd
    | _ => exact nomatch hloop

/-- `label: for (int i, j[];;) continue label;`: in Java the label stands on a block. -/
theorem labeled_block_of_two_declarations :
    let type : Ast .type := primitive .none nil "int"
    let i : Ast .declarator := declarator .none "i" nil absent
    let j : Ast .declarator := declarator .none "j" (cons (dim .none nil) nil) absent
    let start : Ast (.variableDecl .localVariable) := variableDecl .none (header nil []) type (cons i (cons j nil))
    let loop := forStmt .none (present start) nil absent nil (continueStmt .none "label")
    loop.isLoop = true ∧ ¬∃ javaLoop : Java .stmt, javaLoop.isLoop = true ∧ loop.lower = [javaLoop] ∧
      (labeledStmt .none "label" loop).lower = [.labeledStmt "label" javaLoop] := by
  refine ⟨rfl, ?_⟩
  rintro ⟨loop, hloop, hlower, -⟩
  rw [← (List.cons.inj hlower).1] at hloop
  exact nomatch hloop

end Ast

end KiteCompiler
