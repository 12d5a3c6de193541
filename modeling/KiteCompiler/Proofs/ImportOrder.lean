import KiteCompiler.Compilation.Basic
import KiteCompiler.Proofs.Validation

/-!
# The order of imports

A name is looked up once, and what it is looked up for is decided by the first import of it. So the order of imports
matters exactly if the search path answers two imports of one name differently: a package import and a type import of
the same name ask different questions (`messages_perm_iff`).
-/

namespace KiteCompiler

namespace ImportDecl

variable {disk : Disk} {s : SearchPath} {is js : List ImportDecl}

/-- The search path gives the same answer to all imports that look up the same name. -/
def SameAnswers (disk : Disk) (s : SearchPath) (is : List ImportDecl) : Prop :=
  ∀ i ∈ is, ∀ j ∈ is, i.lookupName = j.lookupName → i.problem? disk s = j.problem? disk s

/-- The messages about imports after the given visits. -/
def messagesAfter (disk : Disk) (s : SearchPath) (v : Visits) (is : List ImportDecl) : List Text :=
  (warningsAfter disk s v is).map (·.message)

/-- The messages about the imports of a file. -/
def messages (disk : Disk) (s : SearchPath) (is : List ImportDecl) : List Text := (warnings disk s is).map (·.message)

end ImportDecl

/-! ## Visits -/

namespace Visits

@[simp]
theorem contains_visit (v : Visits) (name other : Text) :
    (v.visit name).contains other = (decide (name = other) || v.contains other) := by
  unfold visit
  split
  · rename_i h
    by_cases hname : name = other
    · simp [← hname, h]
    · simp [hname]
  · simp [contains, Bool.or_comm, eq_comm]

end Visits

namespace ImportDecl

/-! ## One import after another -/

variable {v w : Visits} {i j : ImportDecl}

/-- Only the set of visited names counts. -/
theorem messagesAfter_congr (h : ∀ name, v.contains name = w.contains name) (is : List ImportDecl) :
    messagesAfter disk s v is = messagesAfter disk s w is := by
  unfold messagesAfter
  induction is generalizing v w with
  | nil => rfl
  | cons i is ih =>
    have hvisit (name : Text) : (v.visit i.lookupName).contains name = (w.visit i.lookupName).contains name := by
      simp [h name]
    simp only [warningsAfter, h i.lookupName]
    split
    · exact ih h
    · rw [List.map_append, List.map_append, ih hvisit]

theorem messagesAfter_cons_of_visited (h : v.contains i.lookupName = true) :
    messagesAfter disk s v (i :: is) = messagesAfter disk s v is := by
  simp [messagesAfter, warningsAfter, h]

theorem messagesAfter_cons_of_new (h : v.contains i.lookupName = false) :
    messagesAfter disk s v (i :: is) =
      (i.problem? disk s).toList ++ messagesAfter disk s (v.visit i.lookupName) is := by
  have hwarning : (i.warning? disk s).toList.map (·.message) = (i.problem? disk s).toList := by
    cases hproblem : i.problem? disk s <;> simp [warning?, hproblem]
  simp [messagesAfter, warningsAfter, h, hwarning]

/-- Of two imports of one name the second is passed over. -/
theorem messagesAfter_cons_cons (hv : v.contains i.lookupName = false) (h : i.lookupName = j.lookupName) :
    messagesAfter disk s v (i :: j :: is) =
      (i.problem? disk s).toList ++ messagesAfter disk s (v.visit i.lookupName) is := by
  rw [messagesAfter_cons_of_new hv, messagesAfter_cons_of_visited (by simp [h])]

/-- Two neighbours can change places unless they ask different questions about one name. -/
theorem messagesAfter_swap (v : Visits) (is : List ImportDecl)
    (h : i.lookupName = j.lookupName → i.problem? disk s = j.problem? disk s) :
    (messagesAfter disk s v (j :: i :: is)).Perm (messagesAfter disk s v (i :: j :: is)) := by
  by_cases hi : v.contains i.lookupName = true
  · -- the name of `i` is known, so `i` says nothing at either place
    rw [messagesAfter_cons_of_visited hi]
    by_cases hj : v.contains j.lookupName = true
    · rw [messagesAfter_cons_of_visited hj, messagesAfter_cons_of_visited hi, messagesAfter_cons_of_visited hj]
    · rw [Bool.not_eq_true] at hj
      rw [messagesAfter_cons_of_new hj, messagesAfter_cons_of_new hj, messagesAfter_cons_of_visited (by simp [hi])]
  · rw [Bool.not_eq_true] at hi
    by_cases hname : i.lookupName = j.lookupName
    · rw [messagesAfter_cons_cons hi hname, messagesAfter_cons_cons (hname ▸ hi) hname.symm, h hname, hname]
    · by_cases hj : v.contains j.lookupName = true
      · rw [messagesAfter_cons_of_visited hj, messagesAfter_cons_of_new hi, messagesAfter_cons_of_new hi,
          messagesAfter_cons_of_visited (by simp [hj])]
      · -- both are looked up, and afterwards the same names are visited
        rw [Bool.not_eq_true] at hj
        rw [messagesAfter_cons_of_new hi, messagesAfter_cons_of_new hj,
          messagesAfter_cons_of_new (by simp [hi, Ne.symm hname]), messagesAfter_cons_of_new (by simp [hj, hname]),
          messagesAfter_congr (w := (v.visit i.lookupName).visit j.lookupName) (by simp [Bool.or_left_comm])]
        exact List.perm_append_comm_assoc _ _ _

/-! ## All imports -/

theorem SameAnswers.of_perm (h : SameAnswers disk s is) (hperm : js.Perm is) : SameAnswers disk s js :=
  fun i hi j hj => h i (hperm.subset hi) j (hperm.subset hj)

theorem SameAnswers.messagesAfter_perm (h : SameAnswers disk s is) (hperm : js.Perm is) (v : Visits) :
    (messagesAfter disk s v js).Perm (messagesAfter disk s v is) := by
  induction hperm generalizing v with
  | nil => exact .refl _
  | @cons i js is hperm ih =>
    have htail : SameAnswers disk s is := fun i hi j hj =>
      h i (List.mem_cons_of_mem _ hi) j (List.mem_cons_of_mem _ hj)
    cases hvisited : v.contains i.lookupName with
    | true =>
      rw [messagesAfter_cons_of_visited hvisited, messagesAfter_cons_of_visited hvisited]
      exact ih htail v
    | false =>
      rw [messagesAfter_cons_of_new hvisited, messagesAfter_cons_of_new hvisited]
      exact (ih htail _).append_left _
  | swap i j is => exact messagesAfter_swap v is (h i (by simp) j (by simp))
  | trans hjs hks ihjs ihks => exact (ihjs (h.of_perm hks) v).trans (ihks h v)

/-- Two answers to imports of one name show in the messages when one or the other import is the first of all. -/
theorem problem?_eq_of_swap (h : i.lookupName = j.lookupName)
    (hperm : (messages disk s (i :: j :: is)).Perm (messages disk s (j :: i :: is))) :
    i.problem? disk s = j.problem? disk s := by
  change (messagesAfter disk s .none (i :: j :: is)).Perm (messagesAfter disk s .none (j :: i :: is)) at hperm
  rw [messagesAfter_cons_cons rfl h, messagesAfter_cons_cons rfl h.symm, h, List.perm_append_right_iff] at hperm
  cases hi : i.problem? disk s <;> cases hj : j.problem? disk s <;> simp_all

end ImportDecl

/-! ## Files -/

/-- Validation does not look at imports. -/
theorem Validation.validate_imports_perm (file : Text) (u : CompilationUnit) (is : List ImportDecl) :
    (validate file { u with imports := is }).Perm (expected file u) :=
  (List.mergeSort_perm _ _).trans (flatMap_foundAt_tree file { u with imports := is })

theorem ImportDecl.severity_of_mem_warningsAfter {disk : Disk} {s : SearchPath} {v : Visits} {is : List ImportDecl}
    {d : Diagnostic} (h : d ∈ warningsAfter disk s v is) : d.severity = .warning := by
  induction is generalizing v with
  | nil => simp [warningsAfter] at h
  | cons i is ih =>
    rw [warningsAfter] at h
    split at h
    · exact ih h
    · rcases List.mem_append.1 h with h | h
      · obtain ⟨m, -, rfl⟩ := Option.map_eq_some_iff.1 (Option.mem_toList.1 h)
        rfl
      · exact ih h

/-- If the order of imports does not change the messages, it does not change how bad the findings are. -/
theorem Compilation.severities_findings_perm {disk : Disk} {s : SearchPath} {u : CompilationUnit} {is : List ImportDecl}
    (output file : Text) (warningsAsErrors : Bool)
    (h : (ImportDecl.messages disk s is).Perm (ImportDecl.messages disk s u.imports)) :
    ((findings disk ⟨output, warningsAsErrors, some s⟩ file { u with imports := is }).map (·.severity)).Perm
      ((findings disk ⟨output, warningsAsErrors, some s⟩ file u).map (·.severity)) := by
  have hseverities (js : List ImportDecl) : (ImportDecl.warnings disk s js).map (·.severity) =
      List.replicate (ImportDecl.messages disk s js).length .warning := by
    refine List.eq_replicate_iff.2 ⟨by simp [ImportDecl.messages], fun severity hmem => ?_⟩
    obtain ⟨d, hd, rfl⟩ := List.mem_map.1 hmem
    exact ImportDecl.severity_of_mem_warningsAfter hd
  have hfound :
      ((Validation.validate file { u with imports := is } ++ ImportDecl.warnings disk s is).map (·.severity)).Perm
        ((Validation.validate file u ++ ImportDecl.warnings disk s u.imports).map (·.severity)) := by
    rw [List.map_append, List.map_append, hseverities, hseverities, h.length_eq]
    have hvalid := (Validation.validate_imports_perm file u is).trans
      (Validation.validate_imports_perm file u u.imports).symm
    exact (hvalid.map _).append_right _
  cases warningsAsErrors with
  | false => exact hfound
  | true =>
    -- promoted, all of them are errors, and there are as many of them
    change ((Diagnostic.promote _).map _).Perm ((Diagnostic.promote _).map _)
    simpa [Diagnostic.promote, Function.comp_def, List.map_const'] using hfound.length_eq

theorem Diagnostic.hasErrors_of_severities_perm {ds es : List Diagnostic}
    (h : (ds.map (·.severity)).Perm (es.map (·.severity))) : hasErrors ds = hasErrors es := by
  have hcount (ds : List Diagnostic) : count ds .error = (ds.map (·.severity)).count .error := by
    simp [count, List.count, List.countP_map, Function.comp_def]
  rw [hasErrors, hasErrors, hcount, hcount, h.count_eq]

namespace ImportDecl

/-- **The order of imports does not matter** for the messages about them if and only if the search path gives the same
answer to all imports that look up the same name; and then it does not matter either for whether the file is
rejected. -/
theorem messages_perm_iff (disk : Disk) (s : SearchPath) (u : CompilationUnit) :
    ((∀ is, is.Perm u.imports → (messages disk s is).Perm (messages disk s u.imports)) ↔
      SameAnswers disk s u.imports) ∧
    (SameAnswers disk s u.imports → ∀ is, is.Perm u.imports → ∀ output file warningsAsErrors,
      Diagnostic.hasErrors
          (Compilation.findings disk ⟨output, warningsAsErrors, some s⟩ file { u with imports := is }) =
        Diagnostic.hasErrors (Compilation.findings disk ⟨output, warningsAsErrors, some s⟩ file u)) := by
  refine ⟨⟨fun h i hi j hj hname => ?_, fun h is hperm => h.messagesAfter_perm hperm .none⟩,
    fun h is hperm output file warningsAsErrors => ?_⟩
  · by_cases hij : i = j
    · rw [hij]
    · -- the two imports in front of all others, in both orders
      classical
      have hj' : j ∈ u.imports.erase i := (List.mem_erase_of_ne (Ne.symm hij)).2 hj
      have hfront : u.imports.Perm (i :: j :: (u.imports.erase i).erase j) :=
        (List.perm_cons_erase hi).trans ((List.perm_cons_erase hj').cons i)
      refine problem?_eq_of_swap hname ((h _ hfront.symm).trans (h _ ?_).symm)
      exact (List.Perm.swap i j _).trans hfront.symm
  · refine Diagnostic.hasErrors_of_severities_perm
      (Compilation.severities_findings_perm output file warningsAsErrors ?_)
    exact h.messagesAfter_perm hperm .none

/-- `import p.A; import p.A.*;`, where there is a type `p.A` and so no package of that name. Only if the package is
imported first it is missed, and only then the file is rejected if warnings are errors. -/
theorem messages_of_type_and_package :
    let disk := Disk.empty []
    let s : SearchPath := ⟨["lib"], [⟨"p.A", .kite, "lib/p/A.kite", none⟩]⟩
    let name (line : Int) : QualifiedName := ⟨⟨line, 7⟩, ["p", "A"]⟩
    let type : ImportDecl := ⟨⟨1, 0⟩, false, name 1, false⟩
    let package : ImportDecl := ⟨⟨2, 0⟩, false, name 2, true⟩
    let header : Ast .header := .header .nil []
    let u : CompilationUnit := ⟨⟨1, 0⟩, ⟨.none, .nil, none⟩, [type, package],
      .classDecl ⟨3, 0⟩ header .nil "B" ⟨3, 6⟩ .absent .nil .nil⟩
    let rejected (is : List ImportDecl) : Bool :=
      Diagnostic.hasErrors (Compilation.findings disk ⟨[], true, some s⟩ "B.kite" { u with imports := is })
    [package, type].Perm u.imports ∧
    messages disk s u.imports = [] ∧
    messages disk s [package, type] = [Text.ofString "package p.A not found on the search path"] ∧
    rejected u.imports = false ∧ rejected [package, type] = true := by
  intro disk s name type package header u rejected
  have hexpected : Validation.expected "B.kite" u = [] := by
    have hfindings : u.subterms.flatMap (fun p => Validation.findingsAt p.2) = [] := by
      have hpieces : u.subterms.flatMap (fun p => Validation.findingsAt p.2) =
          Validation.findingsAt u.type ++ Validation.findingsAt header := rfl
      rw [hpieces]
      change (Validation.typeParameterErrors .nil ++ Validation.twinErrors _ _ (List.map _ (Ast.toList .nil))) ++ _ = []
      simp only [Validation.typeParameterErrors, Ast.toList]
      rfl
    rw [Validation.expected, hfindings, List.append_nil]
    decide +kernel
  have hvalid (is : List ImportDecl) : Validation.validate "B.kite" { u with imports := is } = [] :=
    List.perm_nil.1 ((Validation.validate_imports_perm "B.kite" u is).trans (.of_eq hexpected))
  refine ⟨.swap type package [], by decide +kernel, by decide +kernel, ?_, ?_⟩
  all_goals
    simp only [rejected, Compilation.findings, hvalid]
    decide +kernel

end ImportDecl

end KiteCompiler
