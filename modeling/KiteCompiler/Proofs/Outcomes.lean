import KiteCompiler.Compilation.Basic
import KiteCompiler.Proofs.Readability

/-!
# How a compilation ends

A source is accepted with its Java syntax, or rejected with diagnostics of which one at least is an error. There is a
third end: where an object of a primitive type is created, no abstract syntax can be read off the tree, and the
compilation fails without a diagnostic (`compile_ends_iff`).
-/

namespace KiteCompiler

theorem Diagnostic.hasErrors_iff {ds : List Diagnostic} : hasErrors ds = true ↔ ∃ d ∈ ds, d.severity = .error := by
  simp [hasErrors, count, List.countP_pos_iff]

namespace Compilation

namespace Result

/-- There is Java syntax, and no error. -/
structure Accepts (r : Result) : Prop where
  failure : r.failure = none
  sound : ∀ d ∈ r.diagnostics, d.severity ≠ .error
  java : r.java.isSome

/-- The source is blamed: the failure carries the diagnostics, one of which is an error, and there is no Java syntax. -/
structure Rejects (r : Result) : Prop where
  failure : r.failure = some (.rejected r.file r.diagnostics)
  error : ∃ d ∈ r.diagnostics, d.severity = .error
  java : r.java = none

/-- Nobody is blamed: the tree cannot be read, and there are neither diagnostics nor Java syntax. -/
structure Stalls (r : Result) : Prop where
  failure : ∃ cause, r.failure = some (.malformed r.file cause)
  diagnostics : r.diagnostics = []
  java : r.java = none

variable {r : Result}

theorem Accepts.not_rejects (h : r.Accepts) : ¬r.Rejects :=
  fun hrejects => nomatch h.failure.symm.trans hrejects.failure

theorem Stalls.not_accepts (h : r.Stalls) : ¬r.Accepts := by
  intro haccepts
  obtain ⟨cause, hcause⟩ := h.failure
  exact nomatch haccepts.failure.symm.trans hcause

theorem Stalls.not_rejects (h : r.Stalls) : ¬r.Rejects := by
  intro hrejects
  obtain ⟨cause, hcause⟩ := h.failure
  exact nomatch hrejects.failure.symm.trans hcause

end Result

variable (disk : Disk) (options : Options) (file : Text) {source : Text}

/-- A source with syntax errors is rejected with all of them. -/
theorem rejects_of_errors (h : (Grammar.parseUnit source).errors ≠ []) :
    (compile disk options file source).Rejects := by
  unfold compile analyze
  generalize Grammar.parseUnit source = parsed at h ⊢
  simp only [List.isEmpty_iff, h, if_false]
  obtain ⟨e, he⟩ := List.exists_mem_of_ne_nil _ h
  exact ⟨rfl, ⟨_, List.mem_map_of_mem he, rfl⟩, rfl⟩

section Parsed

variable (h : (Grammar.parseUnit source).errors = [])

include h

/-- A source whose syntax can be read is accepted or rejected, as its findings are. -/
theorem ends_of_unit {u : CompilationUnit} (hu : CompilationUnit.ofCst (Grammar.parseUnit source).tree = .ok u) :
    (compile disk options file source).Accepts ∨ (compile disk options file source).Rejects := by
  unfold compile analyze
  generalize Grammar.parseUnit source = parsed at h hu ⊢
  simp only [h, hu, List.isEmpty_nil, if_true]
  split
  · next herror => exact .inr ⟨rfl, Diagnostic.hasErrors_iff.1 herror, rfl⟩
  · next hsound => exact .inl ⟨rfl, fun d hd herror => hsound (Diagnostic.hasErrors_iff.2 ⟨d, hd, herror⟩), rfl⟩

theorem stalls_of_malformed {cause : Malformed}
    (hcause : CompilationUnit.ofCst (Grammar.parseUnit source).tree = .error cause) :
    (compile disk options file source).Stalls := by
  unfold compile analyze
  generalize Grammar.parseUnit source = parsed at h hcause ⊢
  simp only [h, hcause, List.isEmpty_nil, if_true]
  exact ⟨⟨cause, rfl⟩, rfl, rfl⟩

/-- Without syntax errors, the creation of a primitive object decides whether the source gets as far as its findings. -/
theorem reading_parsed :
    ((∃ cause : Malformed, CompilationUnit.ofCst (Grammar.parseUnit source).tree = .error cause) ↔
      Grammar.CreatesPrimitives (Grammar.parseUnit source).tree) ∧
    ((∃ u, CompilationUnit.ofCst (Grammar.parseUnit source).tree = .ok u) ↔
      ¬Grammar.CreatesPrimitives (Grammar.parseUnit source).tree) :=
  Grammar.reading_cases (fun _ => Ast.sound_of_ofCst (Grammar.bare_parse Grammar.compilationUnit source))
    (Grammar.fits_parse h).reads (Grammar.sound_iff h)

end Parsed

/-- The source has no syntax errors, but an object of a primitive type is created in it. -/
def Unblamed (source : Text) : Prop :=
  (Grammar.parseUnit source).errors = [] ∧ Grammar.CreatesPrimitives (Grammar.parseUnit source).tree

theorem Unblamed.stalls (h : Unblamed source) : (compile disk options file source).Stalls := by
  obtain ⟨cause, hcause⟩ := (reading_parsed h.1).1.2 h.2
  exact stalls_of_malformed disk options file h.1 hcause

theorem ends_of_not_unblamed (h : ¬Unblamed source) :
    (compile disk options file source).Accepts ∨ (compile disk options file source).Rejects := by
  by_cases herrors : (Grammar.parseUnit source).errors = []
  · obtain ⟨u, hu⟩ := (reading_parsed herrors).2.2 fun hcreates => h ⟨herrors, hcreates⟩
    exact ends_of_unit disk options file herrors hu
  · exact .inr (rejects_of_errors disk options file herrors)

/-- **A compilation ends in exactly one of two ways, unless an object of a primitive type is created**: either there is
Java syntax and no error, or the source is rejected with its diagnostics, one of which is an error. Just the sources
that have no syntax errors and create such an object fail without a diagnostic. -/
theorem compile_ends_iff (source : Text) :
    (Xor (compile disk options file source).Accepts (compile disk options file source).Rejects ↔ ¬Unblamed source) ∧
      ((compile disk options file source).Stalls ↔ Unblamed source) := by
  by_cases h : Unblamed source
  · have hstalls := h.stalls disk options file
    refine ⟨⟨fun hxor => ?_, absurd h⟩, fun _ => h, fun _ => hstalls⟩
    exact (hxor.or.elim hstalls.not_accepts hstalls.not_rejects).elim
  · have hends := ends_of_not_unblamed disk options file h
    refine ⟨⟨fun _ => h, fun _ => ?_⟩, fun hstalls => ?_, fun hunblamed => absurd hunblamed h⟩
    · exact hends.imp (fun ha => ⟨ha, ha.not_rejects⟩) fun hr => ⟨hr, fun ha => ha.not_rejects hr⟩
    · exact (hends.elim hstalls.not_accepts hstalls.not_rejects).elim

/-- A field set to a new object of type `int` is neither accepted nor rejected. -/
theorem new_int_stalls :
    let r := compile (Disk.empty []) .plain "A.kite" "class A \x7b Object x = new int(); \x7d"
    r.Stalls ∧ ¬r.Accepts ∧ ¬r.Rejects := by
  have h : Unblamed "class A \x7b Object x = new int(); \x7d" := by
    unfold Unblamed
    decide +kernel
  have hstalls := h.stalls (Disk.empty []) .plain "A.kite"
  exact ⟨hstalls, hstalls.not_accepts, hstalls.not_rejects⟩

end Compilation

end KiteCompiler
