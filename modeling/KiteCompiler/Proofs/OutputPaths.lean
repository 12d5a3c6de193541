import KiteCompiler.Compilation.Basic
import KiteCompiler.Proofs.Paths

/-!
# Output paths

Where the Java file for a source goes is the directory for all of them, cleaned, then the parts of the name of the
package, then the name of the file. Nothing of that is lost when the path is cleaned, so no two units share a path
unless they share their package and the stem of their file (`outputPath_spec`).
-/

namespace KiteCompiler.Compilation

open KiteCompiler.Path (IsElement separator isAbsolute elements spell resolved parent)
open Text (byte)

/-- The parts of the name of a package, if there is one. -/
def packageParts (package : Option Text) : List Text := package.toList.flatMap (Text.split (byte '.'))

/-- The parts are names: none is empty or has a slash. -/
def IsPackage (package : Option Text) : Prop := ∀ n ∈ packageParts package, n ≠ [] ∧ separator ∉ n

/-- The name of the Java file for a source. -/
def javaName (source : Text) : Text := Path.stem source ++ ".java"

variable {source : Text} {package : Option Text}

theorem isElement_packageParts (h : IsPackage package) : ∀ n ∈ packageParts package, IsElement n ∧ n ≠ parent := by
  intro n hn
  obtain ⟨p, -, hsplit⟩ := List.mem_flatMap.1 hn
  have hdot : byte '.' ∉ n := Text.not_mem_of_mem_split hsplit
  exact ⟨⟨(h n hn).1, fun he => hdot (by rw [he]; decide), (h n hn).2⟩, fun he => hdot (by rw [he]; decide)⟩

theorem packageParts_inj {package' : Option Text} (h : packageParts package = packageParts package') :
    package = package' := by
  have hne (p : Text) : packageParts (some p) ≠ [] := by simpa [packageParts] using Text.split_ne_nil (byte '.') p
  cases package with
  | none =>
    cases package' with
    | none => rfl
    | some q => exact absurd h.symm (hne q)
  | some p =>
    cases package' with
    | none => exact absurd h (hne p)
    | some q =>
      have hsplit : Text.split (byte '.') p = Text.split (byte '.') q := by simpa [packageParts] using h
      rw [← Text.join_split p, hsplit, Text.join_split]

theorem replace_eq_join (package : Option Text) :
    Text.replace (byte '.') separator (package.getD []) = Text.join "/" (packageParts package) := by
  cases package with
  | none => rfl
  | some p =>
    have hjoin : Text.replace (byte '.') separator (Text.join [byte '.'] (p.split (byte '.'))) =
        Text.join "/" (p.split (byte '.')) :=
      Text.replace_join fun _ => Text.not_mem_of_mem_split
    simpa [packageParts, Text.join_split] using hjoin

theorem separator_not_mem_stem (h : Path.base source ≠ "/") : separator ∉ Path.stem source := by
  refine fun hmem => absurd (List.mem_of_mem_take hmem) ?_
  unfold Path.base at h ⊢
  split
  · decide
  · next hne =>
    rw [if_neg hne] at h
    dsimp only at h ⊢
    split
    · next hempty => exact absurd (if_pos hempty) h
    · exact Text.separator_not_mem_afterLast _

theorem isElement_javaName (h : Path.base source ≠ "/") : IsElement (javaName source) ∧ javaName source ≠ parent := by
  have hlength : 5 ≤ (javaName source).length := by
    rw [javaName, List.length_append]
    exact Nat.le_add_left 5 _
  have hne {t : Text} (ht : t.length < 5) : javaName source ≠ t := fun heq => by
    rw [heq] at hlength
    omega
  refine ⟨⟨hne (by decide), hne (by decide), fun hmem => ?_⟩, hne (by decide)⟩
  rcases List.mem_append.1 hmem with hmem | hmem
  · exact separator_not_mem_stem h hmem
  · revert hmem
    decide

theorem isAbsolute_of_not_mem {t : Text} (h : separator ∉ t) : isAbsolute t = false := by
  refine Bool.eq_false_iff.2 fun habsolute => h ?_
  exact List.mem_of_mem_head? (beq_iff_eq.1 habsolute)

theorem flatMap_elements_filter (ts : List Text) : (ts.filter (!·.isEmpty)).flatMap elements = ts.flatMap elements := by
  induction ts with
  | nil => rfl
  | cons t ts ih => cases t <;> simp [ih, show elements [] = [] from rfl]

/-- Joining parts adds their elements up; the first part says whether the path is absolute. -/
theorem join_eq {d t : Text} {ts : List Text} (h : ∀ t ∈ ts, isAbsolute t = false) (ht : t ∈ ts) (hne : t ≠ []) :
    Path.join (d :: ts) = spell (isAbsolute d) (Path.resolveUp (isAbsolute d) [] ((d :: ts).flatMap elements)) := by
  obtain ⟨q, qs, hparts⟩ : ∃ q qs, (d :: ts).filter (!·.isEmpty) = q :: qs :=
    List.exists_cons_of_ne_nil (List.ne_nil_of_mem (List.mem_filter.2 ⟨List.mem_cons_of_mem d ht, by simpa using hne⟩))
  have hq : q ∈ (d :: ts).filter (!·.isEmpty) := hparts ▸ List.mem_cons_self
  have hrooted : isAbsolute (Text.join "/" (q :: qs)) = isAbsolute d := by
    obtain ⟨hmem, hempty⟩ := List.mem_filter.1 hq
    obtain ⟨b, q, rfl⟩ := List.exists_cons_of_ne_nil (show q ≠ [] by simpa using hempty)
    rw [Text.join_cons]
    change isAbsolute (b :: q) = isAbsolute d
    cases d with
    | nil => exact h _ ((List.mem_cons.1 hmem).resolve_left (List.cons_ne_nil b q))
    | cons c d =>
      rw [List.filter_cons_of_pos rfl] at hparts
      rw [(List.cons.inj hparts).1]
  have hclean : Path.join (d :: ts) = Path.clean (Text.join "/" (q :: qs)) := by
    rw [Path.join, hparts]
  rw [hclean, Path.clean_eq, resolved, hrooted, Path.elements_join, ← hparts, flatMap_elements_filter]

/-- Going on downwards from a path. -/
theorem location_spell (start : List Text) (d : Text) {names : List Text} (h : ∀ n ∈ names, IsElement n)
    (hparent : parent ∉ names) :
    Path.location start (spell (isAbsolute d) (resolved d ++ names)) = Path.location start d ++ names := by
  have helements : ∀ n ∈ resolved d ++ names, IsElement n :=
    fun n hn => (List.mem_append.1 hn).elim (Path.isElement_resolved d n) (h n)
  rw [Path.location_resolved start d, Path.location, Path.isAbsolute_spell _ helements, Path.elements_spell _ helements,
    ← List.append_assoc, Path.resolveUp_eq, List.foldl_append, Path.foldl_climb hparent, List.reverse_append,
    List.reverse_reverse, Path.resolveUp_eq]

variable (hsource : Path.base source ≠ "/") (hpackage : IsPackage package)

include hsource hpackage

theorem isElement_names : ∀ n ∈ packageParts package ++ [javaName source], IsElement n ∧ n ≠ parent := by
  intro n hn
  rcases List.mem_append.1 hn with hn | hn
  · exact isElement_packageParts hpackage n hn
  · exact List.mem_singleton.1 hn ▸ isElement_javaName hsource

theorem outputPath_eq (directory : Text) : outputPath directory source package =
    spell (isAbsolute directory) (resolved directory ++ (packageParts package ++ [javaName source])) := by
  have hnames := isElement_names hsource hpackage
  have hparts : ∀ n ∈ packageParts package, IsElement n := fun n hn => (isElement_packageParts hpackage n hn).1
  have hname := (isElement_javaName hsource).1
  have hparent : parent ∉ packageParts package ++ [javaName source] := fun hmem => (hnames _ hmem).2 rfl
  have hfirst : ∀ t ∈ [Text.join "/" (packageParts package), javaName source], isAbsolute t = false := by
    exact List.forall_mem_cons.2 ⟨Path.isAbsolute_join hparts,
      List.forall_mem_singleton.2 (isAbsolute_of_not_mem hname.separator_not_mem)⟩
  have helements : [directory, Text.join "/" (packageParts package), javaName source].flatMap elements =
      elements directory ++ (packageParts package ++ [javaName source]) := by
    rw [← Path.flatMap_elements fun n hn => (hnames n hn).1]
    simp [Path.elements_join]
  rw [outputPath, replace_eq_join, ← javaName, join_eq hfirst (List.mem_cons_of_mem _ List.mem_cons_self) hname.ne_nil,
    helements, Path.resolveUp_eq, List.foldl_append, Path.foldl_climb hparent, List.reverse_append,
    List.reverse_reverse, ← Path.resolveUp_eq]
  rfl

omit hsource hpackage

/-- **Output paths** are the cleaned directory, the parts of the package and the name of the file with `java` in place
of its last extension. So they are below the directory, wherever that is, and two of them are equal just if the packages
and the stems are. The sources can be any paths but the root. -/
theorem outputPath_spec (directory source : Text) (package : Option Text) (hsource : Path.base source ≠ "/")
    (hpackage : IsPackage package) :
    let names := packageParts package ++ [javaName source]
    outputPath directory source package = spell (isAbsolute directory) (elements (Path.clean directory) ++ names) ∧
    (∀ start, Path.location start (outputPath directory source package) = Path.location start directory ++ names) ∧
    ∀ source' package', Path.base source' ≠ "/" → IsPackage package' →
      (outputPath directory source package = outputPath directory source' package' ↔
        package = package' ∧ Path.stem source = Path.stem source') := by
  intro names
  have hnames := isElement_names hsource hpackage
  refine ⟨?_, fun start => ?_, fun source' package' hsource' hpackage' => ?_⟩
  · rw [Path.elements_clean, outputPath_eq hsource hpackage]
  · rw [outputPath_eq hsource hpackage]
    exact location_spell start directory (fun n hn => (hnames n hn).1) fun hmem => (hnames _ hmem).2 rfl
  · rw [outputPath_eq hsource hpackage, outputPath_eq hsource' hpackage']
    have hnames' := isElement_names hsource' hpackage'
    have hall {ns : List Text} (h : ∀ n ∈ ns, IsElement n ∧ n ≠ parent) : ∀ n ∈ resolved directory ++ ns, IsElement n :=
      fun n hn => (List.mem_append.1 hn).elim (Path.isElement_resolved directory n) fun hn => (h n hn).1
    constructor
    · intro h
      have hspell := congrArg elements h
      rw [Path.elements_spell _ (hall hnames), Path.elements_spell _ (hall hnames')] at hspell
      obtain ⟨hparts, hname⟩ := List.append_inj' (List.append_cancel_left hspell) rfl
      exact ⟨packageParts_inj hparts, List.append_cancel_right (List.cons.inj hname).1⟩
    · rintro ⟨rfl, hstem⟩
      rw [javaName, javaName, hstem]

/-- A file name with several dots. -/
theorem outputPath_spec_dots :
    Path.base "src/x.y.kite" ≠ "/" ∧ IsPackage (some "demo.hello") ∧
      outputPath "../out" "src/x.y.kite" (some "demo.hello") = "../out/demo/hello/x.y.java" := by
  have hsource : Path.base "src/x.y.kite" ≠ "/" := by decide +kernel
  have hpackage : IsPackage (some "demo.hello") := by
    unfold IsPackage
    decide +kernel
  refine ⟨hsource, hpackage, (outputPath_spec "../out" "src/x.y.kite" (some "demo.hello") hsource hpackage).1.trans ?_⟩
  decide +kernel

end KiteCompiler.Compilation
