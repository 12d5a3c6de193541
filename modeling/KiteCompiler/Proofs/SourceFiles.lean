import KiteCompiler.Project
import KiteCompiler.Proofs.NameOrder
import KiteCompiler.Proofs.Paths

/-!
# Source files and the output directory

What is found is no source if it is within the output directory. That is decided by how both are spelled: a file in the
output directory is a source all the same if one of the two paths is absolute and the other one is not, or if they go up
a different number of times (`sourcesAmong_exact_iff`).
-/

namespace KiteCompiler.Project

variable {p : Project} {found : List Text} {f : Text}

/-- The path of a file that was found from the directory of the project. -/
def IsFound (p : Project) (found : List Text) (f : Text) : Prop := ∃ g ∈ found, f = Path.join [p.start, g]

/-- The file is in the output directory, seen from the working directory. -/
def IsGenerated (p : Project) (directory : List Text) (f : Text) : Prop :=
  p.outputDirectory ≠ [] ∧ Path.Inside directory p.outputDirectory f

theorem mem_sourcesAmong : f ∈ p.sourcesAmong found ↔
    p.IsFound found f ∧ (p.outputDirectory = [] ∨ Path.isWithin p.outputDirectory f = false) := by
  rw [sourcesAmong, List.eraseReps, List.mem_eraseRepsBy fun _ _ => eq_of_beq, List.mem_mergeSort, List.mem_filter,
    List.mem_map]
  simp only [IsFound, Bool.or_eq_true, decide_eq_true_eq, Bool.not_eq_true', eq_comm (a := f)]

theorem pairwise_sourcesAmong (p : Project) (found : List Text) : (p.sourcesAmong found).Pairwise Text.Before := by
  have hid (f g : Text) : (f == g) = true ↔ id f = id g := beq_iff_eq
  exact Text.pairwise_eraseRepsBy hid (Text.pairwise_mergeSort id _)

/-- **Generated files are no sources if they are spelled like the output directory.** The source files are in ascending
order, each once; whatever was found, they are the files that are not in the output directory, and those in it whose
paths are not comparable with its own. So generated files are never sources if and only if none of them is found in such
a way. -/
theorem sourcesAmong_exact_iff (p : Project) (found directory : List Text) :
    (p.sourcesAmong found).Pairwise Text.Before ∧
    (∀ f, f ∈ p.sourcesAmong found ↔
      p.IsFound found f ∧ ¬(p.IsGenerated directory f ∧ Path.Comparable p.outputDirectory f)) ∧
    ((∀ f, f ∈ p.sourcesAmong found ↔ p.IsFound found f ∧ ¬p.IsGenerated directory f) ↔
      ∀ f, p.IsFound found f → p.IsGenerated directory f → Path.Comparable p.outputDirectory f) ∧
    ∀ disk files, p.sourceFiles disk = .ok files → ∃ found, files = p.sourcesAmong found := by
  have hmem (f : Text) : f ∈ p.sourcesAmong found ↔
      p.IsFound found f ∧ ¬(p.IsGenerated directory f ∧ Path.Comparable p.outputDirectory f) := by
    rw [mem_sourcesAmong, ← Bool.not_eq_true, Path.isWithin_iff directory, IsGenerated]
    tauto
  refine ⟨pairwise_sourcesAmong p found, hmem, ⟨fun h f hf hgenerated => ?_, fun h f => ?_⟩,
    fun disk files hfiles => ?_⟩
  · by_contra hspelling
    exact ((h f).1 ((hmem f).2 ⟨hf, fun h => hspelling h.2⟩)).2 hgenerated
  · rw [hmem]
    exact and_congr_right fun hf => not_congr ⟨And.left, fun hgenerated => ⟨hgenerated, h f hf hgenerated⟩⟩
  · dsimp only [sourceFiles, bind, Except.bind] at hfiles
    split at hfiles
    · cases hfiles
    · cases hfiles
      exact ⟨_, rfl⟩

/-- The output directory is absolute, and the directory of the project is not. -/
theorem generated_file_is_source :
    let p : Project := { standard "." with output := "/w/gen" }
    Text.ofString "gen/B.kite" ∈ p.sourcesAmong ["gen/B.kite"] ∧ p.IsGenerated ["w"] "gen/B.kite" := by
  intro p
  have hwithin : Path.isWithin p.outputDirectory "gen/B.kite" = false := by decide +kernel
  refine ⟨mem_sourcesAmong.2 ⟨⟨_, List.mem_singleton_self _, ?_⟩, .inr hwithin⟩, ?_, ?_⟩
  · decide +kernel
  · decide +kernel
  · exact List.isPrefixOf_iff_prefix.1 (by decide +kernel)

end KiteCompiler.Project
