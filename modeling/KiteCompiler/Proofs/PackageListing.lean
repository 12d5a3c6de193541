import KiteCompiler.Proofs.SearchOrder

/-!
# Listing a package

The index is read from the beginning of a package on, up to the first name that begins in another way, and names of
inner packages in between are passed over. In an index in the order of names nothing of the package is missed by that
(`package_eq_iff`): what has the beginning stands together, and no package with a similar name comes in between.
-/

namespace KiteCompiler.SearchPath

open Text (byte Before precedes)

/-- The names are in ascending order, and each is there once. -/
def Ascending (ls : List Location) : Prop := ls.Pairwise fun l m => Before l.name m.name

instance (ls : List Location) : Decidable (Ascending ls) := inferInstanceAs (Decidable (List.Pairwise _ _))

/-- The type is in the package and not in an inner one: its name has one more part without a dot. -/
def InPackage (package : Text) (l : Location) : Prop :=
  ∃ last : Text, byte '.' ∉ last ∧ l.name = if package = [] then last else package ++ [byte '.'] ++ last

variable {ls : List Location} {start : Text}

theorem takeWhile_prefix (hsorted : ls.Pairwise fun l m => precedes l.name m.name = true)
    (hstart : ∀ l ∈ ls, precedes start l.name = true) :
    ls.takeWhile (fun l => start.isPrefixOf l.name) = ls.filter fun l => start.isPrefixOf l.name := by
  induction ls with
  | nil => rfl
  | cons l ls ih =>
    obtain ⟨hl, hls⟩ := List.pairwise_cons.1 hsorted
    rw [List.takeWhile_cons, List.filter_cons]
    by_cases h : start.isPrefixOf l.name = true
    · rw [if_pos h, if_pos h, ih hls fun m hm => hstart m (List.mem_cons_of_mem l hm)]
    · rw [if_neg h, if_neg h, eq_comm, List.filter_eq_nil_iff]
      intro m hm hprefix
      rw [List.isPrefixOf_iff_prefix] at h hprefix
      exact h (Text.prefix_of_precedes (hstart l List.mem_cons_self) (hl m hm) hprefix)

/-- In the order of names, what begins in the same way stands together. -/
theorem takeWhile_dropWhile_prefix (hsorted : ls.Pairwise fun l m => precedes l.name m.name = true) :
    (ls.dropWhile fun l => !precedes start l.name).takeWhile (fun l => start.isPrefixOf l.name) =
      ls.filter fun l => start.isPrefixOf l.name := by
  induction ls with
  | nil => rfl
  | cons l ls ih =>
    obtain ⟨hl, hls⟩ := List.pairwise_cons.1 hsorted
    cases h : precedes start l.name with
    | true =>
      rw [List.dropWhile_cons_of_neg (by simp [h])]
      exact takeWhile_prefix hsorted (List.forall_mem_cons.2 ⟨h, fun m hm => Text.precedes_trans h (hl m hm)⟩)
    | false =>
      rw [List.dropWhile_cons_of_pos (by simp [h]), ih hls, List.filter_cons_of_neg]
      intro hprefix
      rw [Text.precedes_iff.2 (List.isPrefixOf_iff_prefix.1 hprefix).le] at h
      cases h

theorem package_eq_filter {s : SearchPath} (h : Ascending s.index) (name : Text) :
    ∃ p : Location → Bool, s.package name = s.index.filter p ∧ ∀ l, p l = true ↔ InPackage name l := by
  refine ⟨_, by rw [package, takeWhile_dropWhile_prefix (h.imp And.left), List.filter_filter], fun l => ?_⟩
  have hdot : Text.ofString "." = [byte '.'] := by decide
  rw [Bool.and_eq_true, List.isPrefixOf_iff_prefix, hdot]
  simp only [List.isEmpty_iff, Bool.not_eq_true', List.contains_eq_mem, decide_eq_false_iff_not]
  constructor
  · rintro ⟨hlast, last, hl⟩
    rw [← hl, List.drop_left] at hlast
    refine ⟨last, hlast, ?_⟩
    rw [← hl]
    split <;> rfl
  · rintro ⟨last, hlast, hl⟩
    have hl : l.name = (if name = [] then [] else name ++ [byte '.']) ++ last := by
      rw [hl]
      split <;> rfl
    rw [hl, List.drop_left]
    exact ⟨hlast, List.prefix_append _ last⟩

theorem ascending_indexOf (entries : List (List Location)) : Ascending (indexOf entries) :=
  Text.pairwise_eraseRepsBy (fun _ _ => decide_eq_true_iff) (Text.pairwise_mergeSort Location.name _)

/-- **The listing of a package**: of an index in ascending order it is the one list in ascending order with just the
types that are directly in the package. The index of a search path is always in ascending order. -/
theorem package_eq_iff :
    (∀ (s : SearchPath) (name : Text) (ls : List Location), Ascending s.index →
      (s.package name = ls ↔ Ascending ls ∧ ∀ l, l ∈ ls ↔ l ∈ s.index ∧ InPackage name l)) ∧
    ∀ (disk : Disk) (entries : List Text) (s : SearchPath), ofEntries disk entries = .ok s → Ascending s.index := by
  refine ⟨fun s name ls hindex => ?_, fun disk entries s hs => ?_⟩
  · obtain ⟨p, hpackage, hp⟩ := package_eq_filter hindex name
    have hmem (l : Location) : l ∈ s.package name ↔ l ∈ s.index ∧ InPackage name l := by
      rw [hpackage, List.mem_filter, hp]
    have hascending : Ascending (s.package name) := hpackage ▸ hindex.filter p
    constructor
    · rintro rfl
      exact ⟨hascending, hmem⟩
    · rintro ⟨hls, hl⟩
      exact Text.eq_of_pairwise_before hascending hls fun l => (hmem l).trans (hl l).symm
  · rw [index_ofEntries hs]
    exact ascending_indexOf _

/-- There are packages whose names begin in the same way on both sides, and an inner package between two types. -/
theorem package_eq_iff_lib :
    let a : Location := ⟨"p.A", .kite, "lib/p/A.kite", none⟩
    let c : Location := ⟨"p.C", .java, "lib/p/C.java", none⟩
    let s : SearchPath :=
      ⟨["lib"], [⟨"p-q.A", .java, "lib/p-q/A.java", none⟩, a, ⟨"p.B.D", .kite, "lib/p/B/D.kite", none⟩, c,
      ⟨"pq.A", .kite, "lib/pq/A.kite", none⟩]⟩
    let disk : Disk := ⟨.ofFolder [] [.ofFolder "lib" [.ofFolder "p" [.ofFile "A.kite" [] 0]]], [], 0⟩
    (s.package "p" = [a, c] ∧ ∀ l, l ∈ [a, c] ↔ l ∈ s.index ∧ InPackage "p" l) ∧
      ofEntries disk ["lib"] = .ok ⟨["lib"], [a]⟩ ∧ Ascending [a] := by
  intro a c s disk
  have hpackage : s.package "p" = [a, c] := by decide +kernel
  have hindex : indexOf [[a]] = [a] := by
    simp [indexOf, byForm, byName, firstOfName, List.eraseRepsBy, List.eraseRepsBy.loop]
  have hdisk : ofEntries disk ["lib"] = .ok ⟨["lib"], [a]⟩ := hindex ▸ by rfl
  exact ⟨⟨hpackage, ((package_eq_iff.1 s "p" [a, c] (by decide +kernel)).1 hpackage).2⟩,
    hdisk, package_eq_iff.2 disk ["lib"] _ hdisk⟩

end KiteCompiler.SearchPath
