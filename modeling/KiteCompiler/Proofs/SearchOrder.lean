import KiteCompiler.Proofs.NameOrder
import KiteCompiler.SearchPath
import Mathlib.Data.List.Forall2
import Mathlib.Data.List.Induction
import Mathlib.Logic.Function.Basic

/-!
# The order of a search

Where a type is found that several files define. Of the entries of the search path the first counts that has the type at
all; of its files those of the preferred form count, and of these the first (`Finds`).

The index sorts all locations twice. It could also be built with two maps, one for the types of an entry (`recorded`),
in which a preferred form takes the place of another one, and one for all types (`add`), in which nothing is replaced:
in whatever order the entries of the first map are added to the second, the same locations are found
(`find?_first_entry`).
-/

namespace KiteCompiler

namespace SearchPath

/-! ## Files and what is wanted of a search -/

/-- A file of an entry: its path below the entry, and where it is. -/
structure File where
  relative : Text
  path : Text
  entry : Option Text
  deriving DecidableEq, Repr

namespace File

/-- The location of the type that a file defines. -/
def location? (f : File) : Option Location :=
  (typeAt? f.relative).map fun (name, form) => ⟨name, form, f.path, f.entry⟩

/-- Does the file define a type of that name? -/
def Defines (f : File) (name : Text) : Prop := ∃ form, typeAt? f.relative = some (name, form)

end File

/-- The types of the files of an entry. -/
def types (files : List File) : List Location := files.filterMap File.location?

/-- The files of an entry, in the order of its folders or of its archive. What is missing or no entry has none. -/
def filesIn (disk : Disk) (entry : Text) : List File :=
  match disk.stat entry with
  | .error _ => []
  | .ok item =>
    match item with
    | .node (_, .folder _) _ =>
      (item.files fun n => n.head? ≠ some (Text.byte '.')).map fun (names, _) =>
        let relative := Text.join "/" names
        ⟨relative, Path.join [entry, relative], none⟩
    | .node (_, .file data _) _ =>
      match Archive.decode data with
      | .ok archive => (archive.entries.filter (!·.isFolder)).map fun e => ⟨e.name, entry, some e.name⟩
      | .error _ => []

/-- The location is that of the first file among those of the preferred form that define the name. -/
def Preferred (files : List File) (name : Text) (l : Location) : Prop :=
  ∃ earlier f later, files = earlier ++ f :: later ∧ f.location? = some l ∧ l.name = name ∧
    (∀ g ∈ earlier, ∀ m, g.location? = some m → m.name = name → l.form.rank < m.form.rank) ∧
    ∀ g ∈ later, ∀ m, g.location? = some m → m.name = name → l.form.rank ≤ m.form.rank

/-- What is to be found in the entries with the given files: something if and only if one of them defines the name, and
then the preferred location of the first entry that does. -/
structure Finds (holdings : List (List File)) (name : Text) (result : Option Location) : Prop where
  isSome_iff : result.isSome = true ↔ ∃ files ∈ holdings, ∃ f ∈ files, f.Defines name
  first : ∀ l, result = some l → ∃ before files after, holdings = before ++ files :: after ∧
    (∀ fs ∈ before, ∀ f ∈ fs, ¬f.Defines name) ∧ Preferred files name l

/-! ## Maps -/

/-- A finite map from names to locations. -/
abbrev Table := Text → Option Location

namespace Table

/-- The types of an entry after one more of its files: what is there already stays unless its form is a lesser one. -/
def record (found : Table) (l : Location) : Table :=
  if (found l.name).any (·.form.rank ≤ l.form.rank) then found else Function.update found l.name (some l)

/-- The types of an entry with the given files. -/
def recorded (files : List File) : Table := (types files).foldl record fun _ => none

/-- The index after one more type: what is there already stays. -/
def add (index : Table) (l : Location) : Table :=
  if (index l.name).isSome then index else Function.update index l.name (some l)

/-- The list has the locations of the map, in some order. -/
def Lists (order : List Location) (t : Table) : Prop := ∀ l, l ∈ order ↔ t l.name = some l

end Table

/-! ## The index as a search through all locations -/

variable {ls : List Location} {l m : Location} {name : Text}

/-- Of neighbours with one name, those that are left out are not found anyway. -/
theorem find?_firstOfName (ls : List Location) (name : Text) :
    (firstOfName ls).find? (·.name = name) = ls.find? (·.name = name) := by
  induction ls using List.twoStepInduction with
  | nil => rfl
  | singleton l => rfl
  | cons_cons l m ls _ ih =>
    rw [firstOfName, List.eraseRepsBy_cons_cons]
    by_cases h : l.name = m.name
    · rw [if_pos (decide_eq_true h), ← firstOfName, ih l]
      by_cases hname : m.name = name <;> simp [h, hname]
    · rw [if_neg (by simpa using h), ← firstOfName, List.find?_cons, ih m]
      rfl

/-- Sorting keeps the order of locations of which it does not tell which comes first. -/
theorem filter_mergeSort {le : Location → Location → Bool}
    (htrans : ∀ a b c, le a b = true → le b c = true → le a c = true) (htotal : ∀ a b, (le a b || le b a) = true)
    {p : Location → Bool} (hle : ∀ a b, p a = true → p b = true → le a b = true) (ls : List Location) :
    (ls.mergeSort le).filter p = ls.filter p := by
  have hpairwise : (ls.filter p).Pairwise fun a b => le a b = true := by
    rw [List.pairwise_filter]
    exact List.pairwise_of_forall fun a b ha hb => hle a b ha hb
  have hsub := (List.sublist_mergeSort htrans htotal hpairwise List.filter_sublist).filter p
  rw [List.filter_filter] at hsub
  simp only [Bool.and_self] at hsub
  exact (hsub.eq_of_length ((List.mergeSort_perm ls le).filter p).length_eq.symm).symm

theorem find?_byName (ls : List Location) (name : Text) :
    (byName ls).find? (·.name = name) = ls.find? (·.name = name) := by
  rw [← List.head?_filter, ← List.head?_filter, byName, filter_mergeSort]
  · exact fun _ _ _ => Text.precedes_trans
  · exact fun _ _ => Text.precedes_total _ _
  · intro a b ha hb
    simp only [decide_eq_true_eq] at ha hb
    rw [ha, hb]
    exact Text.precedes_refl name

theorem find?_indexOf (entries : List (List Location)) (name : Text) :
    (indexOf entries).find? (·.name = name) = entries.findSome? fun ls => (byForm ls).find? (·.name = name) := by
  rw [indexOf, find?_firstOfName, find?_byName, List.find?_flatMap]

/-! ## The best location of an entry -/

/-- The first of the locations with that name that have the preferred form. -/
def Best (ls : List Location) (name : Text) (l : Location) : Prop :=
  ∃ earlier later, ls = earlier ++ l :: later ∧ l.name = name ∧
    (∀ m ∈ earlier, m.name = name → l.form.rank < m.form.rank) ∧
    ∀ m ∈ later, m.name = name → l.form.rank ≤ m.form.rank

/-- The best location, or none because there is none with that name. -/
def IsBest (ls : List Location) (name : Text) : Option Location → Prop
  | none => ∀ m ∈ ls, m.name ≠ name
  | some l => Best ls name l

theorem Best.mem (h : Best ls name l) : l ∈ ls := by
  obtain ⟨earlier, later, rfl, -⟩ := h
  simp

theorem Best.name_eq (h : Best ls name l) : l.name = name := by
  obtain ⟨-, -, -, hname, -⟩ := h
  exact hname

theorem Best.rank_le (h : Best ls name l) (hm : m ∈ ls) (hname : m.name = name) : l.form.rank ≤ m.form.rank := by
  obtain ⟨earlier, later, rfl, -, hearlier, hlater⟩ := h
  rcases List.mem_append.1 hm with hm | hm
  · exact Nat.le_of_lt (hearlier m hm hname)
  · rcases List.mem_cons.1 hm with rfl | hm
    · exact Nat.le_refl _
    · exact hlater m hm hname

theorem best_iff : Best ls name l ↔ (∀ m ∈ ls, m.name = name → l.form.rank ≤ m.form.rank) ∧
    ls.find? (fun m => m.name = name ∧ m.form.rank = l.form.rank) = some l := by
  rw [List.find?_eq_some_iff_append]
  constructor
  · intro h
    refine ⟨fun m => h.rank_le, by simpa using h.name_eq, ?_⟩
    obtain ⟨earlier, later, hls, -, hearlier, -⟩ := h
    refine ⟨earlier, later, hls, fun m hm => ?_⟩
    simp only [Bool.not_eq_true', decide_eq_false_iff_not, not_and]
    exact fun hname => (Nat.ne_of_lt (hearlier m hm hname)).symm
  · rintro ⟨hle, hl, earlier, later, rfl, hearlier⟩
    refine ⟨earlier, later, rfl, by simpa using hl, fun m hm hname => ?_, fun m hm => hle m (by simp [hm])⟩
    have hne : m.form.rank ≠ l.form.rank := by simpa [hname] using hearlier m hm
    exact Nat.lt_of_le_of_ne (hle m (by simp [hm]) hname) hne.symm

theorem IsBest.unique {o o' : Option Location} (h : IsBest ls name o) (h' : IsBest ls name o') : o = o' := by
  match o, o', h, h' with
  | none, none, _, _ => rfl
  | none, some l, h, h' => exact absurd h'.name_eq (h l h'.mem)
  | some l, none, h, h' => exact absurd h.name_eq (h' l h.mem)
  | some l, some m, h, h' =>
    have hrank : l.form.rank = m.form.rank := Nat.le_antisymm (h.rank_le h'.mem h'.name_eq) (h'.rank_le h.mem h.name_eq)
    have hl := (best_iff.1 h).2
    rw [hrank] at hl
    exact hl.symm.trans (best_iff.1 h').2

/-- Sorting by form brings the best location to the front of those with its name. -/
theorem isBest_find?_byForm (ls : List Location) (name : Text) :
    IsBest ls name ((byForm ls).find? (·.name = name)) := by
  have htrans (a b c : Location) : decide (a.form.rank ≤ b.form.rank) = true →
      decide (b.form.rank ≤ c.form.rank) = true → decide (a.form.rank ≤ c.form.rank) = true := by
    simp only [decide_eq_true_eq]
    exact Nat.le_trans
  have htotal (a b : Location) : (decide (a.form.rank ≤ b.form.rank) || decide (b.form.rank ≤ a.form.rank)) = true := by
    simpa using Nat.le_total a.form.rank b.form.rank
  cases hfind : (byForm ls).find? (·.name = name) with
  | none =>
    intro m hm
    simpa using List.find?_eq_none.1 hfind m (List.mem_mergeSort.2 hm)
  | some l =>
    obtain ⟨hl, earlier, later, hls, hearlier⟩ := List.find?_eq_some_iff_append.1 hfind
    have hsorted : (earlier ++ l :: later).Pairwise fun a b => a.form.rank ≤ b.form.rank :=
      hls ▸ (List.pairwise_mergeSort htrans htotal ls).imp of_decide_eq_true
    refine best_iff.2 ⟨fun m hm hname => ?_, ?_⟩
    · have hm : m ∈ earlier ++ l :: later := hls ▸ List.mem_mergeSort.2 hm
      rcases List.mem_append.1 hm with hm | hm
      · exact absurd hname (by simpa using hearlier m hm)
      · rcases List.mem_cons.1 hm with rfl | hm
        · exact Nat.le_refl _
        · exact List.rel_of_pairwise_cons (List.pairwise_append.1 hsorted).2.1 hm
    · -- among the locations with the form of `l`, sorting changes no order
      have hstable := filter_mergeSort htrans htotal
        (p := fun m => decide (m.name = name ∧ m.form.rank = l.form.rank)) (fun a b ha hb => by simp_all) ls
      rw [← List.head?_filter, ← hstable, List.head?_filter, ← byForm, List.find?_eq_some_iff_append]
      exact ⟨by simpa using hl, earlier, later, hls, fun m hm => by simp_all⟩

/-- One more file: the step from the best location before to the best one after it. -/
theorem IsBest.record {found : Table} (h : IsBest ls name (found name)) (l : Location) :
    IsBest (ls ++ [l]) name (found.record l name) := by
  by_cases hname : l.name = name
  · subst hname
    cases hfound : found l.name with
    | none =>
      rw [hfound] at h
      simp only [Table.record, hfound, Option.any_none, Bool.false_eq_true, if_false, Function.update_self]
      exact ⟨ls, [], rfl, rfl, fun m hm hname => absurd hname (h m hm), by simp⟩
    | some best =>
      rw [hfound] at h
      by_cases hrank : best.form.rank ≤ l.form.rank
      · simp only [Table.record, hfound, Option.any_some, hrank, decide_true, if_true]
        obtain ⟨earlier, later, rfl, hbest, hearlier, hlater⟩ := h
        refine ⟨earlier, later ++ [l], by simp, hbest, hearlier, fun m hm hname => ?_⟩
        rcases List.mem_append.1 hm with hm | hm
        · exact hlater m hm hname
        · rwa [List.mem_singleton.1 hm]
      · simp only [Table.record, hfound, Option.any_some, hrank, decide_false, Bool.false_eq_true, if_false,
          Function.update_self]
        refine ⟨ls, [], rfl, rfl, fun m hm hname => ?_, by simp⟩
        exact Nat.lt_of_lt_of_le (Nat.lt_of_not_le hrank) (h.rank_le hm hname)
  · have hsame : found.record l name = found name := by
      unfold Table.record
      split
      · rfl
      · exact Function.update_of_ne (Ne.symm hname) _ _
    rw [hsame]
    cases hfound : found name with
    | none =>
      rw [hfound] at h
      intro m hm
      rcases List.mem_append.1 hm with hm | hm
      · exact h m hm
      · rwa [List.mem_singleton.1 hm]
    | some best =>
      rw [hfound] at h
      obtain ⟨earlier, later, rfl, hbest, hearlier, hlater⟩ := h
      refine ⟨earlier, later ++ [l], by simp, hbest, hearlier, fun m hm hm' => ?_⟩
      rcases List.mem_append.1 hm with hm | hm
      · exact hlater m hm hm'
      · rw [List.mem_singleton.1 hm] at hm'
        exact absurd hm' hname

theorem isBest_foldl_record (ls : List Location) (name : Text) :
    IsBest ls name (ls.foldl Table.record (fun _ => none) name) := by
  induction ls using List.reverseRecOn with
  | nil => exact List.forall_mem_nil _
  | append_singleton ls l ih =>
    rw [List.foldl_append]
    exact ih.record l

theorem recorded_eq (files : List File) (name : Text) :
    Table.recorded files name = (byForm (types files)).find? (·.name = name) :=
  (isBest_foldl_record (types files) name).unique (isBest_find?_byForm (types files) name)

/-! ## Files -/

theorem File.defines_iff {f : File} : f.Defines name ↔ ∃ l, f.location? = some l ∧ l.name = name := by
  simp only [Defines, location?, Option.map_eq_some_iff]
  constructor
  · rintro ⟨form, h⟩
    exact ⟨_, ⟨_, h, rfl⟩, rfl⟩
  · rintro ⟨_, ⟨⟨n, form⟩, h, rfl⟩, rfl⟩
    exact ⟨form, h⟩

theorem Best.preferred {files : List File} (h : Best (types files) name l) : Preferred files name l := by
  obtain ⟨earlier, later, hls, hname, hearlier, hlater⟩ := h
  obtain ⟨before, rest, rfl, hbefore, hrest⟩ := List.filterMap_eq_append_iff.1 hls
  obtain ⟨between, f, after, rfl, hbetween, hf, hafter⟩ := List.filterMap_eq_cons_iff.1 hrest
  refine ⟨before ++ between, f, after, by simp, hf, hname, fun g hg m hm => ?_, fun g hg m hm => ?_⟩
  · rcases List.mem_append.1 hg with hg | hg
    · exact hearlier m (hbefore ▸ List.mem_filterMap.2 ⟨g, hg, hm⟩)
    · rw [hbetween g hg] at hm
      exact absurd hm (by simp)
  · exact hlater m (hafter ▸ List.mem_filterMap.2 ⟨g, hg, hm⟩)

theorem find?_byForm_eq_none {files : List File} :
    (byForm (types files)).find? (·.name = name) = none ↔ ∀ f ∈ files, ¬f.Defines name := by
  simp only [List.find?_eq_none, byForm, List.mem_mergeSort, types, List.mem_filterMap, File.defines_iff]
  grind

theorem finds_findSome? (holdings : List (List File)) (name : Text) :
    Finds holdings name (holdings.findSome? fun files => (byForm (types files)).find? (·.name = name)) where
  isSome_iff := by
    rw [Option.isSome_iff_ne_none, Ne, List.findSome?_eq_none_iff]
    simp only [find?_byForm_eq_none]
    grind
  first l hl := by
    obtain ⟨before, files, after, rfl, hfiles, hbefore⟩ := List.findSome?_eq_some_iff.1 hl
    refine ⟨before, files, after, rfl, fun fs hfs => find?_byForm_eq_none.1 (hbefore fs hfs), Best.preferred ?_⟩
    have hbest := isBest_find?_byForm (types files) name
    rwa [hfiles] at hbest

/-! ## Maps in any order -/

namespace Table

theorem foldl_add (ls : List Location) (index : Table) (name : Text) :
    ls.foldl add index name = (index name).or (ls.find? (·.name = name)) := by
  induction ls generalizing index with
  | nil => simp
  | cons l ls ih =>
    rw [List.foldl_cons, ih]
    by_cases hname : l.name = name
    · subst hname
      cases hindex : index l.name <;> simp [add, hindex]
    · have hsame : index.add l name = index name := by
        unfold add
        split
        · rfl
        · exact Function.update_of_ne (Ne.symm hname) _ _
      simp [hsame, hname]

theorem Lists.cons {order : List Location} {t : Table} (h : Lists order t) (hl : t l.name = none) :
    Lists (l :: order) (Function.update t l.name (some l)) := by
  intro m
  rw [List.mem_cons, h m, Function.update_apply]
  split
  · next heq => rw [heq, hl]; simp [eq_comm]
  · next hne => exact or_iff_right fun heq => hne (congrArg _ heq)

theorem Lists.find? {order : List Location} {t : Table} (h : Lists order t) (name : Text)
    (ht : ∀ l, t name = some l → l.name = name) : order.find? (·.name = name) = t name := by
  cases hname : t name with
  | none =>
    refine List.find?_eq_none.2 fun l hl hl' => ?_
    rw [decide_eq_true_eq] at hl'
    have := (h l).1 hl
    simp [hl', hname] at this
  | some l =>
    have hl : l ∈ order := (h l).2 (by rw [ht l hname, hname])
    cases hfind : order.find? (·.name = name) with
    | none => simpa [ht l hname] using List.find?_eq_none.1 hfind l hl
    | some m =>
      have hm : m.name = name := by simpa using List.find?_some hfind
      have := (h m).1 (List.mem_of_find?_eq_some hfind)
      rw [hm, hname] at this
      exact this.symm

end Table

theorem findSome?_recorded {holdings : List (List File)} {orders : List (List Location)}
    (h : List.Forall₂ Table.Lists orders (holdings.map Table.recorded)) (name : Text) :
    orders.flatten.find? (·.name = name) =
      holdings.findSome? fun files => (byForm (types files)).find? (·.name = name) := by
  induction holdings generalizing orders with
  | nil =>
    cases h
    rfl
  | cons files holdings ih =>
    obtain _ | ⟨hfirst, hrest⟩ := h
    rw [List.flatten_cons, List.find?_append, ih hrest, List.findSome?_cons, ← recorded_eq, hfirst.find?]
    · cases Table.recorded files name <;> rfl
    · intro l hl
      rw [recorded_eq] at hl
      simpa using List.find?_some hl

/-! ## Entries -/

theorem entryLocations_eq {disk : Disk} {entry : Text} {found : Option (List Location)}
    (h : entryLocations disk entry = .ok found) : found.getD [] = types (filesIn disk entry) := by
  unfold entryLocations at h
  unfold filesIn types
  generalize disk.stat entry = found? at h ⊢
  cases found? with
  | error e =>
    dsimp only at h
    split at h
    · cases h
      rfl
    · cases h
  | ok item =>
    obtain ⟨⟨itemName, content⟩, children⟩ := item
    cases content with
    | folder =>
      cases h
      simp [inFolder, File.location?, List.filterMap_map, Function.comp_def]
    | file data modified =>
      dsimp only at h ⊢
      split at h
      · generalize Archive.decode data = decoded at h ⊢
        cases decoded with
        | ok archive =>
          cases h
          simp [inArchive, File.location?, List.filterMap_map, Function.comp_def]
        | error f => cases h
      · cases h

/-- An entry without types does not show in the index. -/
theorem flatMap_byForm_found {disk : Disk} {entries : List Text} {found : List (Text × List Location)}
    (h : (entries.filterMapM fun e => return (← entryLocations disk e).map fun ls => (e, ls)) = .ok found) :
    (found.map (·.2)).flatMap byForm = ((entries.map (filesIn disk)).map types).flatMap byForm := by
  induction entries generalizing found with
  | nil =>
    cases h
    rfl
  | cons entry entries ih =>
    rw [List.filterMapM_cons] at h
    cases hentry : entryLocations disk entry with
    | error failure =>
      rw [hentry] at h
      cases h
    | ok locations? =>
      rw [hentry] at h
      have htypes := entryLocations_eq hentry
      rw [List.map_cons, List.map_cons, List.flatMap_cons, ← htypes]
      cases locations? with
      | none =>
        rw [ih h]
        simp [byForm]
      | some ls =>
        cases hrest : entries.filterMapM fun e => return (← entryLocations disk e).map fun ls => (e, ls) with
        | error failure =>
          rw [hrest] at h
          cases h
        | ok rest =>
          rw [hrest] at h
          cases h
          rw [List.map_cons, List.flatMap_cons, ih hrest]
          rfl

theorem index_ofEntries {disk : Disk} {entries : List Text} {s : SearchPath} (h : ofEntries disk entries = .ok s) :
    s.index = indexOf ((entries.map (filesIn disk)).map types) := by
  unfold ofEntries at h
  cases hfound : entries.filterMapM fun e => return (← entryLocations disk e).map fun ls => (e, ls) with
  | error failure =>
    rw [hfound] at h
    cases h
  | ok found =>
    rw [hfound] at h
    cases h
    rw [indexOf, indexOf, ← flatMap_byForm_found hfound]

/-- **The first entry wins**, and in it the preferred form, and of that the first file: for entries with any sequences
of files, for those that are found on a disk, and in whatever order the types of an entry are added to the index. -/
theorem find?_first_entry :
    (∀ (holdings : List (List File)) (s : SearchPath) (name : Text), s.index = indexOf (holdings.map types) →
      Finds holdings name (s.find? name) ∧
      ∀ orders, List.Forall₂ Table.Lists orders (holdings.map Table.recorded) →
        orders.flatten.foldl Table.add (fun _ => none) name = s.find? name) ∧
    ∀ (disk : Disk) (entries : List Text) (s : SearchPath), ofEntries disk entries = .ok s →
      s.index = indexOf ((entries.map (filesIn disk)).map types) := by
  refine ⟨fun holdings s name hindex => ?_, fun disk entries s => index_ofEntries⟩
  have hfind : s.find? name = holdings.findSome? fun files => (byForm (types files)).find? (·.name = name) := by
    rw [SearchPath.find?, hindex, find?_indexOf, List.findSome?_map]
    rfl
  rw [hfind]
  refine ⟨finds_findSome? holdings name, fun orders horders => ?_⟩
  rw [Table.foldl_add, findSome?_recorded horders]
  rfl

/-- A class file gives way to the source beside it, and what the second entry has of that name is not found. -/
theorem find?_first_entry_of_two :
    let holdings : List (List File) := [[⟨"A.class", "p/A.class", none⟩, ⟨"A.java", "p/A.java", none⟩],
      [⟨"A.kite", "q/A.kite", none⟩, ⟨"B.kite", "q/B.kite", none⟩]]
    let s : SearchPath := ⟨[], indexOf (holdings.map types)⟩
    let found : Location := ⟨"A", .java, "p/A.java", none⟩
    let orders : List (List Location) :=
      [[found], [⟨"B", .kite, "q/B.kite", none⟩, ⟨"A", .kite, "q/A.kite", none⟩]]
    List.Forall₂ Table.Lists orders (holdings.map Table.recorded) ∧
      Finds holdings "A" (some found) ∧ s.find? "A" = some found := by
  intro holdings s found orders
  have hnone : Table.Lists [] fun _ => none := by simp [Table.Lists]
  have hfirst : Table.Lists [found] (Function.update (Function.update (fun _ => none) found.name
      (some ⟨"A", .classFile, "p/A.class", none⟩)) found.name (some found)) := by
    rw [Function.update_idem]
    exact hnone.cons rfl
  have horders : List.Forall₂ Table.Lists orders (holdings.map Table.recorded) :=
    .cons hfirst (.cons ((hnone.cons rfl).cons rfl) .nil)
  obtain ⟨hfinds, hmaps⟩ := find?_first_entry.1 holdings s "A" rfl
  have hfind : s.find? "A" = some found := (hmaps orders horders).symm
  rw [hfind] at hfinds
  exact ⟨horders, hfinds, hfind⟩

end SearchPath

end KiteCompiler
