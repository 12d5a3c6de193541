import KiteCompiler.Compilation.Watcher

/-!
# What a watcher takes for a change

A watcher remembers the latest time at which it has seen a file since the file came (`time?_after`), not the time at
which it saw the file last. So a scan finds exactly the files that are new or have another time than in the last scan,
unless the time of a file has gone back: as long as it is not later than the latest one, changes of the file are missed
(`scan_exact_iff`).
-/

namespace KiteCompiler.Compilation.Watcher

/-- One scan: the disk, and the files that are listed; none if they cannot be listed. -/
structure Round where
  disk : Disk
  files : Option (List Text)

/-- The time of a file that is listed and there. -/
def timeIn? (disk : Disk) (files : List Text) (file : Text) : Option Int :=
  if files.contains file then disk.modified? file else none

/-- The time of a file in the last of some scans, the newest of which is the first, whose files could be listed. -/
def lastTime? : List Round → Text → Option Int
  | [], _ => none
  | ⟨_, none⟩ :: earlier, file => lastTime? earlier file
  | ⟨disk, some files⟩ :: _, file => timeIn? disk files file

/-- The later one of a time and an earlier one, if there is one. -/
def later (old : Option Int) (time : Int) : Int := (old.map (max time)).getD time

/-- The latest time of a file in the scans whose files could be listed, back to one in which the file was not seen. -/
def latestTime? : List Round → Text → Option Int
  | [], _ => none
  | ⟨_, none⟩ :: earlier, file => latestTime? earlier file
  | ⟨disk, some files⟩ :: earlier, file => (timeIn? disk files file).map (later (latestTime? earlier file))

/-- Is the file there, with another time than in the last of some scans? -/
def differs (history : List Round) (disk : Disk) (file : Text) : Bool :=
  match disk.modified? file with
  | some time => lastTime? history file ≠ some time
  | none => false

/-- The listed files that are there and were not seen at the same time in the last scan whose files could be listed. -/
def changedSince (history : List Round) (r : Round) : List Text :=
  (r.files.getD []).eraseDups.filter (differs history r.disk)

/-- No time has gone back: a file that is no later than it was seen before has the time of the last scan. -/
def NoneEarlier (history : List Round) (r : Round) : Prop :=
  ∀ file ∈ r.files.getD [], ∀ time, r.disk.modified? file = some time →
    ∀ latest, latestTime? history file = some latest → time ≤ latest → lastTime? history file = some time

/-- A new watcher after the scans of a history, the newest of which is the first. -/
def after (options : Options) : List Round → Watcher
  | [] => .new
  | r :: earlier => ((after options earlier).scan options r.files r.disk).2.2.1

/-! ## Remembered times -/

section

variable {w : Watcher} {disk : Disk} {file other : Text} {time : Int}

theorem lookup_filter_key (p : Text → Bool) (times : List (Text × Int)) (file : Text) :
    (times.filter fun t => p t.1).lookup file = if p file then times.lookup file else none := by
  induction times with
  | nil => simp
  | cons t times ih =>
    obtain ⟨key, time⟩ := t
    by_cases hkey : file = key
    · subst hkey
      by_cases hp : p file
      · simp [hp]
      · simp [hp, ih]
    · have hbeq : (file == key) = false := beq_eq_false_iff_ne.2 hkey
      by_cases hp : p key
      · simp [hp, ih, List.lookup_cons, hbeq]
      · simp [hp, ih, List.lookup_cons, hbeq]

@[simp]
theorem time?_remember_self : (w.remember file time).time? file = some time := by
  simp [time?, remember]

theorem time?_remember_of_ne (h : other ≠ file) : (w.remember file time).time? other = w.time? other := by
  have hbeq : (other == file) = false := beq_eq_false_iff_ne.2 h
  have hkept := lookup_filter_key (fun key => decide (key ≠ file)) w.times other
  rw [if_pos (decide_eq_true h)] at hkept
  rw [time?, remember, List.lookup_cons, hbeq]
  exact hkept

theorem time?_forget (files : List Text) : (w.forget disk files).time? file =
    if files.contains file && (disk.modified? file).isSome then w.time? file else none :=
  lookup_filter_key (fun file => files.contains file && (disk.modified? file).isSome) w.times file

/-- Is the file there, and is it a change? -/
def finds (disk : Disk) (w : Watcher) (file : Text) : Bool := ((disk.modified? file).map (w.isChange file)).getD false

theorem isChange_remember_of_ne (h : other ≠ file) : (w.remember file time).isChange other = w.isChange other := by
  funext t
  rw [isChange, isChange, time?_remember_of_ne h]

theorem finds_remember (h : disk.modified? file = some time) (other : Text) :
    finds disk (w.remember file time) other = (!(other == file) && finds disk w other) := by
  by_cases hother : other = file
  · subst hother
    simp [finds, h, isChange]
  · simp [finds, isChange_remember_of_ne hother, hother]

/-- Takes note of a file: a time is remembered if it is a change. -/
def note (w : Watcher) (file : Text) (time : Int) : Watcher := if w.isChange file time then w.remember file time else w

theorem time?_note_self : (w.note file time).time? file = some (later (w.time? file) time) := by
  unfold note isChange
  cases hold : w.time? file with
  | none => simp [later]
  | some old =>
    by_cases hlt : old < time
    · simp [hlt, later, Int.max_eq_left (Int.le_of_lt hlt)]
    · simp [hlt, hold, later, Int.max_eq_right (Int.not_lt.1 hlt)]

theorem time?_note_of_ne (h : other ≠ file) : (w.note file time).time? other = w.time? other := by
  unfold note
  split
  · exact time?_remember_of_ne h
  · rfl

theorem later_later (old : Option Int) (time : Int) : later (some (later old time)) time = later old time := by
  cases old with
  | none => simp [later]
  | some old => exact Int.max_eq_right (Int.le_max_left _ _)

end

/-! ## One look at the files -/

theorem eraseDups_filter (p : Text → Bool) (files : List Text) :
    (files.filter p).eraseDups = files.eraseDups.filter p := by
  induction hn : files.length using Nat.strongRecOn generalizing files with
  | ind n ih =>
    cases files with
    | nil => rfl
    | cons file files =>
      -- `eraseDups` goes on with the other files, which are fewer
      have hothers :=
        ih _ (by rw [← hn]; exact Nat.lt_succ_of_le (List.length_filter_le (fun f => !f == file) files)) _ rfl
      by_cases hp : p file = true
      · rw [List.filter_cons_of_pos hp, List.eraseDups_cons, List.eraseDups_cons, List.filter_cons_of_pos hp, ← hothers]
        simp only [List.filter_filter, Bool.and_comm]
      · rw [List.filter_cons_of_neg hp, List.eraseDups_cons, List.filter_cons_of_neg hp, ← hothers, List.filter_filter]
        refine congrArg List.eraseDups (List.filter_congr fun f _ => ?_)
        by_cases hf : f = file
        · simp [hf, hp]
        · simp [hf]

theorem filter_finds_of_not {disk : Disk} {w : Watcher} {file : Text} (h : finds disk w file = false)
    (files : List Text) :
    (file :: files.filter fun f => !f == file).filter (finds disk w) = files.filter (finds disk w) := by
  rw [List.filter_cons_of_neg (by simp [h]), List.filter_filter]
  refine List.filter_congr fun f _ => ?_
  by_cases hf : f = file
  · simp [hf, h]
  · simp [hf]

/-- A look at files finds those that are changes, each of them once. -/
theorem look_fst (disk : Disk) (files : List Text) (w : Watcher) :
    (w.look disk files).1 = files.eraseDups.filter (finds disk w) := by
  induction files generalizing w with
  | nil => rfl
  | cons file files ih =>
    rw [List.eraseDups_cons, eraseDups_filter, look]
    split
    · rename_i hnone
      rw [filter_finds_of_not (by simp [finds, hnone]), ih]
    · rename_i time htime
      have hfinds : finds disk w file = w.isChange file time := by simp [finds, htime]
      split
      · rename_i hchange
        rw [List.filter_cons_of_pos (hfinds.trans hchange)]
        simp only [ih, List.filter_filter, funext (finds_remember htime), Bool.and_comm]
      · rename_i hchange
        rw [filter_finds_of_not (hfinds.trans (Bool.eq_false_iff.2 hchange)), ih]

theorem look_cons_snd {disk : Disk} {file : Text} {time : Int} (h : disk.modified? file = some time)
    (files : List Text) (w : Watcher) : (w.look disk (file :: files)).2 = ((w.note file time).look disk files).2 := by
  rw [look, h, note]
  dsimp only
  split <;> rfl

/-- A look at files keeps for each of them that is there the later one of two times. -/
theorem time?_look (disk : Disk) (files : List Text) (w : Watcher) (other : Text) :
    (w.look disk files).2.time? other =
      ((timeIn? disk files other).map fun time => some (later (w.time? other) time)).getD (w.time? other) := by
  induction files generalizing w with
  | nil => rfl
  | cons file files ih =>
    cases htime : disk.modified? file with
    | none =>
      have hlisted : timeIn? disk (file :: files) other = timeIn? disk files other := by
        by_cases hother : other = file
        · simp [timeIn?, hother, htime]
        · simp [timeIn?, hother]
      rw [hlisted, ← ih, look, htime]
    | some time =>
      rw [look_cons_snd htime, ih]
      by_cases hother : other = file
      · subst hother
        have hlisted : timeIn? disk (other :: files) other = some time := by simp [timeIn?, htime]
        rw [hlisted, time?_note_self]
        by_cases hmem : other ∈ files
        · simp [timeIn?, hmem, htime, later_later]
        · simp [timeIn?, hmem]
      · have hlisted : timeIn? disk (file :: files) other = timeIn? disk files other := by
          simp [timeIn?, hother]
        rw [hlisted, time?_note_of_ne hother]

/-! ## Scans -/

section

variable {options : Options} {history : List Round} {disk : Disk} {files : List Text} {file : Text}

theorem scan_eq (options : Options) (files : Option (List Text)) (w : Watcher) (disk : Disk) :
    (w.scan options files disk).1 = (w.changes disk files).1 ∧
    (w.scan options files disk).2.2.1 = (w.changes disk files).2 ∧
    (w.scan options files disk).2.1 =
      if (w.changes disk files).1.isEmpty then none
      else some (Batch.run options false (w.changes disk files).1 disk).1 := by
  unfold scan
  dsimp only
  split
  · rename_i hempty
    exact ⟨(List.isEmpty_iff.1 hempty).symm, rfl, rfl⟩
  · exact ⟨rfl, rfl, rfl⟩

/-- What one scan remembers. -/
theorem time?_changes (disk : Disk) (files : List Text) (w : Watcher) (file : Text) :
    (w.changes disk (some files)).2.time? file = (timeIn? disk files file).map (later (w.time? file)) := by
  change ((w.look disk files).2.forget disk files).time? file = _
  rw [time?_forget, time?_look]
  by_cases hmem : file ∈ files
  · cases htime : disk.modified? file <;> simp [timeIn?, hmem, htime]
  · simp [timeIn?, hmem]

/-- What all scans of a history remember. -/
theorem time?_after (options : Options) (history : List Round) (file : Text) :
    (after options history).time? file = latestTime? history file := by
  induction history with
  | nil => rfl
  | cons r earlier ih =>
    obtain ⟨disk, files⟩ := r
    rw [after, (scan_eq options files (after options earlier) disk).2.1]
    cases files with
    | none => exact ih
    | some files => rw [time?_changes, ih, latestTime?]

/-- A time that was seen last is not later than the latest one. -/
theorem lastTime?_le {latest time : Int} (hlatest : latestTime? history file = some latest)
    (hlast : lastTime? history file = some time) : time ≤ latest := by
  induction history with
  | nil => cases hlast
  | cons r earlier ih =>
    obtain ⟨disk, files⟩ := r
    cases files with
    | none => exact ih hlatest hlast
    | some files =>
      rw [lastTime?] at hlast
      rw [latestTime?, hlast, Option.map_some, Option.some.injEq] at hlatest
      rw [← hlatest, later]
      cases latestTime? earlier file with
      | none => exact Int.le_refl _
      | some old => exact Int.le_max_left _ _

theorem latestTime?_eq_none_iff : latestTime? history file = none ↔ lastTime? history file = none := by
  induction history with
  | nil => exact Iff.rfl
  | cons r earlier ih =>
    obtain ⟨disk, files⟩ := r
    cases files with
    | none => exact ih
    | some files => rw [latestTime?, lastTime?, Option.map_eq_none_iff]

/-- The files that a scan finds. -/
theorem scan_after_fst (options : Options) (history : List Round) (r : Round) :
    ((after options history).scan options r.files r.disk).1 =
      (r.files.getD []).eraseDups.filter (finds r.disk (after options history)) := by
  rw [(scan_eq options r.files _ r.disk).1]
  cases hfiles : r.files with
  | none => rfl
  | some files => exact look_fst r.disk files _

/-- What a scan finds differs from the last scan; the converse needs that the time has not gone back. -/
theorem finds_after_eq_differs_iff : finds disk (after options history) file = differs history disk file ↔
    ∀ time, disk.modified? file = some time → ∀ latest, latestTime? history file = some latest → time ≤ latest →
      lastTime? history file = some time := by
  unfold finds differs isChange
  rw [time?_after]
  cases htime : disk.modified? file with
  | none => simp
  | some time =>
    cases hlatest : latestTime? history file with
    | none => simp [latestTime?_eq_none_iff.1 hlatest]
    | some latest =>
      by_cases hlt : latest < time
      · have hlast : lastTime? history file ≠ some time := fun h => by
          have := lastTime?_le hlatest h
          omega
        simp [hlt, hlast, Int.not_le.2 hlt]
      · simp [hlt, Int.not_lt.1 hlt]

end

/-- **A scan finds exactly the changes** since the last scan whose files could be listed, in the order of the listing
and each of them once, if and only if no time has gone back. It compiles just what it finds. -/
theorem scan_exact_iff (options : Options) (history : List Round) (r : Round) :
    let result := (after options history).scan options r.files r.disk
    (result.1 = changedSince history r ↔ NoneEarlier history r) ∧
    (result.2.1 = if result.1.isEmpty then none else some (Batch.run options false result.1 r.disk).1) := by
  intro result
  obtain ⟨hfound, -, hbatch⟩ := scan_eq options r.files (after options history) r.disk
  refine ⟨?_, by rw [hbatch, ← hfound]⟩
  rw [show result.1 = _ from scan_after_fst options history r]
  constructor
  · intro heq file hfile
    -- equal lists have the same members, so the two tests agree on every listed file
    have hagree : finds r.disk (after options history) file = differs history r.disk file := by
      have hmem := congrArg (file ∈ ·) heq
      rw [Bool.eq_iff_iff]
      simpa only [changedSince, List.mem_filter, List.mem_eraseDups, hfile, true_and, eq_iff_iff] using hmem
    exact finds_after_eq_differs_iff.1 hagree
  · intro hnone
    exact List.filter_congr fun file hfile => finds_after_eq_differs_iff.2 (hnone file (List.mem_eraseDups.1 hfile))

/-- A file is seen at time 10, and then it is put back to time 5 with another text: it has changed, and it is not
found. -/
theorem scan_misses_earlier :
    let disk (text : Text) (time : Int) : Disk := ⟨.ofFolder [] [.ofFile "A.kite" text time], [], 0⟩
    let first : Round := ⟨disk "class A \x7b\x7d" 10, some ["A.kite"]⟩
    let second : Round := ⟨disk "class A \x7b int x; \x7d" 5, some ["A.kite"]⟩
    changedSince [first] second = [Text.ofString "A.kite"] ∧
    ((after .plain [first]).scan .plain second.files second.disk).1 = [] := by
  intro disk first second
  refine ⟨rfl, ?_⟩
  rw [scan_after_fst]
  rfl

end KiteCompiler.Compilation.Watcher
