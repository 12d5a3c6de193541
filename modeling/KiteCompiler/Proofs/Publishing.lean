import KiteCompiler.Editor.Workspace

/-!
# What an editor was told last

A session is a workspace together with all that was published. Whatever notices arrive, and however the disk changes
between them, the last publication about a document is about the text that the workspace has of it
(`last_publication_of_run`): every notice that changes a document publishes at once, and a notice that is ignored
changes nothing. What goes wrong if two URIs stand for one path is excluded: then the notices about the one would change
the document of the other.
-/

namespace KiteCompiler.Editor

/-! ## Workspaces as maps -/

namespace Workspace

variable {w : Workspace} {path : Text} {d : Document}

@[simp]
theorem get?_erase_self : (w.erase path).get? path = none := by
  simp [get?, erase]

theorem path_of_get? (h : w.get? path = some d) : d.path = path := by
  simpa using List.find?_some (p := fun d : Document => decide (d.path = path)) h

theorem get?_erase_of_ne {other : Text} (h : other ≠ path) : (w.erase path).get? other = w.get? other := by
  simp only [get?, erase, List.find?_filter]
  congr 1
  funext d
  by_cases hd : d.path = other
  · simp [hd, h]
  · simp [hd]

@[simp]
theorem get?_insert_self : (w.insert d).get? d.path = some d := by
  simp [get?, insert]

theorem get?_insert_of_ne {other : Text} (h : other ≠ d.path) : (w.insert d).get? other = w.get? other := by
  rw [← get?_erase_of_ne (w := w) h]
  simp [get?, insert, Ne.symm h]

/-- A notice is ignored, or it gives the document of its URI a text, or it closes that document. -/
theorem handle_cases (disk : Disk) (n : Notice) (w : Workspace) :
    w.handle disk n = (w, none) ∨ ∃ path, Uri.path n.uri = .ok path ∧
      ((∃ version text, w.handle disk n = w.update disk n.uri path version text) ∨
        w.handle disk n = (w.erase path, some ⟨n.uri, none, []⟩)) := by
  unfold handle
  cases hpath : Uri.path n.uri with
  | error e => exact .inl rfl
  | ok path =>
    cases n with
    | opened uri version text => exact .inr ⟨path, rfl, .inl ⟨version, text, rfl⟩⟩
    | changed uri version changes =>
      dsimp only
      split
      · rename_i text _
        exact .inr ⟨path, rfl, .inl ⟨version, text, rfl⟩⟩
      · exact .inl rfl
    | saved uri text =>
      cases text with
      | some text => exact .inr ⟨path, rfl, .inl ⟨w.version path, text, rfl⟩⟩
      | none =>
        dsimp only
        split
        · rename_i text _
          exact .inr ⟨path, rfl, .inl ⟨w.version path, text, rfl⟩⟩
        · exact .inl rfl
    | closed uri => exact .inr ⟨path, rfl, .inr rfl⟩

end Workspace

/-! ## Sessions -/

/-- A notice, and the disk as it is when the notice arrives. -/
structure Event where
  disk : Disk
  notice : Notice

/-- A workspace and what was published, the newest first, each publication with the disk as it was then. -/
structure Session where
  workspace : Workspace
  sent : List (Disk × Publication)

namespace Session

/-- What an event does to a session. -/
def step (s : Session) (e : Event) : Session :=
  let (w, p) := s.workspace.handle e.disk e.notice
  ⟨w, (p.map fun p => (e.disk, p)).toList ++ s.sent⟩

/-- A session of events, from a workspace in which nothing is open. -/
def run (root : Text) (options : Compilation.Options) (events : List Event) : Session :=
  events.foldl step ⟨⟨root, options, []⟩, []⟩

/-- The last publication about a URI. -/
def last? (s : Session) (uri : Text) : Option (Disk × Publication) := s.sent.find? (·.2.uri = uri)

end Session

/-- The diagnostics of a document are those of an analysis of its content; if the analysis failed, there are none. -/
structure Document.IsAnalysed (disk : Disk) (options : Compilation.Options) (d : Document) : Prop where
  ok {a : Compilation.Analysis} (h : Compilation.analyze disk options d.path d.content = .ok a) :
    d.diagnostics = a.diagnostics ∧ d.failure = none
  error {f : Compilation.Failure} (h : Compilation.analyze disk options d.path d.content = .error f) :
    d.diagnostics = [] ∧ d.failure = some f

theorem Document.isAnalysed_checked (disk : Disk) (options : Compilation.Options) (path content : Text)
    (version : Int32) : (checked disk options path content version).IsAnalysed disk options := by
  unfold checked
  split
  · rename_i hok
    refine ⟨fun h => ?_, fun h => ?_⟩
    · cases hok.symm.trans h
      exact ⟨rfl, rfl⟩
    · cases hok.symm.trans h
  · rename_i herror
    refine ⟨fun h => ?_, fun h => ?_⟩
    · cases herror.symm.trans h
    · cases herror.symm.trans h
      exact ⟨rfl, rfl⟩

@[simp]
theorem Document.path_checked (disk : Disk) (options : Compilation.Options) (path content : Text) (version : Int32) :
    (checked disk options path content version).path = path := by
  unfold checked
  split <;> rfl

@[simp]
theorem Document.content_checked (disk : Disk) (options : Compilation.Options) (path content : Text)
    (version : Int32) : (checked disk options path content version).content = content := by
  unfold checked
  split <;> rfl

@[simp]
theorem Document.version_checked (disk : Disk) (options : Compilation.Options) (path content : Text)
    (version : Int32) : (checked disk options path content version).version = version := by
  unfold checked
  split <;> rfl

namespace Session

variable {s : Session} {uris : List Text} {options : Compilation.Options}

/-- The last publication about each URI is about the document at its path, and there is none about other URIs than the
given ones; all documents are published. -/
structure UpToDate (uris : List Text) (options : Compilation.Options) (s : Session) : Prop where
  kept : s.workspace.options = options
  published {uri : Text} {disk : Disk} {p : Publication} (h : s.last? uri = some (disk, p)) :
    uri ∈ uris ∧ ∃ path, Uri.path uri = .ok path ∧
      match s.workspace.get? path with
      | some d => p = ⟨uri, some d.version.toUInt32, d.reports⟩ ∧ d.IsAnalysed disk options
      | none => p.reports = []
  stored {path : Text} {d : Document} (h : s.workspace.get? path = some d) :
    ∃ uri ∈ uris, Uri.path uri = .ok path ∧ (s.last? uri).isSome

theorem upToDate_empty (root : Text) : UpToDate uris options ⟨⟨root, options, []⟩, []⟩ where
  kept := rfl
  published h := by simp [last?] at h
  stored h := by simp [Workspace.get?] at h

/-- Changing the document of one URI and publishing it leaves the others as they are. -/
theorem UpToDate.put (h : UpToDate uris options s)
    (hdistinct : ∀ u ∈ uris, ∀ v ∈ uris, ∀ path, Uri.path u = .ok path → Uri.path v = .ok path → u = v)
    {w : Workspace} {disk : Disk} {p : Publication} {path : Text} (huri : p.uri ∈ uris)
    (hpath : Uri.path p.uri = .ok path) (hoptions : w.options = options)
    (hothers : ∀ other, other ≠ path → w.get? other = s.workspace.get? other)
    (hp : match w.get? path with
      | some d => p = ⟨p.uri, some d.version.toUInt32, d.reports⟩ ∧ d.IsAnalysed disk options
      | none => p.reports = []) :
    UpToDate uris options ⟨w, (disk, p) :: s.sent⟩ where
  kept := hoptions
  published {uri disk' p'} hlast := by
    by_cases hsame : p.uri = uri
    · subst hsame
      simp only [last?, List.find?_cons, decide_true, Option.some.injEq, Prod.mk.injEq] at hlast
      obtain ⟨rfl, rfl⟩ := hlast
      exact ⟨huri, path, hpath, hp⟩
    · have hold : s.last? uri = some (disk', p') := by
        simpa only [last?, List.find?_cons, hsame, decide_false] using hlast
      obtain ⟨hmem, other, hother, hmatch⟩ := h.published hold
      have hne : other ≠ path := fun heq => hsame (hdistinct _ huri _ hmem path hpath (heq ▸ hother))
      refine ⟨hmem, other, hother, ?_⟩
      rw [hothers other hne]
      exact hmatch
  stored {other d} hget := by
    by_cases hsame : other = path
    · exact ⟨p.uri, huri, hsame ▸ hpath, by simp [last?]⟩
    · obtain ⟨uri, hmem, hother, hsome⟩ := h.stored ((hothers other hsame) ▸ hget)
      refine ⟨uri, hmem, hother, ?_⟩
      by_cases huri : p.uri = uri
      · simp [last?, huri]
      · simpa [last?, huri] using hsome

/-- What one event preserves. -/
theorem UpToDate.step (h : UpToDate uris options s)
    (hdistinct : ∀ u ∈ uris, ∀ v ∈ uris, ∀ path, Uri.path u = .ok path → Uri.path v = .ok path → u = v) {e : Event}
    (he : e.notice.uri ∈ uris) : UpToDate uris options (s.step e) := by
  obtain hignored | ⟨path, hpath, ⟨version, text, hupdate⟩ | hclosed⟩ :=
    s.workspace.handle_cases e.disk e.notice
  · simpa [Session.step, hignored] using h
  · have hnew := Workspace.get?_insert_self (w := s.workspace)
      (d := .checked e.disk options path text version)
    rw [Document.path_checked] at hnew
    simp only [Session.step, hupdate, Workspace.update, h.kept, Option.map_some, Option.toList_some,
      List.singleton_append]
    refine h.put hdistinct he hpath h.kept (fun other hne => ?_) ?_
    · exact Workspace.get?_insert_of_ne (by simpa using hne)
    · rw [hnew]
      exact ⟨by simp, Document.isAnalysed_checked ..⟩
  · simp only [Session.step, hclosed, Option.map_some, Option.toList_some, List.singleton_append]
    refine h.put hdistinct he hpath h.kept (fun other hne => Workspace.get?_erase_of_ne hne) ?_
    rw [Workspace.get?_erase_self]

/-- What a run of events preserves. -/
theorem UpToDate.foldl_step
    (hdistinct : ∀ u ∈ uris, ∀ v ∈ uris, ∀ path, Uri.path u = .ok path → Uri.path v = .ok path → u = v)
    {events : List Event} (hevents : ∀ e ∈ events, e.notice.uri ∈ uris) (h : UpToDate uris options s) :
    UpToDate uris options (events.foldl Session.step s) := by
  induction events generalizing s with
  | nil => exact h
  | cons e events ih =>
    exact ih (fun e he => hevents e (List.mem_cons_of_mem _ he)) (h.step hdistinct (hevents e List.mem_cons_self))

end Session

/-- **Published diagnostics match the workspace.** Let the URIs of the notices stand for different paths. After any run
of events, the last publication about a URI has the reports on the document that is stored for its path, or none if no
document is stored; the diagnostics of the document are those of an analysis of its content, on the disk as it was at
that publication. Nothing is stored that was not published. -/
theorem last_publication_of_run (root : Text) (options : Compilation.Options) (events : List Event)
    (hdistinct : ∀ e ∈ events, ∀ e' ∈ events, ∀ path,
      Uri.path e.notice.uri = .ok path → Uri.path e'.notice.uri = .ok path → e.notice.uri = e'.notice.uri) :
    let s := Session.run root options events
    (∀ uri disk p, s.last? uri = some (disk, p) → ∃ path, Uri.path uri = .ok path ∧
      match s.workspace.get? path with
      | some d =>
        p.version = some d.version.toUInt32 ∧ p.reports = Editor.reports d.content d.diagnostics ∧
          d.IsAnalysed disk options
      | none => p.reports = []) ∧
    (∀ path d, s.workspace.get? path = some d →
      d.path = path ∧ ∃ uri, Uri.path uri = .ok path ∧ (s.last? uri).isSome) := by
  intro s
  have huris : ∀ u ∈ events.map (·.notice.uri), ∀ v ∈ events.map (·.notice.uri), ∀ path,
      Uri.path u = .ok path → Uri.path v = .ok path → u = v := by
    simpa only [List.forall_mem_map] using hdistinct
  have hs : s.UpToDate (events.map (·.notice.uri)) options :=
    (Session.upToDate_empty root).foldl_step huris fun e he => List.mem_map_of_mem he
  refine ⟨fun uri disk p hlast => ?_, fun path d hget => ?_⟩
  · obtain ⟨-, path, hpath, hmatch⟩ := hs.published hlast
    refine ⟨path, hpath, ?_⟩
    split <;> rename_i hget
    · rw [hget] at hmatch
      obtain ⟨rfl, hanalysed⟩ := hmatch
      exact ⟨rfl, rfl, hanalysed⟩
    · rwa [hget] at hmatch
  · obtain ⟨uri, -, hpath, hsome⟩ := hs.stored hget
    exact ⟨Workspace.path_of_get? hget, uri, hpath, hsome⟩

/-- Two documents are opened, the saving of the one fails since it has no file, a change of the other is ignored since
it is none of the whole text, and then the other is closed. -/
theorem last_publication_of_run_with_close :
    let disk := Disk.empty []
    let source : Text := "class A \x7b"
    let events : List Event := [
      ⟨disk, .opened "/A.kite" 3 source⟩, ⟨disk, .opened "file:///b/B.kite" 1 "class"⟩, ⟨disk, .saved "/A.kite" none⟩,
      ⟨disk, .changed "file:///b/B.kite" 2 [.whole "class B \x7b\x7d", .part]⟩, ⟨disk, .closed "file:///b/B.kite"⟩]
    let s := Session.run "." .plain events
    (∃ p d, s.last? "/A.kite" = some (disk, p) ∧ s.workspace.get? "/A.kite" = some d ∧ d.content = source ∧
      p.reports = Editor.reports source d.diagnostics ∧ d.IsAnalysed disk .plain) ∧
    (∃ p, s.last? "file:///b/B.kite" = some (disk, p) ∧ s.workspace.get? "/b/B.kite" = none ∧ p.reports = []) := by
  intro disk source events s
  have huris : ∀ e ∈ events, e.notice.uri ∈ [Text.ofString "/A.kite", Text.ofString "file:///b/B.kite"] := by
    simp only [events, List.forall_mem_cons]
    decide
  have hpaths : ∀ u ∈ [Text.ofString "/A.kite", Text.ofString "file:///b/B.kite"],
      ∀ v ∈ [Text.ofString "/A.kite", Text.ofString "file:///b/B.kite"], (Uri.path u).toOption = (Uri.path v).toOption →
      u = v := by
    decide +kernel
  obtain ⟨hlast, -⟩ := last_publication_of_run "." .plain events fun e he e' he' path h h' =>
    hpaths _ (huris e he) _ (huris e' he') (by rw [h, h'])
  let d := Document.checked disk .plain "/A.kite" source 3
  let b := Document.checked disk .plain "/b/B.kite" "class" 1
  have hworkspace : s.workspace = (((⟨".", .plain, []⟩ : Workspace).insert d).insert b).erase "/b/B.kite" := by rfl
  have hd : d.path = Text.ofString "/A.kite" := Document.path_checked ..
  have hb : b.path = Text.ofString "/b/B.kite" := Document.path_checked ..
  have hne : Text.ofString "/A.kite" ≠ Text.ofString "/b/B.kite" := by decide
  have hget : s.workspace.get? "/A.kite" = some d := by
    rw [hworkspace, Workspace.get?_erase_of_ne hne, Workspace.get?_insert_of_ne (hb ▸ hne), ← hd,
      Workspace.get?_insert_self]
  have hnone : s.workspace.get? "/b/B.kite" = none := hworkspace ▸ Workspace.get?_erase_self
  have hcontent : d.content = source := Document.content_checked ..
  obtain ⟨p, hp⟩ : ∃ p, s.last? "/A.kite" = some (disk, p) := ⟨_, rfl⟩
  obtain ⟨q, hq⟩ : ∃ q, s.last? "file:///b/B.kite" = some (disk, q) := ⟨_, rfl⟩
  refine ⟨⟨p, d, hp, hget, hcontent, ?_⟩, ⟨q, hq, hnone, ?_⟩⟩
  · obtain ⟨path, hpath, hmatch⟩ := hlast _ _ _ hp
    obtain rfl : Text.ofString "/A.kite" = path := Except.ok.inj hpath
    rw [hget] at hmatch
    exact hcontent ▸ hmatch.2
  · obtain ⟨path, hpath, hmatch⟩ := hlast _ _ _ hq
    obtain rfl : Text.ofString "/b/B.kite" = path := Except.ok.inj hpath
    rwa [hnone] at hmatch

end KiteCompiler.Editor
