import KiteCompiler.Ast.Reading.Declarations
import KiteCompiler.Proofs.Trees

/-!
# Steps of a reading

What the steps through the children of a node do where they succeed: which children they take, and what is known of
those. A reading is taken apart with `bind_ok` and these lemmas, its definition is not opened again.
-/

namespace KiteCompiler.Ast

variable {α β : Type}

/-! ## Results -/

theorem Result.bind_ok {x : Result α} {f : α → Result β} {b : β} :
    (x >>= f) = .ok b ↔ ∃ a, x = .ok a ∧ f a = .ok b := by
  cases x with
  | ok a => exact ⟨fun h => ⟨a, rfl, h⟩, fun ⟨_, h, hf⟩ => by cases h; exact hf⟩
  | error e => exact ⟨fun h => (nomatch h), fun ⟨_, h, _⟩ => (nomatch h)⟩

theorem Result.map_ok {x : Result α} {f : α → β} {b : β} : f <$> x = .ok b ↔ ∃ a, x = .ok a ∧ f a = b := by
  cases x with
  | ok a => exact ⟨fun h => ⟨a, rfl, Except.ok.inj h⟩, fun ⟨_, h, hf⟩ => by cases h; exact congrArg _ hf⟩
  | error e => exact ⟨fun h => (nomatch h), fun ⟨_, h, _⟩ => (nomatch h)⟩

theorem Result.exists_of_isOk {x : Result α} (h : x.isOk = true) : ∃ a, x = .ok a := by
  cases x with
  | ok a => exact ⟨a, rfl⟩
  | error => cases h

/-- What is read off some nodes is read off them one by one. -/
theorem Reading.mapM_ok {f : α → Result β} {as : List α} {bs : List β} (h : as.mapM f = .ok bs) :
    List.Forall₂ (fun a b => f a = .ok b) as bs := by
  induction as generalizing bs with
  | nil =>
    cases h
    exact .nil
  | cons a as ih =>
    rw [List.mapM_cons] at h
    obtain ⟨b, hb, h⟩ := Result.bind_ok.1 h
    obtain ⟨bs, hbs, h⟩ := Result.bind_ok.1 h
    cases h
    exact .cons hb (ih hbs)

namespace Reading

variable {m : Reading α} {c c' : Cursor} {a : α}

theorem bind_ok {f : α → Reading β} {b : β} :
    (m >>= f) c = (.ok b, c') ↔ ∃ a c₁, m c = (.ok a, c₁) ∧ f a c₁ = (.ok b, c') := by
  change ExceptT.bindCont f (m c).1 (m c).2 = _ ↔ _
  rcases hm : m c with ⟨r | a, c₁⟩
  · exact ⟨fun h => (nomatch congrArg Prod.fst h), fun ⟨_, _, h, _⟩ => (nomatch congrArg Prod.fst h)⟩
  · exact ⟨fun h => ⟨a, c₁, rfl, h⟩, fun ⟨_, _, h, hf⟩ => by cases h; exact hf⟩

theorem pure_ok {b : α} : (pure b : Reading α) c = (.ok a, c') ↔ b = a ∧ c = c' := by
  change (Except.ok b, c) = _ ↔ _
  rw [Prod.mk.injEq, Except.ok.injEq]

theorem lift_ok {r : Result α} : (liftM r : Reading α) c = (.ok a, c') ↔ r = .ok a ∧ c = c' := by
  cases r with
  | ok b => exact Prod.mk.injEq .. ▸ Iff.rfl
  | error e => exact ⟨fun h => (nomatch congrArg Prod.fst h), fun ⟨h, _⟩ => (nomatch h)⟩

theorem fail_ok {t : Branch} {cause : Malformed.Cause} : ¬(fail t cause : Reading α) c = (.ok a, c') :=
  fun h => nomatch congrArg Prod.fst h

theorem peek_ok {d : Option Decorated} : peek c = (.ok d, c') ↔ c.rest.head? = d ∧ c = c' :=
  pure_ok (c := c)

theorem node_ok {t : Branch} : node c = (.ok t, c') ↔ c.node = t ∧ c = c' := pure_ok (c := c)

/-- The next child is taken, which is no error. -/
theorem next_cons {d : Decorated} (h : d.kind ≠ .error) (n : Branch) (ds : List Decorated) :
    next ⟨n, d :: ds⟩ = (.ok d, ⟨n, ds⟩) := by
  change (ite (d.kind = .error) _ _ : Reading Decorated) ⟨n, d :: ds⟩ = _
  rw [if_neg h]
  rfl

theorem next_ok {d : Decorated} : next c = (.ok d, c') ↔ d.kind ≠ .error ∧ c = ⟨c'.node, d :: c'.rest⟩ := by
  refine ⟨fun h => ?_, fun ⟨hd, h⟩ => h ▸ next_cons hd _ _⟩
  obtain ⟨n, _ | ⟨d', ds⟩⟩ := c
  · exact nomatch congrArg Prod.fst h
  · by_cases herror : d'.kind = .error
    · have hnext : (next ⟨n, d' :: ds⟩).1 = .error (.node d'.branch.source .syntaxError) := by
        change ((ite (d'.kind = .error) _ _ : Reading Decorated) ⟨n, d' :: ds⟩).1 = _
        rw [if_pos herror]
        rfl
      exact nomatch (congrArg Prod.fst h).symm.trans hnext
    · rw [next_cons herror] at h
      cases h
      exact ⟨herror, rfl⟩

/-- The next child is taken, which is of one of the kinds. -/
theorem expect_ok {kinds : List Cst.Kind} {d : Decorated} :
    expect kinds c = (.ok d, c') ↔ (d.kind ≠ .error ∧ d.kind ∈ kinds) ∧ c = ⟨c'.node, d :: c'.rest⟩ := by
  rw [expect, bind_ok]
  constructor
  · rintro ⟨d', c₁, hnext, h⟩
    obtain ⟨hd', rfl⟩ := next_ok.1 hnext
    split at h
    · next hk =>
      obtain ⟨rfl, rfl⟩ := pure_ok.1 h
      exact ⟨⟨hd', List.contains_iff_mem.1 hk⟩, rfl⟩
    · obtain ⟨_, _, -, h⟩ := bind_ok.1 h
      exact absurd h fail_ok
  · rintro ⟨⟨hd, hk⟩, rfl⟩
    refine ⟨d, c', next_cons hd _ _, ?_⟩
    rw [if_pos (List.contains_iff_mem.2 hk)]
    rfl

/-- The next child is taken if it is of one of the kinds, else none is. -/
theorem optional_ok {kinds : List Cst.Kind} {o : Option Decorated} (h : optional kinds c = (.ok o, c')) :
    (∃ d, o = some d ∧ d.kind ∈ kinds ∧ c = ⟨c'.node, d :: c'.rest⟩) ∨
      (o = none ∧ c = c' ∧ ∀ d ∈ c.rest.head?, d.kind ∉ kinds) := by
  obtain ⟨head, c₁, hpeek, h⟩ := bind_ok.1 h
  obtain ⟨rfl, rfl⟩ := peek_ok.1 hpeek
  obtain ⟨n, _ | ⟨d, ds⟩⟩ := c
  · obtain ⟨rfl, rfl⟩ := pure_ok.1 h
    exact .inr ⟨rfl, rfl, fun d hd => nomatch hd⟩
  · change (ite _ _ _ : Reading _) _ = _ at h
    split at h
    · next hk =>
      cases h
      exact .inl ⟨d, rfl, List.contains_iff_mem.1 hk, rfl⟩
    · next hk =>
      cases h
      refine .inr ⟨rfl, rfl, fun d' hd' hmem => hk ?_⟩
      rw [List.head?_cons, Option.mem_some_iff] at hd'
      exact hd' ▸ List.contains_iff_mem.2 hmem

/-- The children of the kind are taken. -/
theorem many_ok {kind : Cst.Kind} {ds : List Decorated} :
    many kind c = (.ok ds, c') ↔ c.rest.takeWhile (Decorated.kind · == kind) = ds ∧
      ⟨c.node, c.rest.dropWhile (Decorated.kind · == kind)⟩ = c' := by
  change ((Except.ok _, _) : Except _ _ × Cursor) = _ ↔ _
  rw [Prod.mk.injEq, Except.ok.injEq]

theorem rest_run : rest c = (match c.rest.find? (fun t : Decorated => t.kind == .error) with
    | some child => fail child .syntaxError
    | none => pure c.rest : Reading (List Decorated)) ⟨c.node, []⟩ := rfl

/-- All children that are left are taken, none of which is an error. -/
theorem rest_ok {ds : List Decorated} :
    rest c = (.ok ds, c') ↔ (∀ d ∈ ds, d.kind ≠ .error) ∧ c.rest = ds ∧ c' = ⟨c.node, []⟩ := by
  rw [rest_run]
  cases hfind : c.rest.find? fun t : Decorated => t.kind == .error with
  | some d =>
    refine ⟨fun h => absurd h fail_ok, fun ⟨h, hds, _⟩ => ?_⟩
    have herror : d.kind = .error := by simpa using List.find?_some hfind
    exact absurd herror (h d (hds ▸ List.mem_of_find?_eq_some hfind))
  | none =>
    refine pure_ok.trans ⟨fun ⟨h, hc⟩ => ⟨fun d hmem => ?_, h, hc.symm⟩, fun ⟨_, h, hc⟩ => ⟨h, hc.symm⟩⟩
    simpa using List.find?_eq_none.1 hfind d (h ▸ hmem)

/-- No children are left. -/
theorem done_ok {u : Unit} : done c = (.ok u, c') ↔ c.rest = [] ∧ c = c' := by
  obtain ⟨n, _ | ⟨d, ds⟩⟩ := c
  · exact pure_ok.trans ⟨fun h => ⟨rfl, h.2⟩, fun h => ⟨rfl, h.2⟩⟩
  · exact ⟨fun h => (nomatch congrArg Prod.fst h), fun h => (nomatch h.1)⟩

theorem thenDone_ok : thenDone m c = (.ok a, c') ↔ m c = (.ok a, c') ∧ c'.rest = [] := by
  rcases hm : m c with ⟨r, n, _ | ⟨d, ds⟩⟩
  · rw [show thenDone m c = (r, ⟨n, []⟩) by rw [thenDone, hm]; rfl]
    refine ⟨fun h => ⟨h, ?_⟩, fun h => h.1⟩
    cases h
    rfl
  · refine ⟨fun h => ?_, fun ⟨h, hc⟩ => ?_⟩
    · rw [thenDone, hm] at h
      exact nomatch congrArg Prod.fst h
    · cases h
      cases hc

/-- The node is no error. -/
theorem within_ok {t : Branch} : within t m = .ok a ↔ t.kind ≠ .error ∧ ∃ c', m ⟨t, t.children⟩ = (.ok a, c') := by
  rw [within]
  split
  · next h => exact ⟨fun h => (nomatch h), fun h' => absurd h h'.1⟩
  · next h =>
    refine ⟨fun hm => ⟨h, _, Prod.ext hm rfl⟩, fun ⟨_, c', hm⟩ => ?_⟩
    rw [hm]

/-- The node is no error, and no children are left. -/
theorem whole_ok {t : Branch} :
    whole t m = .ok a ↔ t.kind ≠ .error ∧ ∃ c', m ⟨t, t.children⟩ = (.ok a, c') ∧ c'.rest = [] := by
  refine within_ok.trans (and_congr_right fun _ => ⟨fun ⟨c', h⟩ => ?_, fun ⟨c', h, hrest⟩ => ⟨c', ?_⟩⟩)
  · obtain ⟨a', c₁, ha, h⟩ := bind_ok.1 h
    obtain ⟨_, c₂, hdone, h⟩ := bind_ok.1 h
    obtain ⟨hrest, rfl⟩ := done_ok.1 hdone
    obtain ⟨rfl, rfl⟩ := pure_ok.1 h
    exact ⟨c₁, ha, hrest⟩
  · exact bind_ok.2 ⟨a, c', h, bind_ok.2 ⟨(), c', done_ok.2 ⟨hrest, rfl⟩, rfl⟩⟩

end Reading

end KiteCompiler.Ast
