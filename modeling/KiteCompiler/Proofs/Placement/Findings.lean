import KiteCompiler.Proofs.LayoutIndependence
import KiteCompiler.Proofs.Validation

/-!
# Diagnostics are about the source

Every diagnostic of an analysis is at the start of a token, or at the start of what is left of a token of angles
(`place_of_mem_diagnostics`). For syntax errors that is what reading guarantees. What validation finds is found in
syntax that is read from trees at such places: if a map `g` of places keeps all of them, then the syntax stays the same
when it is moved by `g`, so all its places are values of `g`, which can be chosen among the places of tokens. Only an
added `final` is at no place, and nothing is ever found there.
-/

namespace KiteCompiler

variable {g : Place → Place}

/-! ## Modifiers -/

namespace Modifier

/-- Of moved modifiers only an added `final` is not at a moved place, and no keyword before it is `final`. -/
theorem relocateAll_cases (g : Place → Place) (ms : List Modifier) :
    ∃ ns, (∀ m ∈ ns, ∃ p, m.place = g p) ∧
      (relocateAll g ms = ns ∨ relocateAll g ms = ns ++ [⟨.none, "final"⟩] ∧ ∀ m ∈ ns,
      m.keyword ≠ Text.ofString "final") := by
  have hmoved (ms : List Modifier) : ∀ m ∈ ms.map (relocate g), ∃ p, m.place = g p := by
    intro m hm
    obtain ⟨m, -, rfl⟩ := List.mem_map.1 hm
    exact ⟨m.place, rfl⟩
  unfold relocateAll
  split
  · refine ⟨ms.dropLast.map (relocate g), hmoved _, ?_⟩
    unfold immutableByDefault
    split
    · exact .inl rfl
    · rename_i hcontains
      refine .inr ⟨rfl, fun m hm hfinal => hcontains ?_⟩
      exact Bool.or_eq_true_iff.2 (.inl (List.any_eq_true.2 ⟨m, hm, by simp [hfinal]⟩))
  · exact ⟨ms.map (relocate g), hmoved _, .inl rfl⟩

/-- A moved modifier that is no `final` is at a moved place. -/
theorem place_of_mem_relocateAll {ms : List Modifier} {m : Modifier} (hm : m ∈ relocateAll g ms)
    (hkeyword : m.keyword ≠ Text.ofString "final") : ∃ p, m.place = g p := by
  obtain ⟨ns, hns, h | ⟨h, -⟩⟩ := relocateAll_cases g ms
  · exact hns m (h ▸ hm)
  · rw [h] at hm
    rcases List.mem_append.1 hm with hm | hm
    · exact hns m hm
    · rw [List.mem_singleton.1 hm] at hkeyword
      exact absurd rfl hkeyword

end Modifier

/-! ## Pieces of syntax -/

theorem Ast.subterms_relocate {c : Category} (a : Ast c) :
    (a.relocate g).subterms = a.subterms.map fun p => ⟨p.1, p.2.relocate g⟩ := by
  refine fold_relocate (fun t xs => ?_) a
  cases t with
  | nil | cons | absent | present => exact List.map_flatten.symm
  | _ => exact congrArg (List.cons _) List.map_flatten.symm

namespace Validation

theorem mem_of_mem_twins {items : List Item} {item : Item} (h : item ∈ twins items) : item ∈ items := by
  obtain ⟨⟨_, i⟩, hmem, rfl⟩ := List.mem_map.1 h
  exact List.fst_mem_of_mem_zipIdx (List.mem_of_mem_filter hmem)

/-- Errors for twins are at the places of items. -/
theorem place_of_mem_twinErrors {before after : Text} {items : List Item}
    (hitems : ∀ item ∈ items, ∃ p, item.place = g p) {d : Diagnostic} (hd : d ∈ twinErrors before after items) :
    ∃ p, d.place = g p := by
  obtain ⟨item, hitem, rfl⟩ := List.mem_map.1 hd
  exact hitems item (mem_of_mem_twins hitem)

/-- An added `final` has no twin before it. -/
theorem place_of_mem_keywordErrors {ms : List Modifier} {d : Diagnostic}
    (hd : d ∈ twinErrors "duplicate modifier " [] ((Modifier.relocateAll g ms).map keywordItem)) :
    ∃ p, d.place = g p := by
  obtain ⟨ns, hns, h | ⟨h, hfinal⟩⟩ := Modifier.relocateAll_cases g ms
  all_goals
    have hitems : ∀ item ∈ ns.map keywordItem, ∃ p, item.place = g p := by
      intro item hitem
      obtain ⟨m, hm, rfl⟩ := List.mem_map.1 hitem
      exact hns m hm
  · exact place_of_mem_twinErrors (h ▸ hitems) hd
  · have hlone : (keywordItem ⟨.none, "final"⟩).key ∉ (ns.map keywordItem).map Item.key := by
      simpa [keywordItem] using hfinal
    rw [h, List.map_append, List.map_singleton, twinErrors, twins_append, if_neg hlone, List.append_nil] at hd
    exact place_of_mem_twinErrors hitems hd

/-- Errors for moved elements are at moved places if the elements are items there. -/
theorem place_of_mem_listErrors {before after : Text} {c : Category} {item : Ast c → Item} {as : Ast (.list c)}
    (hitem : ∀ a : Ast c, ∃ p, (item (a.relocate g)).place = g p) {d : Diagnostic}
    (hd : d ∈ twinErrors before after ((as.relocate g).toList.map item)) : ∃ p, d.place = g p := by
  refine place_of_mem_twinErrors (fun i hi => ?_) hd
  rw [Ast.toList_relocate, List.map_map] at hi
  obtain ⟨a, -, rfl⟩ := List.mem_map.1 hi
  exact hitem a

theorem place_typeItem_relocate {c : Category} (hc : c.hasPlace = true) (t : Ast c) :
    ∃ p, (typeItem (t.relocate g)).place = g p := ⟨t.place, t.place_relocate hc⟩

theorem place_typeParameterItem_relocate (p : Ast .typeParameter) :
    ∃ q, (typeParameterItem (p.relocate g)).place = g q := by
  cases p
  exact ⟨_, rfl⟩

theorem place_parameterItem_relocate (p : Ast .parameter) : ∃ q, (parameterItem (p.relocate g)).place = g q := by
  cases p
  exact ⟨_, rfl⟩

theorem place_of_mem_abstractWarnings {n : Text} {h : Ast .header} {d : Diagnostic}
    (hd : d ∈ abstractWarnings n (h.relocate g)) : ∃ p, d.place = g p := by
  obtain ⟨annotations, ms⟩ := h
  obtain ⟨m, hm, rfl⟩ := List.mem_map.1 hd
  obtain ⟨hm, hkeyword⟩ := List.mem_filter.1 hm
  refine Modifier.place_of_mem_relocateAll hm fun hfinal => ?_
  rw [hfinal] at hkeyword
  revert hkeyword
  decide

/-- What is to be found at a moved piece of syntax is at moved places. -/
theorem place_of_mem_findingsAt {c : Category} {a : Ast c} {d : Diagnostic} (hd : d ∈ findingsAt (a.relocate g)) :
    ∃ p, d.place = g p := by
  cases a with
  | header => exact place_of_mem_keywordErrors hd
  | classDecl =>
    rcases List.mem_append.1 hd with hd | hd
    · exact place_of_mem_listErrors place_typeParameterItem_relocate hd
    · exact place_of_mem_listErrors (place_typeItem_relocate rfl) hd
  | interfaceDecl =>
    rcases List.mem_append.1 hd with hd | hd
    · exact place_of_mem_listErrors place_typeParameterItem_relocate hd
    · rcases List.mem_append.1 hd with hd | hd
      · exact place_of_mem_listErrors (place_typeItem_relocate rfl) hd
      · exact place_of_mem_abstractWarnings hd
  | methodDecl | constructorDecl =>
    rcases List.mem_append.1 hd with hd | hd
    · exact place_of_mem_listErrors place_typeParameterItem_relocate hd
    · rcases List.mem_append.1 hd with hd | hd
      · exact place_of_mem_listErrors (place_typeItem_relocate rfl) hd
      · exact place_of_mem_listErrors place_parameterItem_relocate hd
  | lambda => exact place_of_mem_listErrors place_parameterItem_relocate hd
  | _ => exact absurd hd List.not_mem_nil

theorem place_of_mem_topLevelErrors {t : Ast .typeDecl} {d : Diagnostic}
    (hd : d ∈ topLevelErrors (t.relocate g).declared) : ∃ p, d.place = g p := by
  rw [Ast.declared_relocate] at hd
  obtain ⟨m, hm, rfl⟩ := List.mem_map.1 hd
  obtain ⟨hm, hkeyword⟩ := List.mem_filter.1 hm
  refine Modifier.place_of_mem_relocateAll hm fun hfinal => ?_
  rw [hfinal] at hkeyword
  revert hkeyword
  decide

theorem place_of_mem_nameErrors {file : Text} {t : Ast .typeDecl} {d : Diagnostic}
    (hd : d ∈ nameErrors file (t.relocate g).declared) : ∃ p, d.place = g p := by
  rw [Ast.declared_relocate, nameErrors] at hd
  split at hd
  · rw [List.mem_singleton.1 hd]
    exact ⟨_, rfl⟩
  · exact absurd hd List.not_mem_nil

/-- What validation finds in a moved file is at moved places. -/
theorem place_of_mem_validate {file : Text} {u : CompilationUnit} {d : Diagnostic}
    (hd : d ∈ validate file (u.relocate g)) : ∃ p, d.place = g p := by
  have hexpected := ((List.mergeSort_perm _ _).trans (flatMap_foundAt_tree file (u.relocate g))).mem_iff.1 hd
  rcases List.mem_append.1 hexpected with h | h
  · rcases List.mem_append.1 h with h | h
    · exact place_of_mem_nameErrors h
    · exact place_of_mem_topLevelErrors h
  · obtain ⟨piece, hpiece, h⟩ := List.mem_flatMap.1 h
    have hmoved : (u.relocate g).subterms = u.subterms.map fun p => ⟨p.1, p.2.relocate g⟩ := by
      rw [CompilationUnit.subterms, CompilationUnit.subterms, List.map_append]
      exact congrArg₂ (· ++ ·) (Ast.subterms_relocate _) (Ast.subterms_relocate _)
    rw [hmoved] at hpiece
    obtain ⟨piece, -, rfl⟩ := List.mem_map.1 hpiece
    exact place_of_mem_findingsAt h

end Validation

/-! ## Imports -/

theorem ImportDecl.place_of_mem_warningsAfter {disk : Disk} {path : SearchPath} {v : Visits} {is : List ImportDecl}
    {d : Diagnostic} (hd : d ∈ warningsAfter disk path v is) : ∃ i ∈ is, d.place = i.place := by
  induction is generalizing v with
  | nil => exact absurd hd List.not_mem_nil
  | cons i is ih =>
    have hlater {v : Visits} (hd : d ∈ warningsAfter disk path v is) : ∃ j ∈ i :: is, d.place = j.place := by
      obtain ⟨j, hj, hplace⟩ := ih hd
      exact ⟨j, List.mem_cons_of_mem _ hj, hplace⟩
    rw [warningsAfter] at hd
    split at hd
    · exact hlater hd
    · rcases List.mem_append.1 hd with hd | hd
      · obtain ⟨message, -, rfl⟩ := Option.map_eq_some_iff.1 (Option.mem_toList.1 hd)
        exact ⟨i, List.mem_cons_self, rfl⟩
      · exact hlater hd

/-! ## Analyses -/

namespace Compilation

/-- What checks find in a moved file is at moved places. -/
theorem place_of_mem_findings {disk : Disk} {options : Options} {file : Text} {u : CompilationUnit} {d : Diagnostic}
    (hd : d ∈ findings disk options file (u.relocate g)) : ∃ p, d.place = g p := by
  have hfound {d : Diagnostic} (hd : d ∈ Validation.validate file (u.relocate g) ++
      (options.searchPath.map (ImportDecl.warnings disk · (u.relocate g).imports)).getD []) : ∃ p, d.place = g p := by
    rcases List.mem_append.1 hd with hd | hd
    · exact Validation.place_of_mem_validate hd
    · cases hpath : options.searchPath with
      | none =>
        rw [hpath] at hd
        exact absurd hd List.not_mem_nil
      | some path =>
        rw [hpath] at hd
        obtain ⟨i, hi, hplace⟩ := ImportDecl.place_of_mem_warningsAfter hd
        obtain ⟨i, -, rfl⟩ := List.mem_map.1 hi
        exact ⟨i.place, hplace⟩
  rw [findings] at hd
  split at hd
  · obtain ⟨e, he, rfl⟩ := List.mem_map.1 hd
    obtain ⟨q, hq⟩ := hfound he
    exact ⟨q, hq⟩
  · exact hfound hd

/-- A place that something corresponds to. -/
def Occurs (R : Position → Position → Prop) (q : Place) : Prop := ∃ p p', R p p' ∧ p.place = q

section Parsed

variable {R : Position → Position → Prop} {hR : Aligned R} {p p' : Grammar.Parsed} (hp : Grammar.ParsedTwin hR p p')

include hp

theorem occurs_of_mem_errors {e : SyntaxError} (he : e ∈ p.errors) : Occurs R e.pos.place := by
  obtain ⟨i, hi, rfl⟩ := List.getElem_of_mem he
  exact ⟨_, _, (hp.errors.get hi (hp.errors.length_eq ▸ hi)).2, rfl⟩

open Classical in
theorem occurs_of_mem_findings (hR₀ : ∃ q, Occurs R q) {u : CompilationUnit} (hu : CompilationUnit.ofCst p.tree = .ok u)
    {disk : Disk} {options : Options} {file : Text} {d : Diagnostic} (hd : d ∈ findings disk options file u) :
    Occurs R d.place := by
  obtain ⟨q₀, hq₀⟩ := hR₀
  let g (q : Place) : Place := if Occurs R q then q else q₀
  have hvalues (q : Place) : Occurs R (g q) := by
    unfold g
    split <;> assumption
  have hkept {l l' : Cst.Label} (hl : (Grammar.alignedFrame hR).label l l') : l.Moved g l :=
    ⟨rfl, (if_pos ⟨_, _, hl.first, rfl⟩).symm, rfl⟩
  have hread := Ast.Reading.ofCst_moved (hp.tree.left fun _ _ => hkept)
  rw [hu] at hread
  have hunit : u = u.relocate g := by
    cases hread with
    | ok h => exact h.eq
  rw [hunit] at hd
  obtain ⟨q, hq⟩ := place_of_mem_findings hd
  rw [hq]
  exact hvalues q

end Parsed

theorem occurs_of_mem_diagnostics {disk : Disk} {options : Options} {file source : Text} {a : Analysis}
    (h : analyze disk options file source = .ok a) {d : Diagnostic} (hd : d ∈ a.diagnostics) :
    Occurs (Grammar.SamePlaces source source) d.place := by
  have hparsed := parseUnit_related (s := source) rfl
  have hsome : ∃ q, Occurs (Grammar.SamePlaces source source) q := by
    obtain ⟨t, ht⟩ := List.exists_mem_of_ne_nil _ (Grammar.good_ne_nil source)
    obtain ⟨i, hi, rfl⟩ := List.getElem_of_mem (List.mem_of_mem_filter ht)
    exact ⟨_, _, _, ⟨i, _, _, 0, List.getElem?_eq_getElem hi, List.getElem?_eq_getElem hi, .inl rfl, rfl, rfl⟩, rfl⟩
  revert h hparsed
  unfold analyze
  generalize Grammar.parseUnit source = p
  intro h hparsed
  dsimp only at h
  split at h
  · split at h
    · next u hu =>
      obtain rfl := Except.ok.inj h
      exact occurs_of_mem_findings hparsed hsome hu hd
    · cases h
  · obtain rfl := Except.ok.inj h
    obtain ⟨e, he, rfl⟩ := List.mem_map.1 hd
    exact occurs_of_mem_errors hparsed he

/-- Every diagnostic is at the start of a token or of what is left of one. -/
theorem place_of_mem_diagnostics {disk : Disk} {options : Options} {file source : Text} {a : Analysis}
    (h : analyze disk options file source = .ok a) {d : Diagnostic} (hd : d ∈ a.diagnostics) :
    ∃ t ∈ Token.significant source, ∃ j, Grammar.Inside t j ∧ d.place = (t.span.first.right j).place := by
  obtain ⟨_, _, ⟨i, t, t', j, ht, -, hj, rfl, -⟩, hplace⟩ := occurs_of_mem_diagnostics h hd
  exact ⟨t, List.mem_of_getElem? ht, j, hj, hplace.symm⟩

end Compilation

end KiteCompiler
