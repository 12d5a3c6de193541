import KiteCompiler.Proofs.Reading.Inversion

/-!
# What can be read has no faults

Wherever there is a fault in a tree, the tree cannot be read in any role (`sound_of_read`), if the nodes for one token
have no children: abstract syntax stands for all of its trees, and there is no rule by which it stands for a fault.
-/

namespace KiteCompiler

namespace Cst

variable {l : Label} {ts us : List Cst}

/-- There is no fault in any of the trees. -/
def AllSound (ts : List Cst) : Prop := ∀ t ∈ ts, t.Sound

@[simp] theorem allSound_nil : AllSound [] := List.forall_mem_nil _

@[simp] theorem allSound_append : AllSound (ts ++ us) ↔ AllSound ts ∧ AllSound us := List.forall_mem_append

@[simp] theorem allSound_cons {t : Cst} : AllSound (t :: ts) ↔ t.Sound ∧ AllSound ts := List.forall_mem_cons

@[simp] theorem sound_node (hk : l.kind.isPlain = true) : Sound (.node l ts) ↔ AllSound ts := by
  refine ⟨fun h => (Tree.every_node.1 h).2, fun hts => Tree.every_node.2 ⟨?_, hts⟩⟩
  rintro (h | ⟨h | h, -⟩) <;> simp [show l.kind = _ from h] at hk

theorem Dotted.sound {t : Cst} {parts : List Text} (h : t.Dotted parts) : t.Sound := by
  obtain ⟨l, ts⟩ := t
  obtain ⟨hk, ns, hts, hns, -⟩ := h
  refine (sound_node (by rw [show l.kind = _ from hk])).2 ?_
  rw [show ts = _ from hts]
  exact List.forall_mem_map.2 fun n hn => (sound_node (by rw [hns n hn])).2 allSound_nil

end Cst

namespace Ast

open Cst in
/-- What syntax stands for has no fault. -/
theorem Stands.sound {direct : Prop} {c : Category} {us : List Cst} {a : Ast c} (h : Stands direct us a) :
    Cst.AllSound us := by
  induction h with
  | within hl _ _ ih => simpa [Kind.isPlain_of_encloses hl] using ih
  | marker hl hq | single hl hq | normal hl hq => simp_all [hq.sound]
  | @header _ as ms l ts hts _ hms _ ih =>
    have hk : l.kind = .modifiers := hms.1
    refine List.forall_mem_singleton.2 ((sound_node (by rw [hk])).2 fun t ht => ?_)
    obtain hk | ⟨hk, hleaf⟩ := hts t ht
    · exact ih t (List.mem_filter.2 ⟨ht, decide_eq_true hk⟩)
    · obtain ⟨k, ks⟩ := t
      obtain rfl : ks = [] := hleaf
      exact (sound_node (by rw [show k.kind = _ from hk])).2 allSound_nil
  | @objectCreation _ _ _ _ _ _ _ _ _ _ _ l hl hcreated _ _ _ _ _ ihus ihvs ihws ihxs ihys =>
    refine allSound_append.2 ⟨ihus, List.forall_mem_singleton.2
      (Tree.every_node.2 ⟨fun h => h.elim (fun h => ?_) hcreated, ?_⟩)⟩
    · have herror : l.kind = .error := h
      simp [herror] at hl
    · exact allSound_append.2 ⟨ihvs, allSound_append.2 ⟨ihws, allSound_append.2 ⟨ihxs, ihys⟩⟩⟩
  | methodRef _ hn | arrayRef _ hn | constructorCall hn | methodDecl hn =>
    obtain hn | hn := (by simpa using hn : _ ∨ _) <;> simp_all
  | @variableDecl _ _ _ _ _ role => cases role <;> simp_all [VariableRole.kind]
  | _ => simp_all

end Ast

open Cst (AllSound)

theorem PackageDecl.Stands.sound {direct : Prop} {us : List Cst} {package : PackageDecl}
    (h : package.Stands direct us) : AllSound us := by
  cases h with
  | none => exact Cst.allSound_nil
  | some hl hq has => simp [hl, hq.sound, has.sound]

theorem ImportDecl.Stands.sound {t : Cst} {i : ImportDecl} (h : i.Stands t) : t.Sound := by
  obtain ⟨words, stars, hl, hwords, hstars, hq⟩ := h
  have hleaves {ns : List Cst.Label} {k : Cst.Kind} (hns : ∀ n ∈ ns, n.kind = k) (hk : k.isPlain = true) :
      AllSound (ns.map (Tree.node · [])) :=
    List.forall_mem_map.2 fun n hn => (Cst.sound_node (by rwa [hns n hn])).2 Cst.allSound_nil
  simp [hl, hq.sound, hleaves hwords rfl, hleaves hstars rfl]

theorem ImportDecl.sound_of_stands {ts : List Cst} {is : List ImportDecl} (h : List.Forall₂ ImportDecl.Stands ts is) :
    AllSound ts := by
  induction h with
  | nil => exact Cst.allSound_nil
  | cons hi _ ih => exact Cst.allSound_cons.2 ⟨hi.sound, ih⟩

namespace Ast

/-- A tree with a fault cannot be read in any role. -/
theorem sound_of_read {t : Cst} (h : t.Every Cst.Bare) {r : Role} {v : Ast r.category}
    (hread : (Reading.decorate t).read r = .ok v) : t.Sound := by
  have hstands : Stands False [t] v := stands_of_read h nofun hread
  exact hstands.sound t (List.mem_singleton_self t)

/-- A tree with a fault cannot be read as a file. -/
theorem sound_of_ofCst {t : Cst} (h : t.Every Cst.Bare) {v : CompilationUnit}
    (hread : CompilationUnit.ofCst t = .ok v) : t.Sound := by
  have hstands : v.Stands False t := stands_of_ofCst h nofun hread
  obtain ⟨hl, hpackage, himports, htype⟩ := hstands
  have htype := htype.sound
  simp_all [hpackage.sound, ImportDecl.sound_of_stands himports]

end Ast

end KiteCompiler
