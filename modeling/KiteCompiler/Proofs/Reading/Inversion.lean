import KiteCompiler.Proofs.Reading.Standing

/-!
# What is read stands for the tree

Where reading a tree succeeds, the abstract syntax stands for the tree (`stands_of_read`). There is one lemma for each
way of reading a node. A reading goes through the children of its node; `Reads` collects those that it takes, so that at
its end the row of all children is known, and with it the rule of `Stands` that applies.
-/

namespace KiteCompiler.Ast

variable {α β : Type}

/-! ## Trees that can be trusted -/

/-- The concrete tree of a decorated node. -/
abbrev Decorated.tree (d : Decorated) : Cst := d.branch.tree

theorem Decorated.tree_eq_source : Decorated.tree = Decorated.source := funext Decorated.tree_branch

theorem Branch.tree_eq (t : Branch) : t.tree = .node t.source (t.children.map Decorated.tree) := by
  rw [Decorated.tree_eq_source]
  rfl

section

variable (direct : Prop)

/-- The root is as the grammar makes it, and what is read off it stands for it. An expression is no declared name, and a
type that is a class has no primitive part. -/
structure Decorated.Trusty (d : Decorated) : Prop where
  genuine : (Reading.decorate d.tree).branch = d.branch
  bare : d.tree.Bare
  formed : direct → d.tree.Formed
  stands (r : Role) (a : Ast r.category) : d.read r = .ok a → Stands direct [d.tree] a
  nameless (e : Ast .expr) : d.read .expr = .ok e → d.tree.name? = none
  created (v : Ast .classType) : d.read .type = .ok (.classRef v) → d.tree.has .primitiveType = false

/-- The same of all nodes. -/
def Decorated.Trusted (d : Decorated) : Prop := d.Every (Trusty direct)

/-- The same of a node whose own readings are to be found out. -/
structure Branch.Trusted (t : Branch) : Prop where
  genuine : (Reading.decorate t.tree).branch = t
  bare : t.tree.Bare
  formed : direct → t.tree.Formed
  children : ∀ c ∈ t.children, c.Trusted direct

end

variable {direct : Prop}

/-- A node for one token. -/
theorem Branch.Trusted.leaf {t : Branch} (h : t.Trusted direct) {k : Cst.Kind} (hk : t.kind = k)
    (hleaf : k.isInner = false) :
    t.tree = .node t.source [] :=
  congrArg (Tree.node t.source) (h.bare (show t.kind.isInner = false by rw [hk, hleaf]))

namespace Decorated.Trusted

variable {d : Decorated}

theorem branch (h : d.Trusted direct) : d.branch.Trusted direct :=
  ⟨h.root.genuine, h.root.bare, h.root.formed, fun _ hc => h.child hc⟩

theorem stands (h : d.Trusted direct) {r : Role} {a : Ast r.category} (ha : d.read r = .ok a) :
    Stands direct [d.branch.tree] a :=
  h.root.stands r a ha

theorem nameless (h : d.Trusted direct) {e : Ast .expr} (he : d.read .expr = .ok e) : Cst.Nameless [d.branch.tree] :=
  List.forall_mem_singleton.2 (h.root.nameless e he)

end Decorated.Trusted

namespace Reading

open Decorated (Trusted)

/-! ## Collecting children -/

/-- Where the reading succeeds on children with a property, the sources of those that it takes and the result are
related by `K`. If it takes `all`, no children are left. -/
structure Reads (P : Decorated → Prop) (all : Bool) (m : Reading α) (K : List Cst → α → Prop) : Prop where
  run {c c' : Cursor} {a : α} (hc : ∀ d ∈ c.rest, P d) (h : m c = (.ok a, c')) :
    (∃ used, c.rest = used ++ c'.rest ∧ K (used.map Decorated.tree) a) ∧ (all = true → c'.rest = [])

namespace Reads

variable {P : Decorated → Prop} {all : Bool} {m : Reading α} {f : α → Reading β} {K : List Cst → β → Prop}
    {J : List Cst → α → Prop} {t : Branch}

theorem pure {b : β} (h : K [] b) : Reads P false (Pure.pure b : Reading β) K := by
  refine ⟨fun {c c' a} _ hrun => ?_⟩
  obtain ⟨rfl, rfl⟩ := pure_ok.1 hrun
  exact ⟨⟨[], rfl, h⟩, nofun⟩

theorem fail {cause : Malformed.Cause} : Reads P all (Reading.fail t cause : Reading β) K :=
  ⟨fun _ h => absurd h fail_ok⟩

theorem failBind {cause : Malformed.Cause} : Reads P all (Reading.fail t cause >>= f) K :=
  ⟨fun _ h => (bind_ok.1 h).elim fun _ ⟨_, h, _⟩ => absurd h fail_ok⟩

theorem bind (hm : Reads P false m J) (hf : ∀ us a, J us a → Reads P all (f a) fun vs => K (us ++ vs)) :
    Reads P all (m >>= f) K := by
  refine ⟨fun {c c' b} hc h => ?_⟩
  obtain ⟨a, c₁, h₁, h₂⟩ := bind_ok.1 h
  obtain ⟨⟨used, hrest, hJ⟩, -⟩ := hm.run hc h₁
  have hc₁ : ∀ d ∈ c₁.rest, P d := fun d hd => hc d (hrest ▸ List.mem_append_right _ hd)
  obtain ⟨⟨used', hrest', hK⟩, hall⟩ := (hf _ _ hJ).run hc₁ h₂
  refine ⟨⟨used ++ used', ?_, ?_⟩, hall⟩
  · rw [hrest, hrest', List.append_assoc]
  · rw [List.map_append]
    exact hK

/-- Nothing is read behind the last part. -/
theorem last {g : α → β} (hm : Reads P all m J) (hK : ∀ us a, J us a → K us (g a)) :
    Reads P all (m >>= fun a => Pure.pure (g a)) K := by
  refine ⟨fun {c c' b} hc h => ?_⟩
  obtain ⟨a, c₁, h₁, h₂⟩ := bind_ok.1 h
  obtain ⟨rfl, rfl⟩ := pure_ok.1 h₂
  obtain ⟨⟨used, hrest, hJ⟩, hall⟩ := hm.run hc h₁
  exact ⟨⟨used, hrest, hK _ _ hJ⟩, hall⟩

theorem pureBind {a : α} (h : Reads P all (f a) K) : Reads P all (Pure.pure a >>= f) K := by
  refine ⟨fun {c c' b} hc hrun => ?_⟩
  obtain ⟨_, c₁, h₁, h₂⟩ := bind_ok.1 hrun
  obtain ⟨rfl, rfl⟩ := pure_ok.1 h₁
  exact h.run hc h₂

theorem ite {p : Prop} [Decidable p] {m m' : Reading β} (h : p → Reads P all m K) (h' : ¬p → Reads P all m' K) :
    Reads P all (if p then m else m') K := by
  split
  · exact h ‹_›
  · exact h' ‹_›

/-- A result that was found elsewhere. -/
theorem result {r : Result α} (hf : ∀ a, r = .ok a → Reads P all (f a) K) : Reads P all (liftM r >>= f) K := by
  refine ⟨fun {c c' b} hc h => ?_⟩
  obtain ⟨a, c₁, h₁, h₂⟩ := bind_ok.1 h
  obtain ⟨hok, rfl⟩ := lift_ok.1 h₁
  exact (hf a hok).run hc h₂

theorem lift {r : Result β} (h : ∀ b, r = .ok b → K [] b) : Reads P false (liftM r : Reading β) K := by
  refine ⟨fun {c c' b} _ hrun => ?_⟩
  obtain ⟨hok, rfl⟩ := lift_ok.1 hrun
  exact ⟨⟨[], rfl, h b hok⟩, nofun⟩

/-- The same of a result that is wrapped up. -/
theorem wrapped {r : Result α} {g : α → β} (h : ∀ a, r = .ok a → K [] (g a)) :
    Reads P false (g <$> liftM r : Reading β) K := by
  rw [map_eq_pure_bind]
  exact result fun a ha => .pure (h a ha)

/-- Results that depend on each other, one after the other. -/
theorem folded {γ : Type} {g : β → γ → Result β} {xs : List γ} {b : β} (h : ∀ b', xs.foldlM g b = .ok b' → K [] b') :
    Reads P false (xs.foldlM (fun b x => (liftM (g b x) : Reading β)) b) K := by
  induction xs generalizing b with
  | nil => exact .pure (h b rfl)
  | cons x xs ih =>
    refine .result fun b' hb' => ih fun b'' hb'' => h b'' ?_
    rw [List.foldlM_cons]
    exact Result.bind_ok.2 ⟨b', hb', hb''⟩

theorem peek {f : Option Decorated → Reading β} (hf : ∀ o, Reads P all (f o) K) :
    Reads P all (Reading.peek >>= f) K := by
  refine ⟨fun {c c' b} hc h => ?_⟩
  obtain ⟨o, c₁, h₁, h₂⟩ := bind_ok.1 h
  obtain ⟨-, rfl⟩ := peek_ok.1 h₁
  exact (hf o).run hc h₂

theorem node {f : Branch → Reading β} (hf : ∀ n, Reads P all (f n) K) : Reads P all (Reading.node >>= f) K := by
  refine ⟨fun {c c' b} hc h => ?_⟩
  obtain ⟨n, c₁, h₁, h₂⟩ := bind_ok.1 h
  obtain ⟨-, rfl⟩ := node_ok.1 h₁
  exact (hf n).run hc h₂

/-- A child is taken, and then others. -/
theorem run_taken {m : Reading β} {n : Branch} {d : Decorated} {ds : List Decorated} {c' : Cursor} {b : β}
    (hm : Reads P all m fun vs => K (d.branch.tree :: vs)) (hc : ∀ e ∈ d :: ds, P e) (h : m ⟨n, ds⟩ = (.ok b, c')) :
    (∃ used, d :: ds = used ++ c'.rest ∧ K (used.map Decorated.tree) b) ∧ (all = true → c'.rest = []) := by
  obtain ⟨⟨used, hrest, hK⟩, hall⟩ := hm.run (c := ⟨n, ds⟩) (fun e he => hc e (List.mem_cons_of_mem _ he)) h
  exact ⟨⟨d :: used, congrArg (d :: ·) hrest, hK⟩, hall⟩

theorem next {f : Decorated → Reading β} (hf : ∀ d, P d → Reads P all (f d) fun vs => K (d.branch.tree :: vs)) :
    Reads P all (Reading.next >>= f) K := by
  refine ⟨fun {c c' b} hc h => ?_⟩
  obtain ⟨d, c₁, h₁, h₂⟩ := bind_ok.1 h
  obtain ⟨-, rfl⟩ := next_ok.1 h₁
  exact run_taken (hf d (hc d List.mem_cons_self)) hc h₂

theorem expect {kinds : List Cst.Kind} {f : Decorated → Reading β}
    (hf : ∀ d, P d → d.kind ∈ kinds → Reads P all (f d) fun vs => K (d.branch.tree :: vs)) :
    Reads P all (Reading.expect kinds >>= f) K := by
  refine ⟨fun {c c' b} hc h => ?_⟩
  obtain ⟨d, c₁, h₁, h₂⟩ := bind_ok.1 h
  obtain ⟨⟨-, hk⟩, rfl⟩ := expect_ok.1 h₁
  exact run_taken (hf d (hc d List.mem_cons_self) hk) hc h₂

/-- The same of one kind. -/
theorem one {k : Cst.Kind} {f : Decorated → Reading β}
    (hf : ∀ d, P d → d.kind = k → Reads P all (f d) fun vs => K (d.branch.tree :: vs)) :
    Reads P all (Reading.expect [k] >>= f) K :=
  expect fun d hd hk => hf d hd (List.mem_singleton.1 hk)

theorem optionalOf {kinds : List Cst.Kind} {f : Option Decorated → Reading β}
    (hsome : ∀ d, P d → d.kind ∈ kinds → Reads P all (f (some d)) fun vs => K (d.branch.tree :: vs))
    (hnone : Reads P all (f none) K) :
    Reads P all (Reading.optional kinds >>= f) K := by
  refine ⟨fun {c c' b} hc h => ?_⟩
  obtain ⟨o, c₁, h₁, h₂⟩ := bind_ok.1 h
  rcases optional_ok h₁ with ⟨d, rfl, hk, rfl⟩ | ⟨rfl, rfl, -⟩
  · exact run_taken (hsome d (hc d List.mem_cons_self) hk) hc h₂
  · exact hnone.run hc h₂

theorem optional {k : Cst.Kind} {f : Option Decorated → Reading β}
    (hsome : ∀ d, P d → d.kind = k → Reads P all (f (some d)) fun vs => K (d.branch.tree :: vs))
    (hnone : Reads P all (f none) K) :
    Reads P all (Reading.optional [k] >>= f) K := optionalOf (fun d hd hk => hsome d hd (List.mem_singleton.1 hk)) hnone

section

variable {kinds : List Cst.Kind} {k : Cst.Kind} {m : Option Decorated → Reading β} {s : Decorated → Reading α} {a₀ : α}

/-- A part that can be missing: `s` reads it, and `a₀` stands for it otherwise. -/
theorem partOf (hsome : ∀ d, m (some d) = s d >>= f) (hnone : m none = Pure.pure a₀ >>= f)
    (hs : ∀ d, P d → d.kind ∈ kinds → Reads P false (s d) fun us => J (d.branch.tree :: us)) (h₀ : J [] a₀)
    (hf : ∀ us a, J us a → Reads P all (f a) fun vs => K (us ++ vs)) :
    Reads P all (Reading.optional kinds >>= m) K := by
  refine optionalOf (fun d hd hk => ?_) ?_
  · rw [hsome]
    exact .bind (hs d hd hk) fun us => hf (d.branch.tree :: us)
  · rw [hnone]
    exact .pureBind (hf [] a₀ h₀)

theorem part (hsome : ∀ d, m (some d) = s d >>= f) (hnone : m none = Pure.pure a₀ >>= f)
    (hs : ∀ d, P d → d.kind = k → Reads P false (s d) fun us => J (d.branch.tree :: us)) (h₀ : J [] a₀)
    (hf : ∀ us a, J us a → Reads P all (f a) fun vs => K (us ++ vs)) : Reads P all (Reading.optional [k] >>= m) K :=
  partOf hsome hnone (fun d hd hk => hs d hd (List.mem_singleton.1 hk)) h₀ hf

end

theorem many {kind : Cst.Kind} {f : List Decorated → Reading β}
    (hf : ∀ ds : List Decorated, (∀ d ∈ ds, P d ∧ d.kind = kind) → Reads P all (f ds) fun vs =>
    K (ds.map Decorated.tree ++ vs)) :
    Reads P all (Reading.many kind >>= f) K := by
  refine ⟨fun {c c' b} hc h => ?_⟩
  obtain ⟨ds, c₁, h₁, h₂⟩ := bind_ok.1 h
  obtain ⟨rfl, rfl⟩ := many_ok.1 h₁
  have hds : ∀ d ∈ c.rest.takeWhile (Decorated.kind · == kind), P d ∧ d.kind = kind := fun d hd =>
    ⟨hc d (List.takeWhile_subset _ hd), beq_iff_eq.1 (List.all_eq_true.1 List.all_takeWhile d hd)⟩
  have hrest : ∀ d ∈ c.rest.dropWhile (Decorated.kind · == kind), P d := fun d hd =>
    hc d ((List.dropWhile_suffix _).subset hd)
  obtain ⟨⟨used, hused, hK⟩, hall⟩ := (hf _ hds).run (c := ⟨c.node, _⟩) hrest h₂
  refine ⟨⟨c.rest.takeWhile (Decorated.kind · == kind) ++ used, ?_, ?_⟩, hall⟩
  · rw [List.append_assoc, ← hused, List.takeWhile_append_dropWhile]
  · rw [List.map_append]
    exact hK

theorem rest {f : List Decorated → Reading β}
    (hf : ∀ ds : List Decorated, (∀ d ∈ ds, P d) → Reads P false (f ds) fun vs b =>
    vs = [] → K (ds.map Decorated.tree) b) :
    Reads P true (Reading.rest >>= f) K := by
  refine ⟨fun {c c' b} hc h => ?_⟩
  obtain ⟨ds, c₁, h₁, h₂⟩ := bind_ok.1 h
  obtain ⟨-, rfl, rfl⟩ := rest_ok.1 h₁
  obtain ⟨⟨used, hnone, hK⟩, -⟩ := (hf _ hc).run (c := ⟨c.node, []⟩) nofun h₂
  obtain ⟨rfl, hleft⟩ := List.append_eq_nil_iff.1 hnone.symm
  exact ⟨⟨c.rest, by rw [hleft, List.append_nil], hK rfl⟩, fun _ => hleft⟩

theorem done {f : Unit → Reading β} (hf : Reads P false (f ()) fun vs b => vs = [] → K [] b) :
    Reads P true (Reading.done >>= f) K := by
  refine ⟨fun {c c' b} hc h => ?_⟩
  obtain ⟨_, c₁, h₁, h₂⟩ := bind_ok.1 h
  obtain ⟨hnil, rfl⟩ := done_ok.1 h₁
  obtain ⟨⟨used, hused, hK⟩, -⟩ := hf.run hc h₂
  rw [hnil] at hused
  obtain ⟨rfl, hrest⟩ := List.append_eq_nil_iff.1 hused.symm
  exact ⟨⟨[], by rw [hnil, hrest]; rfl, hK rfl⟩, fun _ => hrest⟩

theorem some (hm : Reads P all m J) : Reads P false m J := ⟨fun hc h => ⟨(hm.run hc h).1, nofun⟩⟩

theorem mono {J' : List Cst → α → Prop} (hm : Reads P all m J) (h : ∀ us a, J us a → J' us a) : Reads P all m J' :=
  ⟨fun hc hrun => ⟨(hm.run hc hrun).1.imp fun _ hused => ⟨hused.1, h _ _ hused.2⟩, (hm.run hc hrun).2⟩⟩

/-! ## Whole nodes -/

theorem within {a : α} (ht : ∀ c ∈ t.children, P c) (hm : Reads P true m J) (h : Reading.within t m = .ok a) :
    J (t.children.map Decorated.tree) a := by
  obtain ⟨-, c', h⟩ := within_ok.1 h
  obtain ⟨⟨used, hrest, hJ⟩, hall⟩ := hm.run ht h
  rw [hall rfl, List.append_nil] at hrest
  rwa [← hrest] at hJ

theorem whole {a : α} (ht : ∀ c ∈ t.children, P c) (hm : Reads P false m J) (h : Reading.whole t m = .ok a) :
    J (t.children.map Decorated.tree) a := by
  refine within ht (m := m >>= fun a => Reading.done >>= fun _ => Pure.pure a)
    (.bind hm fun us a ha => .done (.pure fun _ => ?_)) h
  rwa [List.append_nil]

theorem thenDone (hm : Reads P false m J) : Reads P true (Reading.thenDone m) J := by
  refine ⟨fun {c c' a} hc h => ?_⟩
  obtain ⟨h, hnil⟩ := thenDone_ok.1 h
  exact ⟨(hm.run hc h).1, fun _ => hnil⟩

end Reads

variable {all : Bool} {t : Branch} {K : List Cst → β → Prop}

/-- Each of some nodes is read, and something is made of what was read. -/
theorem stands_mapM {c : Category} {g : Decorated → Result α} {f : α → Ast c} {ds : List Decorated} {as : List α}
    (hg : ∀ d ∈ ds, ∀ a, g d = .ok a → Stands direct [d.branch.tree] (f a)) (h : ds.mapM g = .ok as) :
    Stands direct (ds.map Decorated.tree) (ofList (as.map f)) := by
  replace h := mapM_ok h
  induction h with
  | nil => exact .nil
  | cons ha _ ih =>
    obtain ⟨hd, hds⟩ := List.forall_mem_cons.1 hg
    exact (hd _ ha).cons (ih hds)

theorem stands_each {c : Category} {g : Branch → Result (Ast c)} {ds : List Decorated} {as : List (Ast c)}
    (hg : ∀ d ∈ ds, ∀ a, g d.branch = .ok a → Stands direct [d.branch.tree] a) (h : each g ds = .ok as) :
    Stands direct (ds.map Decorated.tree) (ofList as) := by
  have hmap := stands_mapM (f := id) hg h
  rwa [List.map_id] at hmap

theorem stands_eachIn {r : Role} {ds : List Decorated} (hds : ∀ d ∈ ds, d.Trusted direct) {as : Ast (.list r.category)}
    (h : eachIn r ds = .ok as) : Stands direct (ds.map Decorated.tree) as := by
  obtain ⟨as, has, rfl⟩ := Result.map_ok.1 h
  have hmap := stands_mapM (f := id) (fun d hd a ha => (hds d hd).stands ha) has
  rwa [List.map_id] at hmap

/-! ## Names and annotations -/

theorem stands_identifier (ht : t.Trusted direct) {n : Text} (h : identifier t = .ok n) :
    t.tree = .node t.source [] ∧ t.source.kind = .identifier ∧ n = t.source.text := by
  obtain ⟨hk, h⟩ := of_kind_test h
  exact ⟨ht.leaf hk rfl, hk, (Except.ok.inj h).symm⟩

namespace Reads

/-- A token that comes next. -/
theorem leaf {kinds : List Cst.Kind} {f : Decorated → Reading β} (hkinds : (kinds.all fun k => !k.isInner) = true)
    (hf : ∀ d : Decorated, d.kind ∈ kinds → Reads (Trusted direct) all (f d) fun vs =>
    K (.node d.branch.source [] :: vs)) :
    Reads (Trusted direct) all (Reading.expect kinds >>= f) K := by
  refine expect fun d hd hk => ?_
  rw [hd.branch.leaf (k := d.kind) rfl (by simpa using List.all_eq_true.1 hkinds _ hk)]
  exact hf d hk

/-- A name that comes next. -/
theorem name {f : Text → Reading β}
    (hf : ∀ n : Cst.Label, n.kind = .identifier → Reads (Trusted direct) all (f n.text) fun vs =>
    K (.node n [] :: vs)) :
    Reads (Trusted direct) all (Reading.expect [.identifier] >>= fun d => liftM (identifier d.branch) >>= f) K := by
  refine expect fun d hd hk => result fun n hn => ?_
  obtain ⟨htree, hkind, rfl⟩ := stands_identifier hd.branch hn
  rw [htree]
  exact hf _ hkind

/-- A child that comes next and is read in a role. -/
theorem role {r : Role} {f : Ast r.category → Reading β}
    (hf : ∀ u a, Stands direct [u] a → Reads (Trusted direct) all (f a) fun vs => K (u :: vs)) :
    Reads (Trusted direct) all (Reading.next >>= fun d => liftM (d.read r) >>= f) K :=
  next fun _ hd => result fun a ha => hf _ a (hd.stands ha)

/-- A type that comes next. -/
theorem type {f : Ast .type → Reading β}
    (hf : ∀ u a, Cst.kind u = .type → Stands direct [u] a → Reads (Trusted direct) all (f a) fun vs => K (u :: vs)) :
    Reads (Trusted direct) all (Reading.expect [.type] >>= fun d => liftM (d.read .type) >>= f) K :=
  one fun _ hd hk => result fun a ha => hf _ a hk (hd.stands (r := .type) ha)

/-- A child of one kind that comes next and is read in some way. -/
theorem child {k : Cst.Kind} {g : Branch → Result α} {J : Branch → α → Prop} {f : α → Reading β}
    (hg : ∀ {t : Branch}, t.Trusted direct → ∀ {a}, t.kind = k → g t = .ok a → J t a)
    (hf : ∀ t a, Cst.kind t.tree = k → J t a → Reads (Trusted direct) all (f a) fun vs => K (t.tree :: vs)) :
    Reads (Trusted direct) all (Reading.expect [k] >>= fun d => liftM (g d.branch) >>= f) K :=
  one fun _ hd hk => result fun a ha => hf _ a hk (hg hd.branch hk ha)

end Reads

theorem names_nil : Cst.Names [] [] := ⟨[], rfl, List.forall_mem_nil _, rfl⟩

theorem Names.cons {n : Cst.Label} (hn : n.kind = .identifier) {us : List Cst} {parts : List Text}
    (h : Cst.Names us parts) : Cst.Names (.node n [] :: us) (n.text :: parts) := by
  obtain ⟨ns, rfl, hns, rfl⟩ := h
  exact ⟨n :: ns, rfl, List.forall_mem_cons.2 ⟨hn, hns⟩, rfl⟩

theorem reads_allParts (bound : Nat) : Reads (Trusted direct) false (qualifiedName.allParts bound) Cst.Names := by
  induction bound with
  | zero => exact .pure names_nil
  | succ bound ih =>
    refine .peek fun o => .ite (fun _ => .pure names_nil) fun _ => .next fun d hd => .result fun part hpart => ?_
    obtain ⟨htree, hk, rfl⟩ := stands_identifier hd.branch hpart
    rw [htree]
    exact .last ih fun us parts h => Names.cons hk h

theorem reads_leadingAnnotations : Reads (Trusted direct) false leadingAnnotations (Stands direct) := by
  refine .many fun ds hds => .lift fun as h => ?_
  rw [List.append_nil]
  exact stands_eachIn (r := .annotationUse) (fun d hd => (hds d hd).1) h

section

variable (ht : t.Trusted direct)

include ht

theorem dotted_qualifiedName {q : QualifiedName} (hk : t.kind = .qualifiedName) (h : qualifiedName t = .ok q) :
    Cst.Dotted t.tree q.parts := by
  obtain ⟨-, c', h⟩ := within_ok.1 h
  obtain ⟨parts, c₁, hparts, h⟩ := bind_ok.1 h
  obtain ⟨⟨used, hrest, hnames⟩, -⟩ := (reads_allParts _).run ht.children hparts
  rw [rest_allParts hparts (Nat.lt_succ_self _), List.append_nil] at hrest
  split at h
  · obtain ⟨_, _, h, -⟩ := bind_ok.1 h
    exact absurd h fail_ok
  · obtain ⟨rfl, -⟩ := pure_ok.1 h
    rw [t.tree_eq]
    refine ⟨hk, ?_⟩
    rwa [← hrest] at hnames

omit ht in
/-- A node around what is read off its children. -/
theorem stands_node {c : Category} {a : Ast c} {k : Cst.Kind} (hk : t.kind = k)
    (hplain : (k.encloses && !c.isNaming) = true) (h : Stands direct (t.children.map Decorated.tree) a) :
    Stands direct [t.tree] a := by
  rw [Bool.and_eq_true, Bool.not_eq_true', ← hk] at hplain
  rw [t.tree_eq]
  exact .within hplain.1 hplain.2 h

/-- The same where all children are read one after the other. -/
theorem stands_inside {c : Category} {m : Reading (Ast c)} {a : Ast c} {k : Cst.Kind} (hk : t.kind = k)
    (hplain : (k.encloses && !c.isNaming) = true) (hm : Reads (Trusted direct) false m (Stands direct))
    (h : whole t m = .ok a) : Stands direct [t.tree] a := stands_node hk hplain (Reads.whole ht.children hm h)

theorem stands_whole {c : Category} {m : Reading (Ast c)} {a : Ast c}
    (hm : Reads (Trusted direct) false m fun us v => Stands direct [.node t.source us] v) (h : whole t m = .ok a) :
    Stands direct [t.tree] a :=
  t.tree_eq ▸ Reads.whole ht.children hm h

theorem stands_within {c : Category} {m : Reading (Ast c)} {a : Ast c}
    (hm : Reads (Trusted direct) true m fun us v => Stands direct [.node t.source us] v) (h : within t m = .ok a) :
    Stands direct [t.tree] a :=
  t.tree_eq ▸ Reads.within ht.children hm h

/-- A node with the readings of its children in one role. -/
theorem stands_readAll {r : Role} {v : Ast (.list r.category)} {k : Cst.Kind} (hk : t.kind = k)
    (hplain : (k.encloses && !Category.isNaming (.list r.category)) = true) (h : eachIn r t.children = .ok v) :
    Stands direct [t.tree] v :=
  stands_node hk hplain (stands_eachIn ht.children h)

theorem stands_elementValuePair {v : Ast .memberValue} (h : elementValuePair t = .ok v) : Stands direct [t.tree] v := by
  obtain ⟨hk, h⟩ := of_kind_test h
  exact stands_inside ht hk rfl (.name fun n hn => .role fun u e he => .pure (.memberValue hn he)) h

theorem stands_annotationUse {v : Ast .annotationUse} (h : annotationUse t = .ok v) : Stands direct [t.tree] v := by
  obtain ⟨hk, h⟩ := of_kind_test h
  refine stands_within ht (.child dotted_qualifiedName fun u q _ hq => .rest fun ds hds => ?_) h
  match ds with
  | [] => exact .pure fun _ => .marker hk hq
  | first :: more =>
    refine .ite (fun _ => .result fun pairs hpairs => .pure fun _ => .normal hk hq ?_) fun _ =>
      .ite (fun hmore => ?_) fun _ => .fail
    · exact stands_each (fun d hd _ => stands_elementValuePair (hds d hd).branch) hpairs
    · rw [List.isEmpty_iff.1 hmore] at hds ⊢
      exact .result fun e he => .pure fun _ => .single hk hq
        ((hds first List.mem_cons_self).stands (r := .elementValue) he)

/-! ## Types -/

theorem stands_annotations_dim {v : Ast .dim} (h : dim t = .ok v) :
    t.kind = .dim ∧ ∃ p as, v = .dim p as ∧ Stands direct (t.children.map Decorated.tree) as := by
  obtain ⟨hk, h⟩ := of_kind_test h
  replace h := of_children h
  obtain ⟨as, has, h⟩ := Result.bind_ok.1 h
  cases h
  exact ⟨hk, _, _, rfl, stands_eachIn ht.children has⟩

/-- A dimension as a dimension without length of an array that is created. -/
def levelOf : Ast .dim → Ast .level
  | .dim p as => .level p as .absent

theorem stands_dims {vs : List (Ast .dim)} (hk : t.kind = .dims) (h : dims t = .ok vs) :
    Stands direct [t.tree] (ofList vs) ∧ Stands direct [t.tree] (ofList (vs.map levelOf)) := by
  replace h := of_children h
  refine ⟨stands_node hk rfl (stands_each (fun d hd v h => ?_) h),
    stands_node hk rfl (stands_mapM (fun d hd v h => ?_) h)⟩
  all_goals obtain ⟨hk, p, as, rfl, has⟩ := stands_annotations_dim (ht.children d hd).branch h
  · exact stands_node hk rfl (.dim has)
  · exact stands_node hk rfl (by simpa [levelOf] using Stands.level (p := p) has .absent)

end

theorem reads_optionalLevels : Reads (Trusted direct) false optionalDims fun us ds =>
    (Stands direct us (ofList ds) ∧ Stands direct us (ofList (ds.map levelOf))) ∧ Cst.Nameless us :=
  .optional (fun _ hd hk => .lift fun _ h => ⟨stands_dims hd.branch hk h, Cst.nameless_kind hk rfl⟩)
    (.pure ⟨⟨.nil, .nil⟩, Cst.nameless_nil⟩)

theorem reads_optionalDims : Reads (Trusted direct) false optionalDims fun us ds =>
    Stands direct us (ofList ds) ∧ Cst.Nameless us :=
  reads_optionalLevels.mono fun _ _ h => ⟨h.1.1, h.2⟩

theorem stands_wildcard {v : Ast .type} (ht : t.Trusted direct) (hk : t.kind = .wildcard) (h : wildcard t = .ok v) :
    Stands direct [t.tree] v := by
  refine stands_inside ht hk rfl (.bind reads_leadingAnnotations fun us as has =>
    .optional (fun o ho hok => ?_) (.pure ?_)) h
  · rw [ho.branch.leaf hok rfl]
    refine .type fun u type _ htype => .ite (fun _ => .pure ?_) fun _ => .ite (fun _ => .pure ?_) fun _ => .fail
    · exact .wildcardUpper hok has htype
    · exact .wildcardLower hok has htype
  · rw [List.append_nil]
    exact .wildcard has

theorem stands_typeArgument {d : Decorated} (hd : d.Trusted direct) {v : Ast .type} (h : typeArgument d = .ok v) :
    Stands direct [d.branch.tree] v := by
  unfold typeArgument at h
  split at h
  · exact hd.stands (r := .type) h
  · next hk => exact stands_wildcard hd.branch hk h
  · grind [Branch.fail]

theorem stands_typeArguments {vs : List (Ast .type)} (ht : t.Trusted direct) (hk : t.kind = .typeArguments)
    (h : Reading.typeArguments t = .ok vs) : Stands direct [t.tree] (ofList vs) := by
  replace h := of_children h
  have hmap := stands_mapM (f := id) (fun d hd v => stands_typeArgument (ht.children d hd)) h
  exact stands_node hk rfl (List.map_id vs ▸ hmap)

/-- Without a node for type arguments there are none. -/
theorem reads_typeArguments : Reads (Trusted direct) false optionalTypeArguments fun us ts =>
    Stands direct us ts ∧ (us = [] ∧ ts = .nil ∨ ∃ u, us = [u] ∧ Cst.kind u = .typeArguments) :=
  .optional (fun _ hd hk => .result fun _ h => .pure ⟨stands_typeArguments hd.branch hk h, .inr ⟨_, rfl, hk⟩⟩)
    (.pure ⟨.nil, .inl ⟨rfl, rfl⟩⟩)

theorem reads_optionalTypeArguments : Reads (Trusted direct) false optionalTypeArguments (Stands direct) :=
  reads_typeArguments.mono fun _ _ h => h.1

section

variable (ht : t.Trusted direct)

include ht

/-- A segment of a class type, also without what comes to it from outside. -/
theorem stands_classTypeElement {whole? : Option (Place × List (Ast .annotationUse))} {scope : Ast (.option .classType)}
    {us : List Cst} {v : Ast .classType} (hscope : Stands direct us scope)
    (h : classTypeElement whole? scope t = .ok v) :
    ∃ (as : List (Ast .annotationUse)) (n : Text) (ts : Ast (.list .type)) (d : Bool),
      Stands direct (us ++ [t.tree]) (segment t.place scope (ofList as) n ts d) ∧
      v = whole?.elim (segment t.place scope (ofList as) n ts d) fun w =>
      segment w.1 scope (ofList (w.2 ++ as)) n ts d := by
  obtain ⟨hk, h⟩ := of_kind_test h
  rw [t.tree_eq]
  refine Reads.whole (J := fun ws v =>
    ∃ (as : List (Ast .annotationUse)) (n : Text) (ts : Ast (.list .type)) (d : Bool),
    Stands direct (us ++ [.node t.source ws]) (segment t.place scope (ofList as) n ts d) ∧
      v = whole?.elim (segment t.place scope (ofList as) n ts d) fun w => segment w.1 scope (ofList (w.2 ++ as)) n ts d)
      ht.children
    (.bind reads_leadingAnnotations fun vs as has => .name fun n hn => ?_) h
  have hend {ws : List Cst} {ts : List (Ast .type)} (hts : Stands direct ws (ofList ts)) (d : Bool) :
      Stands direct (us ++ [.node t.source (vs ++ .node n [] :: ws)])
      (segment t.place scope (ofList as.toList) n.text (ofList ts) d) := by
    rw [ofList_toList]
    exact .segment hk hn hscope has hts
  refine .optional (fun d hd hdk => .result fun ts hts => .pureBind ?_) (.pureBind ?_)
  · have hts := stands_typeArguments hd.branch hdk hts
    dsimp only
    cases whole? with
    | none => exact .pure ⟨_, _, _, _, hend hts _, by rw [ofList_toList]; rfl⟩
    | some w => exact .pure ⟨_, _, _, _, hend hts _, rfl⟩
  · dsimp only
    cases whole? with
    | none => exact .pure ⟨_, _, _, _, hend .nil _, by rw [ofList_toList]; rfl⟩
    | some w => exact .pure ⟨_, _, _, _, hend .nil _, rfl⟩

omit ht in
theorem stands_classTypeElements {place : Place} {outer : List (Ast .annotationUse)} {scope : Ast (.option .classType)}
    {first : Decorated} {more : List Decorated} {us : List Cst} {v : Ast .classType}
    (hds : ∀ d ∈ first :: more, d.Trusted direct) (hscope : Stands direct us scope)
    (h : classTypeElements place outer scope first more = .ok v) :
    ∃ (p : Place) (scope' : Ast (.option .classType)) (as : List (Ast .annotationUse)) (n : Text)
      (ts : Ast (.list .type)) (d : Bool),
      Stands direct (us ++ (first :: more).map Decorated.tree) (segment p scope' (ofList as) n ts d) ∧
      v = segment place scope' (ofList (outer ++ as)) n ts d := by
  induction more generalizing first scope us with
  | nil =>
    obtain ⟨as, n, ts, d, hstands, hv⟩ := stands_classTypeElement (hds first List.mem_cons_self).branch hscope h
    exact ⟨_, _, _, _, _, _, hstands, hv⟩
  | cons next more ih =>
    obtain ⟨segment, hsegment, h⟩ := Result.bind_ok.1 h
    obtain ⟨hfirst, hmore⟩ := List.forall_mem_cons.1 hds
    obtain ⟨as, n, ts, d, hstands, rfl⟩ := stands_classTypeElement hfirst.branch hscope hsegment
    have hrest := ih hmore (.present hstands) h
    rwa [List.append_assoc] at hrest

theorem stands_classType {outer : List (Ast .annotationUse)} {us : List Cst} {v : Ast .classType}
    (houter : Stands direct us (ofList outer)) (h : classType t outer = .ok v) : Stands direct (us ++ [t.tree]) v := by
  obtain ⟨hk, h⟩ := of_kind_test h
  replace h := of_children h
  have htrusted := ht.children
  cases hchildren : t.children with
  | nil =>
    rw [hchildren] at h
    cases h
  | cons first more =>
    rw [hchildren] at h htrusted
    obtain ⟨p, scope, as, n, ts, d, hstands, rfl⟩ := stands_classTypeElements htrusted .absent h
    refine .annotated houter (p := p) ?_
    rw [List.nil_append, ← hchildren] at hstands
    exact stands_node hk rfl hstands

theorem stands_type {v : Ast .type} (h : type t = .ok v) : Stands direct [t.tree] v := by
  obtain ⟨hk, h⟩ := of_kind_test h
  refine stands_inside ht hk rfl (.bind reads_leadingAnnotations fun us as has => ?_) h
  refine .expect fun base hbase hbk => .ite (fun hprimitive => ?_) fun _ => .result fun type htype => .pureBind ?_
  · rw [hbase.branch.leaf hprimitive rfl]
    refine .pureBind (.last reads_optionalDims fun vs ds hds => ?_)
    have helement := Stands.withDims (.primitive (p := t.place) hprimitive has) hds.1
    rwa [List.append_assoc] at helement
  · refine .last reads_optionalDims fun vs ds hds => ?_
    have htype := stands_classType hbase.branch ((ofList_toList as).symm ▸ has) htype
    have helement := Stands.withDims (.classRef htype) hds.1
    rwa [List.append_assoc] at helement

theorem stands_classTypeList {k : Cst.Kind} {vs : List (Ast .classType)} (hplain : k.encloses = true) (hk : t.kind = k)
    (h : classTypeList t = .ok vs) : Stands direct [t.tree] (ofList vs) := by
  replace h := of_children h
  exact stands_node hk (by rw [hplain]; rfl)
    (stands_each (fun d hd _ h => stands_classType (ht.children d hd).branch .nil (of_kind_test h).2) h)

theorem stands_typeParameter {v : Ast .typeParameter} (h : typeParameter t = .ok v) : Stands direct [t.tree] v := by
  obtain ⟨hk, h⟩ := of_kind_test h
  refine stands_inside ht hk rfl (.bind reads_leadingAnnotations fun us as has => .name fun n hn => ?_) h
  refine .part (J := fun us bounds => Stands direct us (ofList bounds)) (fun _ => rfl) rfl
    (fun d hd hdk => .lift fun bounds => stands_classTypeList hd.branch rfl hdk) .nil fun vs bounds hbounds => .pure ?_
  rw [List.append_nil]
  exact .typeParameter hn has hbounds

omit ht in
theorem reads_optionalTypeParameters : Reads (Trusted direct) false optionalTypeParameters fun us ts =>
    Stands direct us ts ∧ Cst.Nameless us := by
  refine .optional (fun d hd hk => .result fun ds hds => .result fun ts hts => .pure ⟨?_, Cst.nameless_kind hk rfl⟩)
    (.pure ⟨.nil, Cst.nameless_nil⟩)
  obtain rfl := children_eq hds
  exact stands_node hk rfl (stands_each (fun e he _ => stands_typeParameter (hd.branch.children e he).branch) hts)

theorem stands_exceptions {k : Cst.Kind} {v : Ast (.list .exception)} (hplain : k.encloses = true) (hk : t.kind = k)
    (h : exceptions t = .ok v) : Stands direct [t.tree] v := by
  obtain ⟨types, htypes, h⟩ := Result.bind_ok.1 h
  cases h
  replace htypes := of_children htypes
  refine stands_node hk (by rw [hplain]; rfl) (stands_mapM (fun d hd _ h => ?_) htypes)
  exact .exception (stands_classType (ht.children d hd).branch .nil (of_kind_test h).2)

end

/-! ## Variables, parameters and blocks -/

/-- Annotations and keywords are told apart. -/
theorem stands_headerParts {g : Decorated → Result (Ast .annotationUse ⊕ Modifier)}
    (hg : ∀ d a, g d = .ok a → (d.kind = .annotationUse ∧ ∃ v, a = .inl v ∧ d.read .annotationUse = .ok v) ∨
      (d.kind = .modifier ∧ a = .inr ⟨d.place, d.literal⟩))
    {ds : List Decorated} (hds : ∀ d ∈ ds, d.Trusted direct) {parts : List (Ast .annotationUse ⊕ Modifier)}
    (h : ds.mapM g = .ok parts) :
    (∀ u ∈ ds.map Decorated.tree, Cst.kind u = .annotationUse ∨ Cst.kind u = .modifier ∧ u.children = []) ∧
      Stands direct ((ds.map Decorated.tree).filter fun u => Cst.kind u = .annotationUse)
      (ofList (parts.filterMap Sum.getLeft?)) ∧
      (parts.filterMap Sum.getRight?).map (·.keyword) =
        ((ds.map Decorated.tree).filter fun u => Cst.kind u = .modifier).map Cst.literal := by
  replace h := mapM_ok h
  induction h with
  | nil => exact ⟨List.forall_mem_nil _, .nil, rfl⟩
  | @cons d a ds parts ha _ ih =>
    obtain ⟨hd, hds⟩ := List.forall_mem_cons.1 hds
    obtain ⟨hkinds, hstands, hkeywords⟩ := ih hds
    rw [List.map_cons]
    rcases hg d a ha with ⟨hk, v, rfl, hv⟩ | ⟨hk, rfl⟩
    · have hk : Cst.kind d.tree = .annotationUse := hk
      refine ⟨List.forall_mem_cons.2 ⟨.inl hk, hkinds⟩, ?_, ?_⟩
      · rw [List.filter_cons_of_pos (by simp [-Decorated.tree_branch, hk])]
        exact (hd.stands (r := .annotationUse) hv).cons hstands
      · rw [List.filter_cons_of_neg (by simp [-Decorated.tree_branch, hk])]
        exact hkeywords
    · have hleaf : d.tree = _ := hd.branch.leaf hk rfl
      have hk : Cst.kind d.tree = .modifier := hk
      refine ⟨List.forall_mem_cons.2 ⟨.inr ⟨hk, by rw [hleaf]; rfl⟩, hkinds⟩, ?_, ?_⟩
      · rw [List.filter_cons_of_neg (by simp [-Decorated.tree_branch, hk])]
        exact hstands
      · rw [List.filter_cons_of_pos (by simp [-Decorated.tree_branch, hk]), List.map_cons, ← hkeywords]
        rfl

theorem stands_header (ht : t.Trusted direct) {complete : List Modifier → List Modifier} {v : Ast .header}
    (hcomplete : complete = id ∨ complete = Modifier.immutableByDefault) (h : header complete t = .ok v) :
    Stands direct [t.tree] v ∧ Keyworded complete t.tree v := by
  unfold header at h
  obtain ⟨hk, h⟩ := of_kind_test' h
  replace h := of_children h
  obtain ⟨parts, hparts, h⟩ := Result.bind_ok.1 h
  cases h
  obtain ⟨hkinds, hstands, hkeywords⟩ := stands_headerParts (fun d a ha => by
    split at ha
    · next hk =>
      obtain ⟨v, hv, rfl⟩ := Result.map_ok.1 ha
      exact .inl ⟨hk, v, rfl, hv⟩
    · next hk => exact .inr ⟨hk, (Except.ok.inj ha).symm⟩
    · exact nomatch ha) ht.children hparts
  rw [t.tree_eq]
  have hms : Keyworded complete (.node t.source (t.children.map Decorated.tree))
      (.header (ofList (parts.filterMap Sum.getLeft?)) (complete (parts.filterMap Sum.getRight?))) :=
    ⟨hk, _, rfl, hkeywords⟩
  exact ⟨.header hkinds hcomplete hms hstands, hms⟩

/-- The modifiers that come next. -/
theorem Reads.header {complete : List Modifier → List Modifier} {f : Ast .header → Reading β}
    (hcomplete : complete = id ∨ complete = Modifier.immutableByDefault)
    (hf : ∀ m h, Stands direct [m] h → Keyworded complete m h → Reads (Trusted direct) all (f h) fun vs =>
    K (m :: vs)) :
    Reads (Trusted direct) all ((do Reading.header complete (← Reading.expect [.modifiers])) >>= f) K := by
  rw [bind_assoc]
  refine .one fun d hd _ => .result fun h hh => ?_
  obtain ⟨hstands, hkeywords⟩ := stands_header hd.branch hcomplete hh
  exact hf _ h hstands hkeywords

/-- All children that are left are variables, and there is one. -/
theorem reads_declarators : Reads (Trusted direct) true declarators fun us ds =>
    ∃ vs : List (Ast .declarator), vs ≠ [] ∧ ds = ofList vs ∧ Stands direct us (ofList vs) := by
  refine .rest fun ds hds => .result fun vs hvs => .ite (fun _ => .node fun _ => .fail) fun hne => .pure fun _ =>
    ⟨vs, ?_, rfl, ?_⟩
  · rintro rfl
    exact hne rfl
  · refine stands_each (fun d hd v h => ?_) hvs
    have ht := (hds d hd).branch
    obtain ⟨hk, h⟩ := of_kind_test h
    refine stands_whole ht (.name fun n hn => .bind reads_optionalDims fun us dims hdims => .peek fun o => ?_) h
    refine .ite (fun _ => .role fun u e he => .pureBind (.pure ?_)) fun _ =>
      .pureBind (.pure (.declarator hk hn hdims.1 .absent))
    exact .declarator hk hn hdims.1 (.present he)

section

variable (ht : t.Trusted direct)

include ht

theorem stands_fields {role : VariableRole} (hrole : role ≠ .localVariable) {v : Ast (.variableDecl role)}
    (hk : t.kind = role.kind) (h : fields role t = .ok v) : Stands direct [t.tree] v := by
  have hcomplete : role.complete = id := by cases role <;> trivial
  refine stands_within ht (.header (.inl rfl) fun m h hm hkeywords => .type fun u type hu htype => ?_) h
  refine .last reads_declarators fun us ds ⟨vs, hne, hds, hvs⟩ => hds ▸ ?_
  exact .variableDecl hk (hcomplete.symm ▸ hkeywords) hu hne hm htype hvs

theorem stands_localVariables {v : Ast (.variableDecl .localVariable)} (h : localVariables t = .ok v) :
    Stands direct [t.tree] v := by
  obtain ⟨hk, h⟩ := of_kind_test h
  refine stands_within ht (.header (.inr rfl) fun m h hm hkeywords => .type fun u type hu htype => ?_) h
  exact .last reads_declarators fun us ds ⟨vs, hne, hds, hvs⟩ => hds ▸ .variableDecl hk hkeywords hu hne hm htype hvs

theorem stands_formalParameter {v : Ast .parameter} (hk : t.kind = .formalParameter) (h : formalParameter t = .ok v) :
    Stands direct [t.tree] v := by
  refine stands_whole ht (.header (.inr rfl) fun m h hm hkeywords => .type fun u type hu htype => ?_) h
  refine .part (J := fun us dots => Stands direct us (dots.getD .nil) ∧ Cst.Nameless us)
    (fun _ => (bind_assoc _ _ _).symm) rfl
    (fun d hd hdk => .result fun ds hds => .wrapped fun as has => ⟨?_, Cst.nameless_kind hdk rfl⟩)
    ⟨.nil, Cst.nameless_nil⟩ fun vs dots hdots => .name fun n hn => .last reads_optionalDims fun us dims hdims => ?_
  · obtain rfl := children_eq hds
    exact stands_readAll hd.branch hdk rfl has
  · exact .parameter hk hn hkeywords (Cst.nameless_kind hu rfl) hdots.2 hdims.2 hm htype hdots.1 hdims.1

theorem stands_formalParameters {v : Ast (.list .parameter)} (hk : t.kind = .formalParameters)
    (h : formalParameters t = .ok v) : Stands direct [t.tree] v := by
  replace h := of_children h
  obtain ⟨ps, hps, h⟩ := Result.bind_ok.1 h
  cases h
  rw [t.tree_eq]
  refine .parameters hk (stands_each (fun d hd v h => ?_) hps)
  obtain ⟨hk, h⟩ := of_kind_test h
  exact stands_formalParameter (ht.children d hd).branch hk h

theorem stands_block {v : Ast .block} (hk : t.kind = .block) (h : block t = .ok v) : Stands direct [t.tree] v := by
  unfold block at h
  replace h := of_children (of_kind_test' h).2
  obtain ⟨ss, hss, h⟩ := Result.bind_ok.1 h
  cases h
  exact stands_node hk rfl (.block (stands_eachIn ht.children hss))

/-! ## Expressions -/

omit ht

/-- An expression that comes next. -/
theorem Reads.expr {f : Ast .expr → Reading β}
    (hf : ∀ u e, Stands direct [u] e → Cst.Nameless [u] → Reads (Trusted direct) all (f e) fun vs => K (u :: vs)) :
    Reads (Trusted direct) all (nextExpr >>= f) K := by
  unfold nextExpr
  rw [bind_assoc]
  exact .next fun d hd => .result fun e he => hf _ e (hd.stands (r := .expr) he) (hd.nameless he)

/-- An operator that comes next. -/
theorem Reads.operator {f : Text → Reading β}
    (hf : ∀ o : Cst.Label, o.kind = .operator → Reads (Trusted direct) all (f o.text) fun vs => K (.node o [] :: vs)) :
    Reads (Trusted direct) all (nextOperator >>= f) K := by
  unfold nextOperator
  rw [bind_assoc]
  refine .leaf (by decide) fun d hd => ?_
  rw [pure_bind]
  exact hf _ (List.mem_singleton.1 hd)

include ht

theorem stands_arguments {v : Ast (.list .expr)} (hk : t.kind = .arguments) (h : arguments t = .ok v) :
    Stands direct [t.tree] v := by
  unfold arguments at h
  exact stands_readAll ht hk rfl (of_children (of_kind_test' h).2)

theorem stands_objectCreation {scope : Option (Ast .expr)} {us : List Cst} {v : Ast .expr}
    (hk : t.kind ∈ [Cst.Kind.objectCreation, .newSuffix]) (hscope : Stands direct us (ofOption scope))
    (h : objectCreation scope t = .ok v) : Stands direct (us ++ [t.tree]) v := by
  rw [t.tree_eq]
  refine Reads.whole (J := fun ws v => Stands direct (us ++ [.node t.source ws]) v) ht.children ?_ h
  refine .bind reads_typeArguments fun vs ts ⟨hts, hvs⟩ => .one fun d hd _ => .result fun type hread => ?_
  cases type with
  | classRef type =>
    have hclass := hd.root.created type hread
    refine .pureBind (.child stands_arguments fun u es hu hes => ?_)
    have hend {ys : List Cst} {body : Ast (.option (.list .member))} (hbody : Stands direct ys body)
        (hys : ∀ y ∈ ys, Cst.kind y = .classBody) (p : Place) :
        Stands direct (us ++ [.node t.source (vs ++ ([d.tree] ++ ([u.tree] ++ ys)))])
        (.objectCreation p (ofOption scope) ts type es body) := by
      refine .objectCreation hk ?_ hscope hts (hd.stands (r := .type) hread) hes hbody
      rintro ⟨-, created, hcreated, hkind, hhas⟩
      have hcreated : created ∈ vs ++ ([d.tree] ++ ([u.tree] ++ ys)) := hcreated
      have hu : Cst.kind u.tree = .arguments := hu
      grind
    refine .optional (fun body hbody hbk => .result fun ds hds => .result fun ms hms => .pureBind (.pure ?_))
      (.pureBind (.pure (hend .absent (List.forall_mem_nil _) _)))
    obtain rfl := children_eq hds
    exact hend (.present (stands_readAll (r := .member) hbody.branch hbk rfl hms)) (List.forall_mem_singleton.2 hbk) _
  | _ => exact .failBind

theorem stands_dimExpr {v : Ast .level} (hk : t.kind = .dimExpr) (h : dimExpr t = .ok v) :
    Stands direct [t.tree] v := by
  refine stands_inside ht hk rfl (.bind reads_leadingAnnotations fun us as has => .expr fun u e he _ => .pure ?_) h
  exact .level has (.present he)

theorem stands_arrayElements {v : Ast .arrayElements} (hk : t.kind = .arrayInitializer) (h : arrayElements t = .ok v) :
    Stands direct [t.tree] v := by
  replace h := of_children h
  obtain ⟨es, hes, h⟩ := Result.bind_ok.1 h
  cases h
  exact stands_node hk rfl (.arrayElements (stands_eachIn ht.children hes))

theorem stands_arrayCreation {v : Ast .expr} (hk : t.kind = .arrayCreation) (h : arrayCreation t = .ok v) :
    Stands direct [t.tree] v := by
  refine stands_inside ht hk rfl (.type fun u type _ htype => .many fun ds hds => .result fun lengths hlengths => ?_) h
  refine .bind reads_optionalLevels fun us dims hdims => ?_
  have hlengths := stands_each (fun d hd _ => stands_dimExpr (hds d hd).1.branch (hds d hd).2) hlengths
  refine .part (J := Stands direct) (fun _ => (bind_assoc _ _ _).symm) rfl
    (fun d hd hdk => .result fun es hes => .pure (.present (stands_arrayElements hd.branch hdk hes))) .absent
    fun ws elements helements => ?_
  refine (Reads.done (.ite (fun _ => .failBind) fun _ => .pure fun _ => ?_)).some
  rw [← List.append_assoc (ds.map Decorated.tree), List.append_nil]
  exact .arrayCreation htype (.append hlengths hdims.1.2) helements

theorem stands_lambdaParameter {v : Ast .parameter} (h : lambdaParameter t = .ok v) : Stands direct [t.tree] v := by
  unfold lambdaParameter at h
  split at h
  · next hk =>
    cases h
    rw [ht.leaf hk rfl]
    exact .bareParameter hk
  · next hk => exact stands_formalParameter ht hk h
  · exact nomatch h

theorem stands_lambda {v : Ast .expr} (hk : t.kind = .lambda) (h : lambda t = .ok v) : Stands direct [t.tree] v := by
  refine stands_whole ht ?_ h
  have hbody {f : Ast .lambdaBody → Ast .expr} {u : Cst}
      (hf : ∀ us body, Stands direct us body → Cst.Nameless us → Stands direct [.node t.source (u :: us)] (f body)) :
      Reads (Trusted direct) false (next >>= fun body => if body.kind = .block then
        liftM (block body.branch) >>= fun b => pure (.blockBody b) >>= fun body => pure (f body) else
        liftM (body.read .expr) >>= fun b => pure (.exprBody b) >>= fun body => pure (f body))
        fun us v => Stands direct [.node t.source (u :: us)] v := by
    refine .next fun body hbody => .ite (fun hbk => .result fun b hb => .pureBind (.pure ?_)) fun _ =>
      .result fun e he => .pureBind (.pure ?_)
    · exact hf _ _ (.blockBody (stands_block hbody.branch hbk hb)) (Cst.nameless_kind hbk rfl)
    · exact hf _ _ (.exprBody (hbody.stands (r := .expr) he)) (hbody.nameless he)
  refine .expect fun head hhead hkinds => .ite (fun hhk => .result fun ds hds => .result fun ps hps => .pureBind ?_)
    fun hhk => .pureBind ?_
  · obtain rfl := children_eq hds
    rw [head.branch.tree_eq, decide_eq_true hhk]
    refine hbody fun us body hstands hnameless => .lambda hk hhk hnameless ?_ hstands
    exact stands_each (fun d hd _ => stands_lambdaParameter (hhead.branch.children d hd).branch) hps
  · have hhk : head.kind = .identifier := by simpa [hhk] using hkinds
    rw [hhead.branch.leaf hhk rfl, hhk]
    exact hbody fun us body hstands hnameless => .lambdaBare hk hhk hnameless hstands

end

/-! ## Suffixes -/

/-- The reference that an expression is. -/
def reference? : {c : Category} → Ast c → Option (Ast .reference)
  | .expr, .ofReference r => some r
  | _, _ => none

/-- What stands for a reference as an expression stands for the reference. -/
theorem stands_reference {c : Category} {us : List Cst} {a : Ast c} (h : Stands direct us a) {r : Ast .reference}
    (hr : reference? a = some r) : Stands direct us r := by
  induction h with
  | within hl hc _ ih => exact .within hl rfl (ih hr)
  | ofReference _ h =>
    cases hr
    exact h
  | _ => cases hr

variable (direct) in
/-- An expression before suffixes. A member with type arguments may stand for its trees only where a call follows. -/
def Scoped (us : List Cst) (e : Ast .expr) (suffixes : List Cst) : Prop :=
  Stands direct us e ∨ suffixes.head?.map Cst.kind = some .callSuffix ∧ ∀ r, e = .ofReference r → Stands direct us r

theorem Scoped.stands {us ts : List Cst} {e : Ast .expr} (h : Scoped direct us e (t.tree :: ts))
    (hk : t.kind ≠ .callSuffix) : Stands direct us e :=
  h.resolve_right fun ⟨hcall, _⟩ => hk (Option.some.inj hcall)

theorem Scoped.reference {us ts : List Cst} {r : Ast .reference} (h : Scoped direct us (.ofReference r) ts) :
    Stands direct us r :=
  h.elim (fun h => stands_reference h rfl) fun h => h.2 r rfl

theorem stands_classTypeOf {us : List Cst} {e : Ast .expr} {v : Ast .type} (he : Stands direct us e)
    (h : classTypeOf t e = .ok v) : Stands direct us v := by
  unfold classTypeOf at h
  split at h
  · next first more hparts =>
    cases h
    exact .classRef (.named hparts he)
  · exact nomatch h

theorem nameParts_of_qualifierOf {e : Ast .expr} {q : QualifiedName} (h : qualifierOf t e = .ok q) :
    e.nameParts = some q.parts := by
  unfold qualifierOf at h
  split at h
  · next hparts =>
    cases h
    exact hparts
  · exact nomatch h

/-- The member of a scope, the scope of `this`, or the scope of `super`. -/
theorem scoped_fieldSuffix {us ts : List Cst} {scope : Ast .expr} (hk : t.kind = .fieldSuffix)
    (hscope : Stands direct us scope) (p : Place) :
    Reads (Trusted direct) false (do
      let typeArguments ← optionalTypeArguments
      let last ← expect [.identifier, .thisRef, .superRef]
      match last.kind with
      | .thisRef => return .thisRef p (some (← qualifierOf t scope))
      | .superRef => return .superRef p (some (← qualifierOf t scope))
      | _ => return .ofReference (.access p scope typeArguments last.literal))
      fun ws v => (direct → Cst.Called (.node t.source ws :: ts)) → Scoped direct (us ++ [.node t.source ws]) v ts := by
  refine .bind reads_typeArguments fun vs targs htargs => .leaf (by decide) fun last hlast => ?_
  obtain ⟨htargs, hvs⟩ := htargs
  -- Type arguments that are not read directly are followed by a call.
  have hcases {ws : List Cst} (hcalled : direct → Cst.Called (.node t.source (vs ++ ws) :: ts)) :
      (direct → vs = [] ∧ targs = .nil) ∨ ts.head?.map Cst.kind = some .callSuffix := by
    obtain hnone | ⟨u, rfl, hu⟩ := hvs
    · exact .inl fun _ => hnone
    · by_cases hdirect : direct
      · exact .inr ((hcalled hdirect).1 hk (List.any_eq_true.2 ⟨u, List.mem_cons_self, beq_iff_eq.2 hu⟩))
      · exact .inl fun h => absurd h hdirect
  split
  · next hlast =>
    refine .result fun q hq => .pure fun hcalled => (hcases hcalled).imp (fun hvs => ?_) fun hcall => ⟨hcall, nofun⟩
    exact .thisOf hk hlast (nameParts_of_qualifierOf hq) (fun h => (hvs h).1) hscope htargs
  · next hlast =>
    refine .result fun q hq => .pure fun hcalled => (hcases hcalled).imp (fun hvs => ?_) fun hcall => ⟨hcall, nofun⟩
    exact .superOf hk hlast (nameParts_of_qualifierOf hq) (fun h => (hvs h).1) hscope htargs
  · next hthis hsuper =>
    have hname : last.branch.source.kind = .identifier :=
      (List.mem_cons.1 hlast).resolve_right (by simpa using ⟨hthis, hsuper⟩)
    have haccess := Stands.access (p := p) hk hname hscope htargs
    refine .pure fun hcalled => (hcases hcalled).imp (fun hvs => .ofReference (fun h => (hvs h).2) haccess) fun hcall =>
      ⟨hcall, ?_⟩
    rintro r ⟨⟩
    exact haccess

/-- A method of a scope, or of the arrays of a class. -/
theorem stands_methodRefSuffix {us : List Cst} {scope : Ast .expr} (hk : t.kind = .methodRefSuffix)
    (hscope : Stands direct us scope) (p : Place) :
    Reads (Trusted direct) false (do
      let scope ← match ← optional [.dims] with
        | some d =>
          let type ← classTypeOf t scope
          pure (.typeExpr p (type.withDims (← dims d)))
        | none => pure scope
      let typeArguments ← optionalTypeArguments
      let member ← expect [.identifier, .operator]
      return .methodRef p scope typeArguments member.literal)
      fun ws v => Stands direct (us ++ [.node t.source ws]) v := by
  refine .optional (fun d hd hdk => .result fun type htype => .result fun ds hds => .pureBind ?_) (.pureBind ?_)
  · refine .bind reads_optionalTypeArguments fun vs ts hts => .leaf (by decide) fun member hmember => .pure ?_
    exact .arrayRef hk hmember (stands_classTypeOf hscope htype) (stands_dims hd.branch hdk hds).1 hts
  · refine .bind reads_optionalTypeArguments fun vs ts hts => .leaf (by decide) fun member hmember => .pure ?_
    exact .methodRef hk hmember hscope hts

/-- One more suffix. -/
theorem scoped_suffix {us ts : List Cst} {scope v : Ast .expr} (ht : t.Trusted direct)
    (hscope : Scoped direct us scope (t.tree :: ts)) (hcalled : direct → Cst.Called (t.tree :: ts))
    (h : suffix scope t = .ok v) : Scoped direct (us ++ [t.tree]) v ts := by
  by_cases hk : t.kind = .newSuffix
  · rw [suffix, if_pos hk] at h
    have hinner : Stands direct us (ofOption (some scope)) := .present (hscope.stands (by rw [hk]; decide))
    exact .inl (stands_objectCreation ht (by simp [hk]) hinner h)
  · unfold suffix at h
    rw [if_neg hk] at h
    rw [t.tree_eq] at hcalled ⊢
    refine Reads.within (J := fun ws v => (direct → Cst.Called (.node t.source ws :: ts)) →
      Scoped direct (us ++ [.node t.source ws]) v ts) ht.children (.thenDone ?_) h hcalled
    have hbehind (hk : t.kind ≠ .callSuffix) : Stands direct us scope := hscope.stands hk
    have hplain (hk : t.kind.encloses = true) : t.source.kind.encloses = true := hk
    dsimp only
    split
    · next hk => exact scoped_fieldSuffix hk (hbehind (by rw [hk]; decide)) _
    · next hk =>
      refine .expr fun u e he _ => .pure fun _ => .inl (.index (hbehind (by rw [hk]; decide)) ?_)
      exact .within (hplain (by rw [hk])) rfl he
    · next hk =>
      cases scope with
      | ofReference target =>
        refine .child stands_arguments fun u es _ hes => .pure fun _ => .inl (.call hscope.reference ?_)
        exact .within (hplain (by rw [hk])) rfl hes
      | _ => exact .fail
    · next hk => exact (stands_methodRefSuffix hk (hbehind (by rw [hk]; decide)) _).mono fun _ _ h _ => .inl h
    · next hk =>
      refine .result fun type htype => .last reads_optionalDims fun vs ds hds _ => .inl (.typeLiteral (.withDims ?_ ?_))
      · exact stands_classTypeOf (hbehind (by rw [hk]; decide)) htype
      · exact .within (hplain (by rw [hk])) rfl hds.1
    · next hk =>
      exact .operator fun o ho => .pure fun _ => .inl (.unaryBehind hk ho (hbehind (by rw [hk]; decide)))
    · exact .fail

/-- All suffixes, from left to right. -/
theorem stands_suffixes {us : List Cst} {scope v : Ast .expr} {ds : List Decorated} (hds : ∀ d ∈ ds, d.Trusted direct)
    (hscope : Scoped direct us scope (ds.map Decorated.tree)) (hcalled : direct → Cst.Called (ds.map Decorated.tree))
    (h : ds.foldlM (fun scope d => suffix scope d.branch) scope = .ok v) :
    Stands direct (us ++ ds.map Decorated.tree) v := by
  induction ds generalizing us scope with
  | nil =>
    cases h
    rw [List.map_nil, List.append_nil]
    exact hscope.resolve_right fun h => nomatch h.1
  | cons d ds ih =>
    rw [List.foldlM_cons] at h
    obtain ⟨e, he, h⟩ := Result.bind_ok.1 h
    obtain ⟨hd, hds⟩ := List.forall_mem_cons.1 hds
    have hrest := ih hds (scoped_suffix hd.branch hscope hcalled he) (fun h => (hcalled h).2) h
    rwa [List.append_assoc] at hrest

theorem stands_suffixed {v : Ast .expr} (ht : t.Trusted direct) (hk : t.kind = .suffixed) (h : suffixed t = .ok v) :
    Stands direct [t.tree] v := by
  have hcalled (hdirect : direct) : Cst.Called (t.children.map Decorated.tree).tail := by
    have hsuffixes := (ht.formed hdirect).suffixes hk
    rwa [t.tree_eq] at hsuffixes
  refine stands_node hk rfl (Reads.within (J := fun ws v => (direct → Cst.Called ws.tail) → Stands direct ws v)
    ht.children ?_ h hcalled)
  refine .expr fun u e he _ => .rest fun ds hds => .folded fun v hv _ hcalled => ?_
  exact stands_suffixes hds (.inl he) hcalled hv

theorem stands_typeLiteral {v : Ast .expr} (ht : t.Trusted direct) (hk : t.kind = .typeLiteral)
    (h : Reading.typeLiteral t = .ok v) : Stands direct [t.tree] v := by
  refine stands_inside ht hk rfl (.leaf (by decide) fun base hbase => ?_) h
  have htype : Stands direct [.node base.branch.source []]
      (if base.kind = .voidType then .void base.place else .primitive base.place .nil base.literal) := by
    split
    · next hvoid => exact .void hvoid
    · next hvoid =>
      have hprimitive : base.branch.source.kind = .primitiveType :=
        (List.mem_cons.1 hbase).resolve_right (by simpa using hvoid)
      exact .primitive hprimitive .nil
  exact .last reads_optionalDims fun us ds hds => .typeLiteral (.withDims htype hds.1)

theorem stands_cast {v : Ast .expr} (ht : t.Trusted direct) (hk : t.kind = .cast) (h : cast t = .ok v) :
    Stands direct [t.tree] v := by
  refine stands_node hk rfl (Reads.within ht.children (.rest fun ds hds => ?_) h)
  rcases List.eq_nil_or_concat ds with rfl | ⟨types, operand, rfl⟩
  · exact .fail
  · simp only [List.concat_eq_append, List.getLast?_concat, List.dropLast_concat]
    rw [List.concat_eq_append] at hds
    obtain ⟨htypes, hoperand⟩ := List.forall_mem_append.1 hds
    refine .ite (fun _ => .failBind) fun _ => .result fun ts hts => .result fun e he => .pure fun _ => ?_
    rw [List.map_append]
    exact .cast (stands_eachIn htypes hts) ((List.forall_mem_singleton.1 hoperand).stands (r := .expr) he)

section

variable (ht : t.Trusted direct)

include ht

/-! ## All expressions -/

theorem stands_leaf {c : Category} {a : Ast c} {k : Cst.Kind} (hk : t.kind = k) (hleaf : k.isInner = false)
    (h : Stands direct [.node t.source []] a) : Stands direct [t.tree] a := by rwa [ht.leaf hk hleaf]

theorem stands_expr {v : Ast .expr} (h : expr t = .ok v) : Stands direct [t.tree] v := by
  unfold expr at h
  split at h
  · next hk =>
    exact stands_whole ht (.expr fun u x hx _ => .operator fun o ho => .expr fun v y hy _ =>
      .pure (.assign hk ho hx hy)) h
  · next hk =>
    refine stands_inside ht hk rfl (.expr fun u x hx _ => .expr fun v y hy _ => .expr fun w z hz _ => .pure ?_) h
    exact .conditional hx hy hz
  · next hk =>
    exact stands_whole ht (.expr fun u x hx _ => .operator fun o ho => .expr fun v y hy _ =>
      .pure (.binary hk ho hx hy)) h
  · next hk => exact stands_inside ht hk rfl (.expr fun u x hx _ => .type fun v type _ htype =>
      .pure (.instanceOf hx htype)) h
  · next hk => exact stands_whole ht (.operator fun o ho => .expr fun u y hy _ => .pure (.unary hk ho hy)) h
  · next hk => exact stands_cast ht hk h
  · next hk => exact stands_suffixed ht hk h
  · next hk =>
    obtain ⟨v, hv, rfl⟩ := Result.map_ok.1 h
    refine stands_leaf ht hk rfl (.literal hk ?_)
    have hbare : t.children.map Decorated.source = [] := ht.bare (show t.kind.isInner = false by rw [hk])
    rwa [← List.map_eq_nil_iff.1 hbare]
  · next hk =>
    cases h
    exact stands_leaf ht hk rfl (.ofReference (fun _ => rfl) (.name hk))
  · next hk =>
    cases h
    exact stands_leaf ht hk rfl (.thisRef hk)
  · next hk =>
    cases h
    exact stands_leaf ht hk rfl (.superRef hk)
  · next hk => exact stands_inside ht hk rfl (.expr fun u x hx _ => .pure (.enclosed hx)) h
  · next hk => exact stands_objectCreation ht (by simp [hk]) .absent h
  · next hk => exact stands_arrayCreation ht hk h
  · next hk =>
    obtain ⟨es, hes, rfl⟩ := Result.map_ok.1 h
    exact .ofArrayElements (stands_arrayElements ht hk hes)
  · next hk => exact stands_lambda ht hk h
  · next hk => exact stands_typeLiteral ht hk h
  · next hk => exact stands_inside ht hk rfl (.type fun u type _ htype => .pure (.typeExpr htype)) h
  · exact nomatch h

theorem stands_elementValue {v : Ast .expr} (h : elementValue t = .ok v) : Stands direct [t.tree] v := by
  unfold elementValue at h
  split at h
  · obtain ⟨a, ha, rfl⟩ := Result.map_ok.1 h
    exact .ofAnnotationUse (stands_annotationUse ht ha)
  · next hk =>
    replace h := of_children h
    obtain ⟨es, hes, h⟩ := Result.bind_ok.1 h
    cases h
    exact stands_node hk rfl (.ofArrayElements (.arrayElements (stands_eachIn (r := .elementValue) ht.children hes)))
  · exact stands_expr ht h

/-! ## Statements -/

omit ht

/-- A statement that comes next. -/
theorem Reads.stmt {f : Ast .stmt → Reading β}
    (hf : ∀ u s, Stands direct [u] s → Reads (Trusted direct) all (f s) fun vs => K (u :: vs)) :
    Reads (Trusted direct) all (nextStmt >>= f) K := by
  unfold nextStmt
  rw [bind_assoc]
  exact .role (r := .stmt) hf

theorem reads_optionalExpr : Reads (Trusted direct) false optionalExpr (Stands direct) :=
  .peek fun _ => .ite (fun _ => .expr fun _ _ he _ => .pure (.present he)) fun _ => .pure .absent

include ht

/-- A statement that goes on elsewhere, at a label or without one. -/
theorem stands_jump {f : Text → Ast .stmt} {k : Cst.Kind} {v : Ast .stmt} (hk : t.kind = k) (hplain : k.encloses = true)
    (hnone : Stands direct [] (f []))
    (hto : ∀ n : Cst.Label, n.kind = .identifier → Stands direct [.node n []] (f n.text))
    (h : f <$> jumpLabel t = .ok v) : Stands direct [t.tree] v := by
  obtain ⟨label, hlabel, rfl⟩ := Result.map_ok.1 h
  refine stands_node hk (by rw [hplain]; rfl) (Reads.whole (J := fun us label => Stands direct us (f label)) ht.children
    (.optional (fun d hd hdk => .pure ?_) (.pure ?_)) hlabel)
  · rw [hd.branch.leaf hdk rfl]
    exact hto _ hdk
  · exact hnone

theorem stands_forInit {v : Option (Ast (.variableDecl .localVariable)) × Ast (.list .expr)} (hk : t.kind = .forInit)
    (h : (within t do
      match ← optional [.localVarDecl] with
      | some d =>
        let declaration ← localVariables d
        done
        return (some declaration, .nil)
      | none => return (none, (← eachIn .expr (← rest) : Ast (.list .expr)))) = .ok v) :
    (∃ d, v = (some d, .nil) ∧ Stands direct [t.tree] d) ∨ ∃ es, v = (none, es) ∧ Stands direct [t.tree] es := by
  have hplain : t.source.kind.encloses = true := by rw [show t.source.kind = _ from hk]
  rw [t.tree_eq]
  refine Reads.within (J := fun us v => (∃ d, v = (some d, .nil) ∧ Stands direct [.node t.source us] d) ∨
    ∃ es, v = (none, es) ∧ Stands direct [.node t.source us] es) ht.children (.optional (fun d hd hdk => ?_) ?_) h
  · refine .result fun v hv => .done (.pure fun _ => .inl ⟨v, rfl, .within hplain rfl ?_⟩)
    exact stands_localVariables hd.branch hv
  · refine .rest fun ds hds => .result fun es hes => .pure fun _ => .inr ⟨es, rfl, .within hplain rfl ?_⟩
    exact stands_eachIn (r := .expr) hds hes

theorem stands_forStmt {v : Ast .stmt} (hk : t.kind = .forStmt) (h : forStmt t = .ok v) : Stands direct [t.tree] v := by
  refine stands_inside ht hk rfl (.child stands_forInit fun u v _ hinit => ?_) h
  have hend {us : List Cst} {condition : Ast (.option .expr)} (hcondition : Stands direct us condition) :
      Reads (Trusted direct) false (expect [.forUpdate] >>= fun d => liftM (children d.branch) >>= fun ds =>
        liftM (eachIn .expr ds) >>= fun step => nextStmt >>= fun body =>
          pure (.forStmt t.place (ofOption v.1) v.2 condition step body)) fun vs v =>
          Stands direct (u.tree :: (us ++ vs)) v := by
    refine .one fun d hd hdk => .result fun ds hds => .result fun step hstep => .stmt fun w body hbody => .pure ?_
    obtain rfl := children_eq hds
    have hstep := stands_readAll (r := .expr) hd.branch hdk rfl hstep
    rcases hinit with ⟨decl, rfl, hdecl⟩ | ⟨es, rfl, hes⟩
    · exact .forVariables hdecl hcondition hstep hbody
    · exact .forStmt hes hcondition hstep hbody
  refine .peek fun o => ?_
  cases o with
  | none => exact .pureBind (hend .absent)
  | some child =>
    exact .ite (fun _ => .pureBind (hend .absent)) fun _ => .expr fun w e he _ => .pureBind (hend (.present he))

theorem stands_resource {v : Ast .resource} (h : resource t = .ok v) : Stands direct [t.tree] v := by
  obtain ⟨hk, h⟩ := of_kind_test h
  refine stands_whole ht (.optional (fun d hd _ => .result fun h hh => ?_)
    (.expr fun u e he hu => .pure (.namedResource hk hu he))) h
  obtain ⟨hm, hkeywords⟩ := stands_header hd.branch (.inr rfl) hh
  refine .type fun u type hu htype => .name fun n hn => .expr fun w e he hw => .pure ?_
  exact .resource hk hn hkeywords (Cst.nameless_kind hu rfl) hw hm htype he

theorem stands_catchClause {v : Ast .catchClause} (hk : t.kind = .catchClause) (h : catchClause t = .ok v) :
    Stands direct [t.tree] v := by
  refine stands_whole ht (.one fun d hd _ => .result fun h hh => ?_) h
  refine .child (stands_exceptions · rfl) fun u es hu hes => ?_
  obtain ⟨hm, hkeywords⟩ := stands_header hd.branch (.inr rfl) hh
  refine .name fun n hn => .child stands_block fun w b hw hb => .pure ?_
  exact .catchClause hk hn hkeywords (Cst.nameless_kind hu rfl) (Cst.nameless_kind hw rfl) hm hes hb

theorem stands_finallyClause {v : Ast .block} (hk : t.kind = .finallyClause)
    (h : (whole t do block (← expect [.block])) = .ok v) : Stands direct [t.tree] v :=
  stands_inside ht hk rfl (.one fun _ hd hdk => .lift fun _ hb => stands_block hd.branch hdk hb) h

theorem stands_tryStmt {v : Ast .stmt} (hk : t.kind = .tryStmt) (h : tryStmt t = .ok v)
    (hread : readings t .stmt = .ok v) : Stands direct [t.tree] v := by
  rw [← ht.genuine, ← read_decorate] at hread
  rw [t.tree_eq] at hread ⊢
  refine Reads.whole (J := fun us v => (decorate (.node t.source us)).read .stmt = .ok v →
      Stands direct [.node t.source us] v) ht.children
    (.part (J := fun us rs => Stands direct us (ofList rs)) (fun _ => (bind_assoc _ _ _).symm) rfl
      (fun d hd hdk => .result fun ds hds => .lift fun rs hrs => stands_node hdk rfl ?_) .nil fun us rs hrs =>
      ?_) h hread
  · obtain rfl := children_eq hds
    exact stands_each (fun e he _ => stands_resource (hd.branch.children e he).branch) hrs
  · refine .child stands_block fun u b _ hb => .many fun ds hds => .result fun handlers hhandlers => ?_
    have hhandlers := stands_each (fun d hd _ => stands_catchClause (hds d hd).1.branch (hds d hd).2) hhandlers
    refine .part (J := Stands direct) (fun _ => (bind_assoc _ _ _).symm) rfl
      (fun d hd hdk => .result fun b hb => .pure (.present (stands_finallyClause hd.branch hdk hb))) .absent
      fun vs cleanup hcleanup => .pure fun hread => ?_
    rw [List.append_nil] at hread ⊢
    refine .tryStmt hk ?_ hrs hb hhandlers hcleanup
    exact hread

theorem stands_switchLabel {v : Ast .switchLabel} (hk : t.kind = .switchLabel) (h : switchLabel t = .ok v) :
    Stands direct [t.tree] v := by
  refine stands_inside ht hk rfl (.ite (fun _ => ?_) fun _ => .pure (.switchLabel .absent)) h
  exact .expr fun _ _ he _ => .pure (.switchLabel (.present he))

theorem stands_switchGroup {v : Ast .switchGroup} (h : switchGroup t = .ok v) : Stands direct [t.tree] v := by
  obtain ⟨hk, h⟩ := of_kind_test h
  refine stands_node hk rfl (Reads.within ht.children (.many fun ds hds => .result fun labels hlabels => ?_) h)
  have hlabels := stands_each (fun d hd _ => stands_switchLabel (hds d hd).1.branch (hds d hd).2) hlabels
  refine .ite (fun _ => .failBind) fun _ => .rest fun ds hds => .result fun ss hss => .pure fun _ => ?_
  exact .switchGroup hlabels (stands_eachIn hds hss)

theorem stands_stmt {v : Ast .stmt} (h : stmt t = .ok v) : Stands direct [t.tree] v := by
  have hread : readings t .stmt = .ok v := h
  unfold stmt at h
  split at h
  · next hk =>
    obtain ⟨b, hb, rfl⟩ := Result.map_ok.1 h
    exact .ofBlock (stands_block ht hk hb)
  · obtain ⟨d, hd, rfl⟩ := Result.map_ok.1 h
    exact .ofVariables (stands_localVariables ht hd)
  · next hk =>
    cases h
    exact stands_leaf ht hk rfl (.emptyStmt hk)
  · next hk => exact stands_inside ht hk rfl (.expr fun _ _ he _ => .pure (.exprStmt he)) h
  · next hk =>
    refine stands_inside ht hk rfl (.expr fun u e he _ => .stmt fun v yes hyes => .peek fun _ => ?_) h
    refine .ite (fun _ => .stmt fun w no hno => .pureBind (.pure ?_)) fun _ =>
      .pureBind (.pure (.ifStmt he hyes .absent))
    exact .ifStmt he hyes (.present hno)
  · next hk => exact stands_inside ht hk rfl (.expr fun u e he _ => .stmt fun v s hs => .pure (.whileStmt he hs)) h
  · next hk => exact stands_inside ht hk rfl (.stmt fun u s hs => .expr fun v e he _ => .pure (.doStmt hs he)) h
  · next hk => exact stands_forStmt ht hk h
  · next hk =>
    refine stands_inside ht hk rfl (.child stands_formalParameter fun u p hu hp => .expr fun v e he _ =>
      .stmt fun w s hs => .pure ?_) h
    exact .forEachStmt hu hp he hs
  · next hk => exact stands_tryStmt ht hk h hread
  · next hk =>
    refine stands_node hk rfl (Reads.within ht.children (.expr fun u e he _ => .rest fun ds hds => .result fun gs hgs =>
      .pure fun _ => ?_) h)
    exact .switchStmt he (stands_each (fun d hd _ => stands_switchGroup (hds d hd).branch) hgs)
  · next hk => exact stands_inside ht hk rfl (.expr fun u e he _ => .child stands_block fun v b _ hb =>
      .pure (.synchronizedStmt he hb)) h
  · next hk => exact stands_inside ht hk rfl (.name fun n hn => .stmt fun u s hs => .pure (.labeledStmt hn hs)) h
  · next hk => exact stands_jump ht hk rfl .breakStmt (fun _ => .breakTo) h
  · next hk => exact stands_jump ht hk rfl .continueStmt (fun _ => .continueTo) h
  · next hk => exact stands_inside ht hk rfl (.last reads_optionalExpr fun _ _ he => .returnStmt he) h
  · next hk => exact stands_inside ht hk rfl (.expr fun _ _ he _ => .pure (.throwStmt he)) h
  · next hk => exact stands_inside ht hk rfl (.expr fun u e he _ => .last reads_optionalExpr fun vs m hm =>
      .assertStmt he hm) h
  · exact nomatch h

/-! ## Declarations -/

theorem stands_members {k : Cst.Kind} {v : Ast (.list .member)} (hplain : k.encloses = true) (hk : t.kind = k)
    (h : members t = .ok v) : Stands direct [t.tree] v := stands_readAll ht hk (by rw [hplain]; rfl) (of_children h)

omit ht in
/-- Nodes of which one thing is read are one node. -/
theorem eq_singleton_of_each {g : Branch → Result α} {ds : List Decorated} {a : α} (h : each g ds = .ok [a]) :
    ∃ d, ds = [d] ∧ g d.branch = .ok a := by
  cases mapM_ok h with
  | cons hd hnil =>
    cases hnil
    exact ⟨_, rfl, hd⟩

theorem stands_baseClass {v : Ast .classType} (hk : t.kind = .extendsClause) (h : baseClass t = .ok v) :
    Stands direct [t.tree] v := by
  obtain ⟨types, htypes, h⟩ := Result.bind_ok.1 h
  replace htypes := of_children htypes
  split at h
  · cases h
    obtain ⟨d, hchildren, hd⟩ := eq_singleton_of_each htypes
    have htrusted := ht.children d (by rw [hchildren]; exact List.mem_singleton_self d)
    refine stands_node hk rfl ?_
    rw [hchildren]
    exact stands_classType htrusted.branch .nil (of_kind_test hd).2
  · exact nomatch h

theorem stands_classDecl {v : Ast .typeDecl} (hk : t.kind = .classDecl) (h : classDecl t = .ok v) :
    Stands direct [t.tree] v := by
  refine stands_whole ht (.header (.inl rfl) fun m h hm hkeywords => .leaf (by decide) fun n hn => ?_) h
  refine .bind reads_optionalTypeParameters fun us ts hts => ?_
  refine .part (J := fun vs base => Stands direct vs (ofOption base) ∧ Cst.Nameless vs) (fun _ => rfl) rfl
    (fun d hd hdk => .wrapped fun base hbase => ?_) ⟨.absent, Cst.nameless_nil⟩ fun vs base hbase => ?_
  · exact ⟨.present (stands_baseClass hd.branch hdk hbase), Cst.nameless_kind hdk rfl⟩
  refine .part (J := fun vs is => Stands direct vs (ofList is) ∧ Cst.Nameless vs) (fun _ => rfl) rfl
    (fun d hd hdk => .lift fun is his => ?_) ⟨.nil, Cst.nameless_nil⟩ fun ws is his => ?_
  · exact ⟨stands_classTypeList hd.branch rfl hdk his, Cst.nameless_kind hdk rfl⟩
  refine .child (stands_members · rfl) fun u ms hu hms => .pure ?_
  exact .classDecl hk (List.mem_singleton.1 hn) hkeywords hts.2 hbase.2 his.2
    (Cst.nameless_kind hu rfl) hm hts.1 hbase.1 his.1 hms

theorem stands_interfaceDecl {v : Ast .typeDecl} (hk : t.kind = .interfaceDecl) (h : interfaceDecl t = .ok v) :
    Stands direct [t.tree] v := by
  refine stands_whole ht (.header (.inl rfl) fun m h hm hkeywords => .leaf (by decide) fun n hn => ?_) h
  refine .bind reads_optionalTypeParameters fun us ts hts =>
    .part (J := fun vs bases => Stands direct vs (ofList bases) ∧ Cst.Nameless vs) (fun _ => rfl) rfl
      (fun d hd hdk => .lift fun bases hbases => ?_) ⟨.nil, Cst.nameless_nil⟩ fun vs bases hbases => ?_
  · exact ⟨stands_classTypeList hd.branch rfl hdk hbases, Cst.nameless_kind hdk rfl⟩
  refine .child (stands_members · rfl) fun u ms hu hms => .pure ?_
  exact .interfaceDecl hk (List.mem_singleton.1 hn) hkeywords hts.2 hbases.2
    (Cst.nameless_kind hu rfl) hm hts.1 hbases.1 hms

theorem stands_annotationTypeDecl {v : Ast .typeDecl} (hk : t.kind = .annotationTypeDecl)
    (h : annotationTypeDecl t = .ok v) : Stands direct [t.tree] v := by
  refine stands_whole ht (.header (.inl rfl) fun m h hm hkeywords => .leaf (by decide) fun n hn => ?_) h
  refine .child (stands_members · rfl) fun u ms hu hms => .pure ?_
  exact .annotationTypeDecl hk (List.mem_singleton.1 hn) hkeywords (Cst.nameless_kind hu rfl) hm hms

theorem stands_typeDecl {v : Ast .typeDecl} (h : typeDecl t = .ok v) : Stands direct [t.tree] v := by
  unfold typeDecl at h
  split at h
  · next hk => exact stands_classDecl ht hk h
  · next hk => exact stands_interfaceDecl ht hk h
  · next hk => exact stands_annotationTypeDecl ht hk h
  · exact nomatch h

omit ht

theorem reads_optionalExceptions : Reads (Trusted direct) false optionalExceptions fun us es =>
    Stands direct us es ∧ Cst.Nameless us :=
  .optional (fun _ hd hk => .lift fun _ h => ⟨stands_exceptions hd.branch rfl hk h, Cst.nameless_kind hk rfl⟩)
    (.pure ⟨.nil, Cst.nameless_nil⟩)

theorem stands_resultType {d : Decorated} (hd : d.Trusted direct) {v : Ast .type} (h : resultType d = .ok v) :
    Stands direct [d.branch.tree] v := by
  by_cases hk : d.kind = .voidType
  · have hv : v = .void d.place := (Except.ok.inj ((if_pos hk).symm.trans h)).symm
    rw [hd.branch.leaf hk rfl, hv]
    exact .void hk
  · have hread : d.read .type = .ok v := (if_neg hk).symm.trans h
    exact hd.stands hread

include ht

theorem stands_methodDecl {inInterface : Bool} {v : Ast .member}
    (hk : t.kind ∈ [Cst.Kind.methodDecl, .interfaceMethodDecl]) (h : methodDecl inInterface t = .ok v) :
    Stands direct [t.tree] v := by
  refine stands_whole ht (.header (.inl rfl) fun m h hm hkeywords => ?_) h
  refine .bind reads_optionalTypeParameters fun us ts hts => ?_
  refine .expect fun d hd hdk => .result fun type htype => .name fun n hn =>
    .child stands_formalParameters fun u ps hu hps => ?_
  have htype := stands_resultType hd htype
  have hd : Cst.Nameless [d.tree] := by
    rcases List.mem_pair.1 hdk with hdk | hdk
    · exact Cst.nameless_kind hdk rfl
    · exact Cst.nameless_kind hdk rfl
  refine .bind reads_optionalDims fun vs dims hdims => .bind reads_optionalExceptions fun ws es hes => ?_
  refine .part (J := fun us b => Stands direct us (ofOption b) ∧ Cst.Nameless us) (fun _ => rfl) rfl
    (fun d hd hdk => .wrapped fun b hb => ?_) ⟨.absent, Cst.nameless_nil⟩ fun xs b hb => .pure ?_
  · exact ⟨.present (stands_block hd.branch hdk hb), Cst.nameless_kind hdk rfl⟩
  rw [List.append_nil]
  exact .methodDecl hk hn hkeywords hts.2 hd (Cst.nameless_kind hu rfl) hdims.2 hes.2 hb.2 hm hts.1 htype hps hdims.1
    hes.1 hb.1

theorem stands_defaultValue {v : Ast .expr} (hk : t.kind = .defaultValue)
    (h : (whole t do (← next).read .elementValue) = .ok v) : Stands direct [t.tree] v :=
  stands_inside ht hk rfl (.next fun _ hd => .lift fun _ hv => hd.stands (r := .elementValue) hv) h

theorem stands_annotationMemberDecl {v : Ast .member} (hk : t.kind = .annotationMemberDecl)
    (h : annotationMemberDecl t = .ok v) : Stands direct [t.tree] v := by
  refine stands_whole ht (.header (.inl rfl) fun m h hm hkeywords => .type fun u type hu htype => ?_) h
  refine .name fun n hn => .bind reads_optionalDims fun vs dims hdims =>
    .part (J := fun us e => Stands direct us e ∧ Cst.Nameless us) (fun _ => (bind_assoc _ _ _).symm) rfl
      (fun d hd hdk => .result fun e he => .pure ?_) ⟨.absent, Cst.nameless_nil⟩ fun ws e he => .pure ?_
  · exact ⟨.present (stands_defaultValue hd.branch hdk he), Cst.nameless_kind hdk rfl⟩
  rw [List.append_nil]
  exact .annotationMemberDecl hk hn hkeywords (Cst.nameless_kind hu rfl) hdims.2 he.2 hm htype hdims.1 he.1

theorem stands_constructorCall {v : Ast .constructorCall} (hk : t.kind = .explicitConstructorInvocation)
    (h : constructorCall t = .ok v) : Stands direct [t.tree] v := by
  refine stands_inside ht hk rfl (.partOf (J := fun us scope => Stands direct us (ofOption scope)) (fun _ => rfl) rfl
    (fun d hd _ => .wrapped fun e he => ?_) .absent fun us scope hscope => ?_) h
  · exact .present (hd.stands (r := .expr) he)
  refine .bind reads_optionalTypeArguments fun vs ts hts => .leaf (by decide) fun word hword =>
    .ite (fun _ => .failBind) fun _ => ?_
  exact .child stands_arguments fun u es _ hes => .pure (.constructorCall hword hscope hts hes)

theorem stands_constructorBody {v : Option (Ast .constructorCall) × Ast (.list .stmt)}
    (h : (within t do
      let delegation ← match ← optional [.explicitConstructorInvocation] with
        | some t => some <$> (constructorCall t : Result _)
        | none => pure none
      return (delegation, (← eachIn .stmt (← rest) : Ast (.list .stmt)))) = .ok v) :
    ∃ us vs, t.children.map Decorated.tree = us ++ vs ∧ Stands direct us (ofOption v.1) ∧ Stands direct vs v.2 := by
  refine Reads.within (J := fun ws v => ∃ us vs, ws = us ++ vs ∧ Stands direct us (ofOption v.1) ∧ Stands direct vs v.2)
    ht.children (.part (J := fun us call => Stands direct us (ofOption call)) (fun _ => rfl) rfl
      (fun d hd hdk => .wrapped fun call hcall => ?_) .absent fun us call hcall => ?_) h
  · exact .present (stands_constructorCall hd.branch hdk hcall)
  · exact .rest fun ds hds => .result fun ss hss => .pure fun _ =>
      ⟨us, _, rfl, hcall, stands_eachIn (r := .stmt) hds hss⟩

theorem stands_constructorDecl {v : Ast .member} (hk : t.kind = .constructorDecl) (h : constructorDecl t = .ok v) :
    Stands direct [t.tree] v := by
  refine stands_whole ht (.header (.inl rfl) fun m h hm hkeywords => ?_) h
  refine .bind reads_optionalTypeParameters fun us ts hts => .name fun n hn => ?_
  refine .child stands_formalParameters fun u ps hu hps => .bind reads_optionalExceptions fun ws es hes => ?_
  refine .one fun d hd hdk => .result fun v hv => .pure ?_
  obtain ⟨xs, ys, hchildren, hcall, hbody⟩ := stands_constructorBody hd.branch hv
  rw [d.branch.tree_eq, hchildren]
  exact .constructorDecl hk hdk hn hkeywords hts.2 (Cst.nameless_kind hu rfl) hes.2 hm hts.1 hps hes.1 hcall hbody

theorem stands_initializer {v : Ast .member} (hk : t.kind = .initializer) (h : initializer t = .ok v) :
    Stands direct [t.tree] v := by
  refine stands_inside ht hk rfl (.optional (fun d hd hdk => ?_)
    (.child stands_block fun u b _ hb => .pure (.initializerDecl hb))) h
  rw [hd.branch.leaf hdk rfl]
  exact .ite (fun _ => .failBind) fun _ => .child stands_block fun u b _ hb => .pure (.staticInitializer hdk hb)

theorem stands_member {v : Ast .member} (h : member t = .ok v) : Stands direct [t.tree] v := by
  unfold member at h
  split at h
  iterate 3
    · obtain ⟨d, hd, rfl⟩ := Result.map_ok.1 h
      exact .ofTypeDecl (stands_typeDecl ht hd)
  · next hk =>
    obtain ⟨d, hd, rfl⟩ := Result.map_ok.1 h
    exact .ofField (stands_fields ht (nofun : VariableRole.field ≠ .localVariable) hk hd)
  · next hk =>
    obtain ⟨d, hd, rfl⟩ := Result.map_ok.1 h
    exact .ofConstant (stands_fields ht (nofun : VariableRole.constant ≠ .localVariable) hk hd)
  iterate 2
    · next hk => exact stands_methodDecl ht (by simp [hk]) h
  · next hk => exact stands_annotationMemberDecl ht hk h
  · next hk => exact stands_constructorDecl ht hk h
  · next hk => exact stands_initializer ht hk h
  · exact nomatch h

/-! ## Files -/

theorem stands_packageDecl {v : PackageDecl} (hk : t.kind = .packageDecl) (h : packageDecl t = .ok v) :
    PackageDecl.Stands direct [t.tree] v := by
  rw [t.tree_eq]
  refine Reads.whole (J := fun ws v => PackageDecl.Stands direct [.node t.source ws] v) ht.children ?_ h
  exact .bind reads_leadingAnnotations fun us as has => .child dotted_qualifiedName fun u q _ hq =>
    .pure (.some hk hq has)

theorem stands_importDecl {v : ImportDecl} (hk : t.kind = .importDecl) (h : importDecl t = .ok v) :
    ImportDecl.Stands t.tree v := by
  have hend (words : List Cst.Label) (hwords : ∀ n ∈ words, n.kind = .modifier) (isStatic : Bool) :
      Reads (Trusted direct) false (do
        let q ← qualifiedName (← expect [.qualifiedName])
        let star ← optional [.operator]
        return ⟨t.place, isStatic, q, star.isSome⟩)
        fun vs v => ImportDecl.Stands (.node t.source (words.map (Tree.node · []) ++ vs)) v := by
    refine .child dotted_qualifiedName fun u q _ hq => .optional (fun d hd hdk => .pure ?_) (.pure ?_)
    · rw [hd.branch.leaf hdk rfl]
      exact .intro words [d.branch.source] hk hwords (List.forall_mem_singleton.2 hdk) hq
    · exact .intro words [] hk hwords (List.forall_mem_nil _) hq
  rw [t.tree_eq]
  refine Reads.whole (J := fun ws v => ImportDecl.Stands (.node t.source ws) v) ht.children
    (.optional (fun d hd hdk => ?_) ?_) h
  · rw [hd.branch.leaf hdk rfl]
    exact hend [d.branch.source] (List.forall_mem_singleton.2 hdk) _
  · exact hend [] (List.forall_mem_nil _) _

omit ht in
theorem stands_imports {ds : List Decorated} (hds : ∀ d ∈ ds, d.Trusted direct ∧ d.kind = .importDecl)
    {is : List ImportDecl} (h : each importDecl ds = .ok is) :
    List.Forall₂ ImportDecl.Stands (ds.map Decorated.tree) is := by
  replace h := mapM_ok h
  induction h with
  | nil => exact .nil
  | cons hi _ ih =>
    obtain ⟨hd, hds⟩ := List.forall_mem_cons.1 hds
    exact .cons (stands_importDecl hd.1.branch hd.2 hi) (ih hds)

theorem stands_compilationUnit {v : CompilationUnit} (h : compilationUnit t = .ok v) :
    CompilationUnit.Stands direct t.tree v := by
  unfold compilationUnit at h
  obtain ⟨hk, h⟩ := of_kind_test' h
  rw [t.tree_eq]
  refine Reads.whole (J := fun ws v => CompilationUnit.Stands direct (.node t.source ws) v) ht.children
    (.part (J := PackageDecl.Stands direct) (fun _ => rfl) rfl
      (fun d hd hdk => .lift fun package => stands_packageDecl hd.branch hdk) .none fun us package hpackage => ?_) h
  refine .many fun ds hds => .result fun imports himports => .expect fun d hd _ => .result fun type htype => .pure ?_
  exact .intro hk hpackage (stands_imports hds himports) (stands_typeDecl hd.branch htype)

/-! ## Trees -/

theorem stands_readings {r : Role} {v : Ast r.category} (h : readings t r = .ok v) : Stands direct [t.tree] v := by
  cases r with
  | type => exact stands_type ht h
  | annotationUse => exact stands_annotationUse ht h
  | elementValue => exact stands_elementValue ht h
  | expr => exact stands_expr ht h
  | stmt => exact stands_stmt ht h
  | member => exact stands_member ht h

omit ht

/-- A declared name is no expression. -/
theorem name?_expr {v : Ast .expr} (h : expr t = .ok v) : Cst.name? t.tree = none := by
  unfold expr at h
  unfold Cst.name?
  split
  iterate 2
    · next hk =>
      rw [show t.kind = _ from hk] at h
      exact nomatch h
  · rfl

theorem withDims_ne_classRef {element : Ast .type} {v : Ast .classType} (h : element ≠ .classRef v)
    (ds : List (Ast .dim)) : element.withDims ds ≠ .classRef v := by
  cases ds with
  | nil => exact h
  | cons d ds => cases d; exact nofun

/-- The children of a type that is a class are annotations, the class, and perhaps dimensions. -/
theorem has_primitiveType {v : Ast .classType} (ht : t.Trusted direct) (h : type t = .ok (.classRef v)) :
    t.tree.has .primitiveType = false := by
  have hother {u : Cst} {k : Cst.Kind} (hu : Cst.kind u = k) (hk : k ≠ .primitiveType) : Cst.kind u ≠ .primitiveType :=
    hu ▸ hk
  have hannotations : Reads (Trusted direct) false leadingAnnotations fun us _ =>
      ∀ u ∈ us, Cst.kind u ≠ .primitiveType := by
    refine .many fun ds hds => .lift fun _ _ => ?_
    rw [List.append_nil]
    exact List.forall_mem_map.2 fun d hd => hother (hds d hd).2 (by decide)
  have hdims : Reads (Trusted direct) false optionalDims fun us _ => ∀ u ∈ us, Cst.kind u ≠ .primitiveType :=
    .optional (fun d _ hk => .lift fun _ _ => List.forall_mem_singleton.2 (hother hk (by decide))) (.pure nofun)
  have hchildren : ∀ u ∈ t.children.map Decorated.tree, Cst.kind u ≠ .primitiveType := by
    refine Reads.whole (J := fun us w => ∀ v, w = .classRef v → ∀ u ∈ us, Cst.kind u ≠ .primitiveType) ht.children ?_
      (of_kind_test h).2 v rfl
    refine .bind hannotations fun us as hus => .expect fun base _ _ => .ite (fun _ => ?_) fun hbase =>
      .result fun type _ => ?_
    · refine .pureBind (.last hdims fun vs ds _ v hv => absurd hv (withDims_ne_classRef ?_ ds))
      exact nofun
    · exact .pureBind (.last hdims fun vs ds hvs v _ =>
        List.forall_mem_append.2 ⟨hus, List.forall_mem_cons.2 ⟨hbase, hvs⟩⟩)
  rw [t.tree_eq, Cst.has, List.any_eq_false]
  exact fun u hu => by simpa using hchildren u hu

end

/-- A tree whose nodes for one token have no children can be trusted, directly so if it is formed. -/
theorem trusted_decorate {t : Cst} (hbare : t.Every Cst.Bare) (hformed : direct → t.Every Cst.Formed) :
    (decorate t).Trusted direct := by
  induction t using Tree.induction with
  | step l ts ih =>
    have hchildren : ∀ d ∈ ts.map decorate, d.Trusted direct :=
      List.forall_mem_map.2 fun t ht => ih t ht (hbare.child ht) fun h => (hformed h).child ht
    have htree : Branch.tree ⟨l, ts.map decorate⟩ = .node l ts := by
      have htree := (Decorated.tree_branch (decorate (.node l ts))).trans (source_decorate _)
      rwa [decorate_node] at htree
    have htrusted : Branch.Trusted direct ⟨l, ts.map decorate⟩ :=
      ⟨by rw [htree, decorate_node]; rfl, by rw [htree]; exact hbare.root,
        fun h => by rw [htree]; exact (hformed h).root, hchildren⟩
    rw [decorate_node]
    exact Tree.every_node.2 ⟨⟨htrusted.genuine, htrusted.bare, htrusted.formed, fun _ _ =>
      stands_readings htrusted, fun _ => name?_expr, fun _ => has_primitiveType htrusted⟩, hchildren⟩

end Reading

/-- What is read off a tree in some role stands for it. -/
theorem stands_of_read {t : Cst} (hbare : t.Every Cst.Bare) (hformed : direct → t.Every Cst.Formed) {r : Role}
    {a : Ast r.category} (h : (Reading.decorate t).read r = .ok a) : Stands direct [t] a := by
  have hstands := (Reading.trusted_decorate hbare hformed).stands h
  rwa [Decorated.tree_branch, Reading.source_decorate] at hstands

/-- A file that is read off a tree stands for it. -/
theorem stands_of_ofCst {t : Cst} (hbare : t.Every Cst.Bare) (hformed : direct → t.Every Cst.Formed)
    {u : CompilationUnit} (h : CompilationUnit.ofCst t = .ok u) : u.Stands direct t := by
  have hstands := Reading.stands_compilationUnit (Reading.trusted_decorate hbare hformed).branch h
  rwa [Decorated.tree_branch, Reading.source_decorate] at hstands

end KiteCompiler.Ast
