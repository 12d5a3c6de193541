import KiteCompiler.Proofs.Reading.Steps

/-!
# Readings over rows of parts

The children of a node form a row of parts, some of which may be missing or repeated. `Takes is m js P` says that over
every row of the items `is` the reading `m` succeeds, leaves a row of the items `js` and has a result of which `P`
holds. These triples are put together along the steps of a reading.
-/

namespace KiteCompiler.Ast.Reading

variable {α β : Type}

/-! ## Results -/

/-- There is a result. -/
def Succeeds (x : Result α) : Prop := ∃ a, x = .ok a

namespace Succeeds

variable {x y : Result α} {f : α → Result β}

theorem ok (a : α) : Succeeds (.ok a) := ⟨a, rfl⟩

theorem bind (hx : Succeeds x) (hf : ∀ a, x = .ok a → Succeeds (f a)) : Succeeds (x >>= f) := by
  obtain ⟨a, rfl⟩ := hx
  exact hf a rfl

theorem map {g : α → β} (hx : Succeeds x) : Succeeds (g <$> x) := by
  obtain ⟨a, rfl⟩ := hx
  exact ⟨g a, rfl⟩

theorem ite_pos {p : Prop} [Decidable p] (h : p) (hx : Succeeds x) : Succeeds (if p then x else y) := by
  rw [if_pos h]
  exact hx

theorem ite_neg {p : Prop} [Decidable p] (h : ¬p) (hy : Succeeds y) : Succeeds (if p then x else y) := by
  rw [if_neg h]
  exact hy

theorem mapM {g : β → Result α} {bs : List β} (h : ∀ b ∈ bs, Succeeds (g b)) : Succeeds (bs.mapM g) := by
  induction bs with
  | nil => exact ok []
  | cons b bs ih =>
    obtain ⟨hb, hbs⟩ := List.forall_mem_cons.1 h
    rw [List.mapM_cons]
    exact hb.bind fun a _ => (ih hbs).bind fun as _ => ok (a :: as)

end Succeeds

/-! ## Parts of a node -/

/-- What stands at some place of the grammar: the kinds of its nodes, and when one is read there. -/
structure Slot where
  kinds : List Cst.Kind
  Reads : Decorated → Prop

/-- What is read by a function of the decorated node. -/
abbrev Slot.on (kinds : List Cst.Kind) (g : Decorated → Result α) : Slot := ⟨kinds, fun d => Succeeds (g d)⟩

/-- What is read by a function of the node. -/
abbrev Slot.by (kinds : List Cst.Kind) (g : Branch → Result α) : Slot := .on kinds fun d => g d.branch

/-- What is read in a role. -/
abbrev Slot.of (r : Role) (kinds : List Cst.Kind) : Slot := .on kinds fun d => d.read r

/-- A node that is read at its place. -/
structure Part (X : Slot) (d : Decorated) : Prop where
  kind : d.kind ∈ X.kinds
  ne_error : d.kind ≠ .error
  reads : X.Reads d

/-- A part of a row: one node, one that may be missing, any number of them, or one at least. -/
inductive Item where
  | one (X : Slot) | opt (X : Slot) | many (X : Slot) | some (X : Slot)

/-- The elements are parts as the items say, where `P` tells what may stand at a place. -/
def Laid (P : Slot → α → Prop) : List Item → List α → Prop
  | [], as => as = []
  | .one X :: is, as => ∃ a bs, as = a :: bs ∧ P X a ∧ Laid P is bs
  | .opt X :: is, as => ∃ os bs, as = os ++ bs ∧ os.length ≤ 1 ∧ (∀ a ∈ os, P X a) ∧ Laid P is bs
  | .many X :: is, as => ∃ os bs, as = os ++ bs ∧ (∀ a ∈ os, P X a) ∧ Laid P is bs
  | .some X :: is, as => ∃ os bs, as = os ++ bs ∧ os ≠ [] ∧ (∀ a ∈ os, P X a) ∧ Laid P is bs

/-- The decorated trees are parts as the items say, and are read. -/
def Filled : List Item → List Decorated → Prop := Laid Part

variable {X : Slot} {is js ks : List Item} {ds : List Decorated} {d : Decorated}

theorem Laid.map {P : Slot → α → Prop} {Q : Slot → β → Prop} {f : α → β} {as : List α} (h : Laid P is as)
    (hf : ∀ a ∈ as, ∀ X, P X a → Q X (f a)) : Laid Q is (as.map f) := by
  induction is generalizing as with
  | nil =>
    obtain rfl : as = [] := h
    exact rfl
  | cons i is ih =>
    cases i with
    | one X =>
      obtain ⟨a, bs, rfl, ha, hbs⟩ := h
      obtain ⟨hfa, hfbs⟩ := List.forall_mem_cons.1 hf
      exact ⟨_, _, rfl, hfa X ha, ih hbs hfbs⟩
    | opt X =>
      obtain ⟨os, bs, rfl, hlength, hos, hbs⟩ := h
      obtain ⟨hfos, hfbs⟩ := List.forall_mem_append.1 hf
      refine ⟨_, _, List.map_append, by rwa [List.length_map], ?_, ih hbs hfbs⟩
      exact List.forall_mem_map.2 fun a ha => hfos a ha X (hos a ha)
    | many X =>
      obtain ⟨os, bs, rfl, hos, hbs⟩ := h
      obtain ⟨hfos, hfbs⟩ := List.forall_mem_append.1 hf
      exact ⟨_, _, List.map_append, List.forall_mem_map.2 fun a ha => hfos a ha X (hos a ha), ih hbs hfbs⟩
    | some X =>
      obtain ⟨os, bs, rfl, hne, hos, hbs⟩ := h
      obtain ⟨hfos, hfbs⟩ := List.forall_mem_append.1 hf
      refine ⟨_, _, List.map_append, by simpa using hne, ?_, ih hbs hfbs⟩
      exact List.forall_mem_map.2 fun a ha => hfos a ha X (hos a ha)

theorem Filled.parts (h : Filled [.many X] ds) : ∀ d ∈ ds, Part X d := by
  obtain ⟨os, _, rfl, hos, rfl⟩ := h
  rwa [List.append_nil]

theorem Filled.some_parts (h : Filled [.some X] ds) : ds ≠ [] ∧ ∀ d ∈ ds, Part X d := by
  obtain ⟨os, _, rfl, hne, hos, rfl⟩ := h
  rw [List.append_nil]
  exact ⟨hne, hos⟩

/-- There are no errors among parts. -/
theorem Filled.ne_error (h : Filled is ds) : ∀ d ∈ ds, d.kind ≠ .error := by
  induction is generalizing ds with
  | nil =>
    obtain rfl : ds = [] := h
    exact nofun
  | cons i is ih =>
    cases i with
    | one X =>
      obtain ⟨d, es, rfl, hd, hes⟩ := h
      exact List.forall_mem_cons.2 ⟨hd.ne_error, ih hes⟩
    | opt X =>
      obtain ⟨os, es, rfl, -, hos, hes⟩ := h
      exact List.forall_mem_append.2 ⟨fun d hd => (hos d hd).ne_error, ih hes⟩
    | many X =>
      obtain ⟨os, es, rfl, hos, hes⟩ := h
      exact List.forall_mem_append.2 ⟨fun d hd => (hos d hd).ne_error, ih hes⟩
    | some X =>
      obtain ⟨os, es, rfl, -, hos, hes⟩ := h
      exact List.forall_mem_append.2 ⟨fun d hd => (hos d hd).ne_error, ih hes⟩

/-- None of the kinds can come next in a row. -/
def avoids (kinds : List Cst.Kind) : List Item → Bool
  | [] => true
  | .one X :: _ | .some X :: _ => X.kinds.all fun k => !kinds.contains k
  | .opt X :: is | .many X :: is => (X.kinds.all fun k => !kinds.contains k) && avoids kinds is

theorem Part.notMem {kinds : List Cst.Kind} (h : Part X d) (hX : (X.kinds.all fun k => !kinds.contains k) = true) :
    d.kind ∉ kinds := by
  have hk := List.all_eq_true.1 hX _ h.kind
  simpa using hk

theorem Part.ne {k : Cst.Kind} (h : Part X d) (hk : k ∉ X.kinds) : d.kind ≠ k := fun hd => hk (hd ▸ h.kind)

theorem head_notMem {kinds : List Cst.Kind} (h : avoids kinds is = true) (hds : Filled is ds) :
    ∀ d ∈ ds.head?, d.kind ∉ kinds := by
  induction is generalizing ds with
  | nil =>
    obtain rfl : ds = [] := hds
    exact nofun
  | cons i is ih =>
    cases i with
    | one X =>
      obtain ⟨d, es, rfl, hd, -⟩ := hds
      rintro _ ⟨⟩
      exact hd.notMem h
    | opt X =>
      obtain ⟨hX, his⟩ := Bool.and_eq_true_iff.1 h
      obtain ⟨_ | ⟨d, os⟩, es, rfl, -, hos, hes⟩ := hds
      · exact ih his hes
      · rintro _ ⟨⟩
        exact (hos d List.mem_cons_self).notMem hX
    | many X =>
      obtain ⟨hX, his⟩ := Bool.and_eq_true_iff.1 h
      obtain ⟨_ | ⟨d, os⟩, es, rfl, hos, hes⟩ := hds
      · exact ih his hes
      · rintro _ ⟨⟩
        exact (hos d List.mem_cons_self).notMem hX
    | some X =>
      obtain ⟨_ | ⟨d, os⟩, es, rfl, hne, hos, -⟩ := hds
      · exact absurd rfl hne
      · rintro _ ⟨⟩
        exact (hos d List.mem_cons_self).notMem h

/-! ## Triples -/

/-- Over a row of the items `is` the reading leaves one of the items `js`, and `P` holds of its result. -/
def Takes (is : List Item) (m : Reading α) (js : List Item) (P : α → Prop) : Prop :=
  ∀ t ds, Filled is ds → ∃ a es, m ⟨t, ds⟩ = (.ok a, ⟨t, es⟩) ∧ Filled js es ∧ P a

namespace Takes

variable {m m' : Reading α} {f : α → Reading β} {P : α → Prop} {Q : β → Prop} {a : α} {x : Result α}

theorem bind (hm : Takes is m js P) (hf : ∀ a, P a → Takes js (f a) ks Q) : Takes is (m >>= f) ks Q := by
  intro t ds hds
  obtain ⟨a, es, hrun, hes, ha⟩ := hm t ds hds
  obtain ⟨b, es', hrun', hes', hb⟩ := hf a ha t es hes
  exact ⟨b, es', bind_ok.2 ⟨a, _, hrun, hrun'⟩, hes', hb⟩

theorem ret (h : P a) : Takes is (Pure.pure a) is P := fun _ ds hds => ⟨a, ds, rfl, hds, h⟩

theorem step (h : Takes is (f a) js Q) : Takes is (Pure.pure a >>= f) js Q := h

/-- A result of which nothing is to be shown. -/
theorem pure : Takes is (Pure.pure a) is fun _ => True := ret trivial

theorem known (h : x = .ok a) (hf : Takes is (f a) js Q) : Takes is (liftM x >>= f) js Q := by
  subst h
  exact hf

theorem lift (h : Succeeds x) (hf : ∀ a, x = .ok a → Takes is (f a) js Q) : Takes is (liftM x >>= f) js Q := by
  obtain ⟨a, ha⟩ := h
  exact known ha (hf a ha)

theorem result (h : Succeeds x) : Takes is (liftM x) is fun _ => True := by
  obtain ⟨a, rfl⟩ := h
  exact pure

theorem anyway (hm : Takes is m js P) : Takes is m js fun _ => True := fun t ds hds =>
  (hm t ds hds).imp fun _ => Exists.imp fun _ h => ⟨h.1, h.2.1, trivial⟩

/-- What comes next, whatever is read before it. -/
theorem seq (hm : Takes is m js fun _ => True) (hf : ∀ {a}, Takes js (f a) ks Q) : Takes is (m >>= f) ks Q :=
  bind hm fun _ _ => hf

theorem wrapped {γ : Type} {g : α → γ} {f : γ → Reading β} (h : Succeeds x) (hf : ∀ a, Takes is (f (g a)) js Q) :
    Takes is (g <$> liftM x >>= f) js Q := by
  obtain ⟨a, rfl⟩ := h
  exact hf a

theorem ite_pos {p : Prop} [Decidable p] (h : p) (hm : Takes is m js P) : Takes is (if p then m else m') js P := by
  rw [if_pos h]
  exact hm

theorem ite_neg {p : Prop} [Decidable p] (h : ¬p) (hm : Takes is m' js P) : Takes is (if p then m else m') js P := by
  rw [if_neg h]
  exact hm

theorem opt (h₁ : Takes (.one X :: is) m js P) (h₀ : Takes is m js P) : Takes (.opt X :: is) m js P := by
  rintro t _ ⟨_ | ⟨d, _ | ⟨e, os⟩⟩, es, rfl, hlength, hos, hes⟩
  · exact h₀ t _ hes
  · exact h₁ t (d :: es) ⟨d, es, rfl, hos d List.mem_cons_self, hes⟩
  · exact absurd hlength (by simp)

theorem of_many (h : Takes (.many X :: is) m js P) : Takes is m js P :=
  fun t ds hds => h t ds ⟨[], ds, rfl, nofun, hds⟩

theorem peek_none {f : Option Decorated → Reading β} (h : Takes [] (f none) js Q) : Takes [] (peek >>= f) js Q := by
  rintro t _ rfl
  exact h t [] rfl

theorem peek_some {f : Option Decorated → Reading β} (h : ∀ d, Part X d → Takes (.one X :: is) (f (some d)) js Q) :
    Takes (.one X :: is) (peek >>= f) js Q := by
  rintro t _ ⟨d, es, rfl, hd, hes⟩
  exact h d hd t (d :: es) ⟨d, es, rfl, hd, hes⟩

/-- A step that takes the next child. -/
theorem taken {m : Reading α} {g : Decorated → α} {f : α → Reading β}
    (hm : ∀ t d es, Part X d → m ⟨t, d :: es⟩ = (.ok (g d), ⟨t, es⟩)) (hf : ∀ d, Part X d → Takes is (f (g d)) js Q) :
    Takes (.one X :: is) (m >>= f) js Q := by
  rintro t _ ⟨d, es, rfl, hd, hes⟩
  obtain ⟨b, es', hrun, hes', hb⟩ := hf d hd t es hes
  exact ⟨b, es', bind_ok.2 ⟨g d, ⟨t, es⟩, hm t d es hd, hrun⟩, hes', hb⟩

theorem next {f : Decorated → Reading β} (hf : ∀ d, Part X d → Takes is (f d) js Q) :
    Takes (.one X :: is) (Reading.next >>= f) js Q :=
  taken (fun t _ es hd => next_cons hd.ne_error t es) hf

theorem expectOf {kinds : List Cst.Kind} (h : ∀ k ∈ X.kinds, k ∈ kinds) {f : Decorated → Reading β}
    (hf : ∀ d, Part X d → Takes is (f d) js Q) : Takes (.one X :: is) (Reading.expect kinds >>= f) js Q :=
  taken (fun _ _ _ hd => expect_ok.2 ⟨⟨hd.ne_error, h _ hd.kind⟩, rfl⟩) hf

theorem expect {f : Decorated → Reading β} (hf : ∀ d, Part X d → Takes is (f d) js Q) :
    Takes (.one X :: is) (Reading.expect X.kinds >>= f) js Q := expectOf (fun _ => id) hf

theorem optional_some {f : Option Decorated → Reading β} (hf : ∀ d, Part X d → Takes is (f (some d)) js Q) :
    Takes (.one X :: is) (Reading.optional X.kinds >>= f) js Q := by
  refine taken (fun t d es hd => ?_) hf
  change (ite (X.kinds.contains d.kind = true) _ _ : Reading _) _ = _
  rw [if_pos (List.contains_iff_mem.2 hd.kind)]
  rfl

theorem optional_none {kinds : List Cst.Kind} (h : avoids kinds is = true) {f : Option Decorated → Reading β}
    (hf : Takes is (f none) js Q) : Takes is (optional kinds >>= f) js Q := by
  intro t ds hds
  obtain ⟨b, es', hrun, hes', hb⟩ := hf t ds hds
  refine ⟨b, es', bind_ok.2 ⟨none, ⟨t, ds⟩, ?_, hrun⟩, hes', hb⟩
  have hahead := head_notMem h hds
  cases ds with
  | nil => rfl
  | cons d ds =>
    change (ite (kinds.contains d.kind = true) _ _ : Reading _) _ = _
    rw [if_neg fun hc => hahead d rfl (List.contains_iff_mem.1 hc)]
    rfl

theorem optional (h : avoids X.kinds is = true) {f : Option Decorated → Reading β}
    (hsome : ∀ d, Part X d → Takes is (f (some d)) js Q) (hnone : Takes is (f none) js Q) :
    Takes (.opt X :: is) (optional X.kinds >>= f) js Q :=
  opt (optional_some hsome) (optional_none h hnone)

theorem many_run {kind : Cst.Kind} {es : List Decorated} (t : Branch) (hds : ∀ d ∈ ds, d.kind = kind)
    (hes : ∀ d ∈ es.head?, d.kind ∉ [kind]) : many kind ⟨t, ds ++ es⟩ = (.ok ds, ⟨t, es⟩) := by
  refine many_ok.2 ⟨?_, ?_⟩
  · rw [List.takeWhile_append_of_pos fun d hd => beq_iff_eq.2 (hds d hd)]
    cases es with
    | nil => simp
    | cons d es => rw [List.takeWhile_cons_of_neg (by simpa using hes d rfl), List.append_nil]
  · rw [List.dropWhile_append_of_pos fun d hd => beq_iff_eq.2 (hds d hd)]
    cases es with
    | nil => rfl
    | cons d es => rw [List.dropWhile_cons_of_neg (by simpa using hes d rfl)]

theorem many {kind : Cst.Kind} (hX : X.kinds = [kind]) (h : avoids [kind] is = true) {f : List Decorated → Reading β}
    (hf : ∀ ds, (∀ d ∈ ds, Part X d) → Takes is (f ds) js Q) :
    Takes (.many X :: is) (Reading.many kind >>= f) js Q := by
  refine bind (P := fun ds => ∀ d ∈ ds, Part X d) ?_ hf
  rintro t _ ⟨os, es, rfl, hos, hes⟩
  refine ⟨os, es, many_run t (fun d hd => ?_) (head_notMem h hes), hes, hos⟩
  exact List.mem_singleton.1 (hX ▸ (hos d hd).kind)

theorem some {kind : Cst.Kind} (hX : X.kinds = [kind]) (h : avoids [kind] is = true) {f : List Decorated → Reading β}
    (hf : ∀ ds, ds ≠ [] ∧ (∀ d ∈ ds, Part X d) → Takes is (f ds) js Q) :
    Takes (.some X :: is) (Reading.many kind >>= f) js Q := by
  refine bind (P := fun ds => ds ≠ [] ∧ ∀ d ∈ ds, Part X d) ?_ hf
  rintro t _ ⟨os, es, rfl, hne, hos, hes⟩
  refine ⟨os, es, many_run t (fun d hd => ?_) (head_notMem h hes), hes, hne, hos⟩
  exact List.mem_singleton.1 (hX ▸ (hos d hd).kind)

theorem rest {f : List Decorated → Reading β} (hf : ∀ ds, Filled is ds → Takes [] (f ds) js Q) :
    Takes is (Reading.rest >>= f) js Q := by
  intro t ds hds
  obtain ⟨b, es, hrun, hes, hb⟩ := hf ds hds t [] rfl
  exact ⟨b, es, bind_ok.2 ⟨ds, _, rest_ok.2 ⟨hds.ne_error, rfl, rfl⟩, hrun⟩, hes, hb⟩

theorem done : Takes [] done [] fun _ => True := by
  rintro t _ rfl
  exact ⟨(), [], rfl, rfl, trivial⟩

theorem thenDone (hm : Takes is m [] P) : Takes is (thenDone m) [] P := by
  intro t ds hds
  obtain ⟨a, _, hrun, rfl, ha⟩ := hm t ds hds
  exact ⟨a, [], thenDone_ok.2 ⟨hrun, rfl⟩, rfl, ha⟩

/-- The next child, which is read as it stands in the row. -/
theorem part {kinds : List Cst.Kind} {g : Decorated → Result α} {f : Decorated → α → Reading β}
    (hf : ∀ {d} a, Takes is (f d a) js Q) :
    Takes (.one (.on kinds g) :: is) (Reading.expect kinds >>= fun d => liftM (g d) >>= f d) js Q :=
  expect fun _ hd => lift hd.reads fun a _ => hf a

/-- The next child, of whatever kind. -/
theorem child {r : Role} {kinds : List Cst.Kind} :
    Takes (.one (.of r kinds) :: is) (Reading.next >>= fun d => liftM (d.read r)) is fun _ => True :=
  next fun _ hd => result hd.reads

end Takes

/-! ## Nodes over a row -/

/-- A node that is no error, over a row of these items. -/
structure Over (is : List Item) (t : Branch) : Prop where
  ne_error : t.kind ≠ .error
  filled : Filled is t.children

namespace Over

variable {t : Branch} {m : Reading α} {P : α → Prop}

theorem exists_within (h : Over is t) (hm : Takes is m js P) : ∃ a, within t m = .ok a ∧ P a := by
  obtain ⟨a, es, hrun, -, ha⟩ := hm t t.children h.filled
  exact ⟨a, within_ok.2 ⟨h.ne_error, _, hrun⟩, ha⟩

theorem exists_whole (h : Over is t) (hm : Takes is m [] P) : ∃ a, whole t m = .ok a ∧ P a :=
  h.exists_within (hm.bind fun _ ha => Takes.done.bind fun _ _ => .ret ha)

theorem within (h : Over is t) (hm : Takes is m [] fun _ => True) : Succeeds (within t m) :=
  (h.exists_within hm).imp fun _ => And.left

theorem whole (h : Over is t) (hm : Takes is m [] fun _ => True) : Succeeds (whole t m) :=
  (h.exists_whole hm).imp fun _ => And.left

theorem children_eq (h : Over is t) : Reading.children t = .ok t.children :=
  within_ok.2 ⟨h.ne_error, _, rest_ok.2 ⟨h.filled.ne_error, rfl, rfl⟩⟩

theorem children (h : Over is t) {f : List Decorated → Result β} (hf : Filled is t.children → Succeeds (f t.children)) :
    Succeeds (children t >>= f) :=
  (hf h.filled).imp fun _ hb => Result.bind_ok.2 ⟨_, h.children_eq, hb⟩

end Over

/-- A node over a row, which is read where the node stands. -/
abbrev Slot.row (kinds : List Cst.Kind) (is : List Item) : Slot := ⟨kinds, fun d => Filled is d.branch.children⟩

theorem Part.over {kinds : List Cst.Kind} (hd : Part (.row kinds is) d) : Over is d.branch := ⟨hd.ne_error, hd.reads⟩

/-! ## Nodes that are read alike -/

theorem succeeds_each {kinds : List Cst.Kind} {g : Branch → Result α}
    (h : ∀ d ∈ ds, Part (.by kinds g) d) : Succeeds (each g ds) := .mapM fun d hd => (h d hd).reads

theorem succeeds_eachIn {r : Role} {kinds : List Cst.Kind}
    (h : ∀ d ∈ ds, Part (.of r kinds) d) : Succeeds (eachIn r ds) := .map (.mapM fun d hd => (h d hd).reads)

theorem isEmpty_each {g : Branch → Result α} {as : List α} (h : each g ds = .ok as) (hds : ds ≠ []) :
    ¬as.isEmpty = true := by
  cases mapM_ok h with
  | nil => exact absurd rfl hds
  | cons => exact Bool.false_ne_true

end KiteCompiler.Ast.Reading
