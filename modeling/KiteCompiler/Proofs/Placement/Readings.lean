import KiteCompiler.Ast.Reading.Declarations
import KiteCompiler.Proofs.Placement.Constructors

/-!
# Reading trees that differ in places

If two concrete trees have the same shape, kinds and tokens, and the places of the second are those of the first moved
by `g`, then either both can be read as abstract syntax, which is complete, and the second result is the first one moved
by `g`, or neither can (`ofCst_moved`). Readings correspond if they lead from corresponding cursors to corresponding
cursors and results. That a reading corresponds to itself is found by instance search; those that choose by a `match`,
and those that refuse an empty list, have a proof of their own.
-/

namespace KiteCompiler

/-- Where a node of a concrete tree starts. -/
def Cst.Label.place (l : Cst.Label) : Place := ⟨l.span.first.line, l.span.first.column⟩

/-- The same node at a moved place. -/
structure Cst.Label.Moved (g : Place → Place) (l l' : Cst.Label) : Prop where
  kind : l'.kind = l.kind
  place : l'.place = g l.place
  token : l'.token.map (fun t => (t.kind, t.text)) = l.token.map fun t => (t.kind, t.text)

namespace Ast

variable {α β : Type} {g : Place → Place} {c : Category}

/-! ## Corresponding trees and results -/

/-- Both results are values, which are related, or both are failures. -/
inductive Result.Rel (r : α → α → Prop) : Result α → Result α → Prop
  | ok {a a' : α} (h : r a a') : Rel r (.ok a) (.ok a')
  | error {e e' : Malformed} : Rel r (.error e) (.error e')

/-- The second node is the first one, moved. -/
structure Branch.Moved (g : Place → Place) [Relates g Decorated] (t t' : Branch) : Prop where
  source : t.source.Moved g t'.source
  children : Relates.rel g t.children t'.children

/-- Corresponding cursors. -/
structure Cursor.Moved (g : Place → Place) [Relates g Decorated] [Relates g Branch] (c c' : Cursor) : Prop where
  node : Relates.rel g c.node c'.node
  rest : Relates.rel g c.rest c'.rest

instance [Relates g α] : Relates g (Result α) := ⟨Result.Rel (Relates.rel g)⟩

instance : Relates g Decorated :=
  ⟨Tree.Rel fun x x' => x.1.Moved g x'.1 ∧ ∀ r : Role, Relates.rel g (x.2 r) (x'.2 r)⟩

instance : Relates g Branch := ⟨Branch.Moved g⟩

instance : Relates g Cursor := ⟨Cursor.Moved g⟩

instance [Relates g α] : Relates g (Reading α) :=
  ⟨fun p p' => ∀ c c' : Cursor, Relates.rel g c c' → Relates.rel g (p c).1 (p' c').1 ∧ Relates.rel g (p c).2 (p' c').2⟩

section Values

variable {t t' : Branch} {u u' : Decorated}

instance : Respects g Decorated.branch := ⟨fun _ _ h => ⟨(Tree.rel_iff.1 h).1.1, (Tree.rel_iff.1 h).2⟩⟩

-- the category of a role is no pattern to search by
instance (r : Role) [h : Related g u u'] : @Related _ (no_index (Result (Ast r.category))) g _ (u.read r) (u'.read r) :=
  ⟨(Tree.rel_iff.1 h.rel).1.2 r⟩

instance : Respects g Branch.kind := ⟨fun _ _ h => h.source.kind.symm⟩

instance : Respects g Branch.place := ⟨fun _ _ h => h.source.place⟩

instance : Respects g Branch.literal := by
  refine ⟨fun t t' h => ?_⟩
  have htoken := congrArg (fun x => (x.map Prod.snd).getD []) h.source.token
  exact Eq.symm (by simpa only [Branch.literal, Option.map_map, Function.comp_def] using htoken)

instance : Respects g Branch.tokenKind := by
  refine ⟨fun t t' h => ?_⟩
  have htoken := congrArg (fun x => (x.map Prod.fst).getD .eof) h.source.token
  exact Eq.symm (by simpa only [Branch.tokenKind, Option.map_map, Function.comp_def] using htoken)

instance [Related g u u'] : Related g u.kind u'.kind := by unfold Decorated.kind; infer_instance

instance [Related g u u'] : Related g u.literal u'.literal := by unfold Decorated.literal; infer_instance

instance [Related g u u'] : Related g u.place u'.place := by unfold Decorated.place; infer_instance

theorem kind_of_related (h : Related g t t') : t.kind = t'.kind := h.rel.source.kind.symm

theorem root_of_related (h : Related g u u') : u.kind = u'.kind := (inferInstance : Related g u.kind u'.kind).rel

theorem literal_of_related (h : Related g t t') : t.literal = t'.literal :=
  (inferInstance : Related g t.literal t'.literal).rel

end Values

instance [Relates g α] [Simple g α] : Simple g (Result α) :=
  ⟨fun x => x.casesOn (fun _ => .error) fun a => .ok (Simple.self a)⟩

/-! ## Results -/

namespace Result

variable [Relates g α] [Relates g β] {x x' : Result α}

instance {a a' : α} [h : Related g a a'] : Related g (.ok a : Result α) (.ok a') := ⟨.ok h.rel⟩

instance {a a' : α} [h : Related g a a'] : Related g (pure a : Result α) (pure a') := ⟨.ok h.rel⟩

instance {t t' : Branch} {e e' : Malformed.Cause} : Related g (t.fail e : Result α) (t'.fail e') := ⟨.error⟩

theorem bind_moved {f f' : α → Result β} (hx : Related g x x')
    (hf : ∀ a : Pair g α, Related g (f a.left) (f' a.right)) : Related g (x >>= f) (x' >>= f') := by
  refine ⟨?_⟩
  cases hx.rel with
  | ok h => exact (hf ⟨_, _, h⟩).rel
  | error => exact .error

instance {f f' : α → Result β} [hx : Related g x x'] [hf : ∀ a : Pair g α, Related g (f a.left) (f' a.right)] :
    Related g (x >>= f) (x' >>= f') := bind_moved hx hf

/-- A list without elements is told apart from one with elements. -/
theorem list_bind_moved {x x' : Result (List α)} {f f' : List α → Result β} [hx : Related g x x']
    (hnil : Related g (f []) (f' []))
    (hcons : ∀ (a : Pair g α) (as : Pair g (List α)), Related g (f (a.left :: as.left)) (f' (a.right :: as.right))) :
    Related g (x >>= f) (x' >>= f') := by
  refine bind_moved hx ?_
  rintro ⟨as, as', h⟩
  cases h with
  | nil => exact hnil
  | cons ha has => exact hcons ⟨_, _, ha⟩ ⟨_, _, has⟩

instance {f f' : α → β} [hx : Related g x x'] [hf : Related g f f'] : Related g (f <$> x) (f' <$> x') := by
  refine ⟨?_⟩
  cases hx.rel with
  | ok h => exact .ok (hf.rel _ _ h)
  | error => exact .error

theorem mapM_moved {f f' : α → Result β} {as as' : List α} (hf : ∀ a : Pair g α, Related g (f a.left) (f' a.right))
    [h : Related g as as'] : Related g (as.mapM f) (as'.mapM f') := by
  refine ⟨?_⟩
  induction h.rel with
  | nil => exact .ok .nil
  | cons ha _ ih =>
    rw [List.mapM_cons, List.mapM_cons]
    exact (bind_moved (hf ⟨_, _, ha⟩) fun _ => bind_moved ⟨ih⟩ fun _ => inferInstance).rel

instance {f f' : α → Result β} {as as' : List α} [hf : ∀ a : Pair g α, Related g (f a.left) (f' a.right)]
    [Related g as as'] : Related g (as.mapM f) (as'.mapM f') := mapM_moved hf

end Result

namespace Reading

variable [Relates g α] [Relates g β] {p p' : Reading α}

/-! ## Steps of readings -/

theorem pure_moved {a a' : α} (h : Relates.rel g a a') : Related g (pure a : Reading α) (pure a') :=
  ⟨fun _ _ hc => ⟨.ok h, hc⟩⟩

instance {a a' : α} [h : Related g a a'] : Related g (pure a : Reading α) (pure a') := pure_moved h.rel

theorem bind_moved {f f' : α → Reading β} [hp : Related g p p']
    (hf : ∀ a : Pair g α, Related g (f a.left) (f' a.right)) : Related g (p >>= f) (p' >>= f') := by
  refine ⟨fun c c' hc => ?_⟩
  obtain ⟨hr, hc'⟩ := hp.rel c c' hc
  change Result.Rel _ (ExceptT.bindCont f (p c).1 (p c).2).1 (ExceptT.bindCont f' (p' c').1 (p' c').2).1 ∧
    Cursor.Moved g (ExceptT.bindCont f (p c).1 (p c).2).2 (ExceptT.bindCont f' (p' c').1 (p' c').2).2
  generalize (p c).1 = x, (p' c').1 = x' at hr
  cases hr with
  | ok h => exact (hf ⟨_, _, h⟩).rel _ _ hc'
  | error => exact ⟨.error, hc'⟩

instance {f f' : α → Reading β} [hp : Related g p p'] [hf : ∀ a : Pair g α, Related g (f a.left) (f' a.right)] :
    Related g (p >>= f) (p' >>= f') := bind_moved hf

/-- A list without elements is told apart from one with elements. -/
theorem list_bind_moved {p p' : Reading (List α)} {f f' : List α → Reading β} [hp : Related g p p']
    (hnil : Related g (f []) (f' []))
    (hcons : ∀ (a : Pair g α) (as : Pair g (List α)), Related g (f (a.left :: as.left)) (f' (a.right :: as.right))) :
    Related g (p >>= f) (p' >>= f') := by
  refine bind_moved ?_
  rintro ⟨as, as', h⟩
  cases h with
  | nil => exact hnil
  | cons ha has => exact hcons ⟨_, _, ha⟩ ⟨_, _, has⟩

theorem option_bind_moved {p p' : Reading (Option α)} {f f' : Option α → Reading β} [Related g p p']
    (hnone : Related g (f none) (f' none)) (hsome : ∀ x : Pair g α, Related g (f (some x.left)) (f' (some x.right))) :
    Related g (p >>= f) (p' >>= f') := bind_moved fun a => Related.option_cases a.rel hnone hsome

/-- A result that may be there or not. -/
instance (priority := high) {p p' : Reading (Option α)} {f f' : Option α → Reading β} [hp : Related g p p']
    [hnone : Related g (f none) (f' none)] [hsome : ∀ x : Pair g α, Related g (f (some x.left)) (f' (some x.right))] :
    Related g (p >>= f) (p' >>= f') := option_bind_moved hnone hsome

/-- A result of two parts. -/
instance (priority := high) {γ : Type} [Relates g γ] {p p' : Reading (α × γ)} {f f' : α × γ → Reading β}
    [hp : Related g p p'] [hf : ∀ (a : Pair g α) (c : Pair g γ),
    Related g (f (a.left, c.left)) (f' (a.right, c.right))] :
    Related g (p >>= f) (p' >>= f') :=
  bind_moved fun ⟨_, _, h⟩ => hf ⟨_, _, h.1⟩ ⟨_, _, h.2⟩

instance {f f' : α → β} [Related g f f'] [Related g p p'] : Related g (f <$> p) (f' <$> p') := by
  rw [map_eq_pure_bind, map_eq_pure_bind]
  infer_instance

/-- The result of another reading, which did not fail. -/
theorem lift_bind_moved {x x' : Result α} {f f' : α → Reading β} (hx : Related g x x')
    (hf : ∀ a a', x = .ok a → Relates.rel g a a' → Related g (f a) (f' a')) :
    Related g ((liftM x : Reading α) >>= f) ((liftM x' : Reading α) >>= f') := by
  obtain ⟨hx⟩ := hx
  cases hx with
  | ok h => exact hf _ _ rfl h
  | error => exact ⟨fun _ _ hc => ⟨.error, hc⟩⟩

instance {x x' : Result α} [h : Related g x x'] : Related g (liftM x : Reading α) (liftM x') := by
  refine ⟨fun c c' hc => ?_⟩
  cases h.rel with
  | ok ha => exact ⟨.ok ha, hc⟩
  | error => exact ⟨.error, hc⟩

instance fail_moved {t t' : Branch} {e e' : Malformed.Cause} : Related g (fail t e : Reading α) (fail t' e') :=
  ⟨fun _ _ hc => ⟨.error, hc⟩⟩

/-- What comes after a failure is never read. -/
instance (priority := high) fail_bind_moved {t t' : Branch} {e e' : Malformed.Cause} {f f' : α → Reading β} :
    Related g (fail t e >>= f) (fail t' e' >>= f') := ⟨fun _ _ hc => ⟨.error, hc⟩⟩

/-! ## The cursor -/

instance : Related g (get : Reading Cursor) get := ⟨fun _ _ hc => ⟨.ok hc, hc⟩⟩

instance : Respects g node := ⟨fun _ _ hc => ⟨.ok hc.node, hc⟩⟩

instance : Respects g peek := by
  refine ⟨fun c c' hc => ⟨.ok ?_, hc⟩⟩
  have hrest : List.Forall₂ (Relates.rel g) c.rest c'.rest := hc.rest
  generalize c.rest = ts, c'.rest = ts' at hrest ⊢
  cases hrest with
  | nil => exact .none
  | cons h _ => exact .some h

instance : Respects g skip := by
  refine ⟨fun c c' hc => ⟨.ok rfl, hc.node, ?_⟩⟩
  have hrest : List.Forall₂ (Relates.rel g) c.rest c'.rest := hc.rest
  change List.Forall₂ _ c.rest.tail c'.rest.tail
  generalize c.rest = ts, c'.rest = ts' at hrest ⊢
  cases hrest with
  | nil => exact .nil
  | cons _ h => exact h

instance : Respects g next := by unfold next; infer_instance

instance (kinds : List Cst.Kind) : Respects g (optional kinds) := by unfold optional; infer_instance

instance (kinds : List Cst.Kind) : Respects g (expect kinds) := by unfold expect; infer_instance

instance (kind : Cst.Kind) : Respects g (many kind) := by
  have hsplit {ts ts' : List Decorated} (h : Relates.rel g ts ts') :
      Relates.rel g (ts.takeWhile fun t => t.kind == kind) (ts'.takeWhile fun t => t.kind == kind) ∧
        Relates.rel g (ts.dropWhile fun t => t.kind == kind) (ts'.dropWhile fun t => t.kind == kind) := by
    induction h with
    | nil => exact ⟨.nil, .nil⟩
    | @cons t t' _ _ ht hts ih =>
      have hkind : t.kind = t'.kind := root_of_related ⟨ht⟩
      simp only [List.takeWhile_cons, List.dropWhile_cons, hkind]
      split
      · exact ⟨.cons ht ih.1, ih.2⟩
      · exact ⟨.nil, .cons ht hts⟩
  exact ⟨fun c c' hc => ⟨.ok (hsplit hc.rest).1, hc.node, (hsplit hc.rest).2⟩⟩

instance : Respects g Cursor.rest := ⟨fun _ _ hc => hc.rest⟩

instance : Related g (modify fun c => { c with rest := [] } : Reading Unit) (modify fun c => { c with rest := [] }) :=
  ⟨fun _ _ hc => ⟨.ok rfl, hc.node, .nil⟩⟩

instance : Respects g rest := by
  unfold rest
  refine bind_moved fun c => bind_moved fun _ => ?_
  have : Related g (c.left.rest.find? fun t : Decorated => t.kind == .error)
    (c.right.rest.find? fun t : Decorated => t.kind == .error) := inferInstance
  exact Related.option_cases this.rel inferInstance inferInstance

instance : Respects g done := by unfold done; infer_instance

theorem thenDone_moved (h : Related g p p') : Related g (thenDone p) (thenDone p') := by
  refine ⟨fun c c' hc => ?_⟩
  have hpc := h.rel c c' hc
  unfold Reading.thenDone
  generalize p c = x, p' c' = x' at hpc
  obtain ⟨result, d⟩ := x
  obtain ⟨result', d'⟩ := x'
  obtain ⟨hresult, hd⟩ := hpc
  have hdone := (inferInstance : Respects g done).rel d d' hd
  dsimp only
  generalize done d = y, done d' = y' at hdone
  obtain ⟨end', e⟩ := y
  obtain ⟨end'', e'⟩ := y'
  obtain ⟨hend, he⟩ := hdone
  cases hend with
  | ok => exact ⟨hresult, he⟩
  | error => exact ⟨.error, he⟩

variable {t t' : Branch} [ht : Related g t t'] {ts ts' : List Decorated} [hts : Related g ts ts']

theorem within_moved (hp : Related g p p') : Related g (within t p) (within t' p') := by
  have : Related g (p ⟨t, t.children⟩).1 (p' ⟨t', t'.children⟩).1 := ⟨(hp.rel _ _ ⟨ht.rel, ht.rel.children⟩).1⟩
  unfold within
  infer_instance

instance [hp : Related g p p'] : Related g (within t p) (within t' p') := within_moved hp

theorem whole_moved (hp : Related g p p') : Related g (whole t p) (whole t' p') := by unfold whole; infer_instance

instance [hp : Related g p p'] : Related g (whole t p) (whole t' p') := whole_moved hp

instance : Related g (children t) (children t') := by unfold children; infer_instance

instance {read read' : Branch → Result α}
    [∀ x : Pair g Decorated, Related g (read x.left.branch) (read' x.right.branch)] :
    Related g (each read ts) (each read' ts') := by unfold each; infer_instance

instance : Respects g (@ofList c) := by
  refine ⟨fun as as' h => ?_⟩
  induction h with
  | nil => exact Constructors.nil.rel
  | cons ha _ ih => exact Constructors.cons.rel _ _ ha _ _ ih

instance (r : Role) : @Related _ (no_index (Result (Ast (.list r.category)))) g _ (eachIn r ts) (eachIn r ts') := by
  unfold eachIn
  infer_instance

/-! ## Names, annotations and types -/

instance : Related g (identifier t) (identifier t') := by unfold identifier; infer_instance

instance (n : Nat) : Respects g (qualifiedName.allParts n) := by
  induction n with
  | zero => exact pure_moved .nil
  | succ n ih => unfold qualifiedName.allParts; infer_instance

instance : Related g (annotations ts) (annotations ts') := by unfold annotations; infer_instance

instance : Respects g leadingAnnotations := by unfold leadingAnnotations; infer_instance

set_option synthInstance.maxSize 2000 in
instance : Related g (elementValuePair t) (elementValuePair t') := by unfold elementValuePair; infer_instance

instance : Related g (qualifiedName t) (qualifiedName t') := by
  have hlength : t.children.length = t'.children.length := ht.rel.children.length_eq
  unfold qualifiedName
  rw [hlength]
  refine within_moved <| list_bind_moved ?_ fun n ns => ?_
  · simp only [List.isEmpty_nil, ↓reduceIte]
    infer_instance
  · have hns : n.left :: ns.left = n.right :: ns.right := List.forall₂_eq_eq_eq ▸ List.Forall₂.cons n.rel ns.rel
    rw [hns]
    exact pure_moved ⟨congrArg (QualifiedName.mk · _) ht.rel.source.place, List.cons_ne_nil _ _⟩

instance : Related g (annotationUse t) (annotationUse t') := by
  unfold annotationUse
  rw [kind_of_related ht]
  split
  · refine within_moved <| bind_moved fun _ => bind_moved fun q =>
      list_bind_moved inferInstance fun first more => ?_
    dsimp only
    infer_instance
  · infer_instance

instance : Related g (dim t) (dim t') := by unfold dim; infer_instance

instance : Related g (dims t) (dims t') := by unfold dims; infer_instance

instance : Respects g optionalDims := by unfold optionalDims; infer_instance

set_option synthInstance.maxSize 2000 in
instance : Related g (wildcard t) (wildcard t') := by unfold wildcard; infer_instance

instance {u u' : Decorated} [hu : Related g u u'] : Related g (typeArgument u) (typeArgument u') := by
  unfold typeArgument
  rw [root_of_related hu]
  split <;> infer_instance

instance : Related g (typeArguments t) (typeArguments t') := by unfold typeArguments; infer_instance

instance : Respects g optionalTypeArguments := by unfold optionalTypeArguments; infer_instance

theorem toList_moved : {as : Ast (.list c)} → as.Complete → Relates.rel g as.toList (as.relocate g).toList
  | .nil, _ => by
    change Relates.rel g (toList nil) (toList nil)
    rw [toList]
    exact .nil
  | .cons a as, h => by
    change Relates.rel g (toList (cons a as)) (toList (cons (a.relocate g) (as.relocate g)))
    rw [toList, toList]
    exact .cons ⟨rfl, h.1⟩ (toList_moved h.2)

instance : Respects g (@toList c) := by
  refine ⟨?_⟩
  rintro as _ ⟨rfl, h⟩
  exact toList_moved h

instance : Respects g withDims := by
  refine ⟨fun e e' he ds ds' hds => ?_⟩
  induction hds with
  | nil => exact he
  | @cons d _ _ _ hd _ ih =>
    obtain ⟨rfl, h⟩ := hd
    cases d
    exact Constructors.array.rel _ _ rfl _ _ ih _ _ ⟨rfl, h⟩

instance : Respects g (@place .expr) := ⟨by rintro e _ ⟨rfl, -⟩; exact place_relocate rfl e⟩

instance : Respects g (@place .classType) := ⟨by rintro e _ ⟨rfl, -⟩; exact place_relocate rfl e⟩

set_option synthInstance.maxSize 2000 in
instance {whole? whole?' : Option (Place × List (Ast .annotationUse))} {scope scope' : Ast (.option .classType)}
    [hwhole : Related g whole? whole?'] [Related g scope scope'] :
    Related g (classTypeElement whole? scope t) (classTypeElement whole?' scope' t') := by
  unfold classTypeElement
  refine Related.option_cases hwhole.rel inferInstance ?_
  rintro ⟨⟨p, as⟩, ⟨p', as'⟩, hp, has⟩
  have : Related g p p' := ⟨hp⟩
  have : Related g as as' := ⟨has⟩
  dsimp only
  infer_instance

instance {p p' : Place} {outer outer' : List (Ast .annotationUse)} {scope scope' : Ast (.option .classType)}
    {u u' : Decorated} [Related g p p'] [Related g outer outer'] [hscope : Related g scope scope']
    [hu : Related g u u'] :
    Related g (classTypeElements p outer scope u ts) (classTypeElements p' outer' scope' u' ts') := by
  obtain ⟨hts⟩ := hts
  induction hts generalizing u u' scope scope' with
  | nil => unfold classTypeElements; infer_instance
  | cons hnext _ ih =>
    have hu : Related g _ _ := ⟨hnext⟩
    unfold classTypeElements
    infer_instance

instance {outer outer' : List (Ast .annotationUse)} [Related g outer outer'] :
    Related g (classType t outer) (classType t' outer') := by
  unfold classType
  rw [kind_of_related ht]
  split
  · exact Result.list_bind_moved inferInstance fun u us => inferInstance
  · infer_instance

set_option synthInstance.maxSize 2000 in
instance : Related g (type t) (type t') := by unfold type; infer_instance

instance : Related g (classTypeList t) (classTypeList t') := by unfold classTypeList; infer_instance

set_option synthInstance.maxSize 2000 in
instance : Related g (typeParameter t) (typeParameter t') := by unfold typeParameter; infer_instance

instance : Respects g optionalTypeParameters := by unfold optionalTypeParameters; infer_instance

instance : Related g (exceptions t) (exceptions t') := by unfold exceptions; infer_instance

/-! ## Variables, parameters and blocks -/

instance : Relates g Modifier := ⟨fun m m' => m' = m.relocate g ∧ m.place ≠ .none⟩

instance {u u' : Decorated} [h : Related g u u'] :
    Related g (⟨u.place, u.literal⟩ : Modifier) ⟨u'.place, u'.literal⟩ := by
  have hplace : u'.place = g u.place := (inferInstance : Related g u.place u'.place).rel
  have hliteral : u.literal = u'.literal := (inferInstance : Related g u.literal u'.literal).rel
  refine ⟨by rw [Modifier.relocate, hplace, hliteral], fun hnone => ?_⟩
  have hline := congrArg Place.line hnone
  simp [Decorated.place, Branch.place, Place.none] at hline

omit [Relates g α] in
theorem map_of_rel {m : α → α} {P : α → Prop} {as as' : List α} (h : List.Forall₂ (fun a a' => a' = m a ∧ P a) as as') :
    as' = as.map m ∧ ∀ a ∈ as, P a := by
  induction h with
  | nil => exact ⟨rfl, List.forall_mem_nil _⟩
  | cons ha _ ih => exact ⟨by rw [ha.1, ih.1, List.map_cons], List.forall_mem_cons.2 ⟨ha.2, ih.2⟩⟩

instance {as as' : Ast (.list .annotationUse)} {ms ms' : List Modifier} [ha : Related g as as']
    [hm : Related g ms ms'] : Related g (Ast.header as (id ms)) (.header as' (id ms')) := by
  obtain ⟨⟨rfl, h⟩⟩ := ha
  obtain ⟨rfl, hw⟩ := map_of_rel hm.rel
  exact ⟨congrArg _ (Modifier.Written.relocateAll_eq hw).symm, h⟩

instance {as as' : Ast (.list .annotationUse)} {ms ms' : List Modifier} [ha : Related g as as']
    [hm : Related g ms ms'] :
    Related g (Ast.header as (Modifier.immutableByDefault ms)) (.header as' (Modifier.immutableByDefault ms')) := by
  obtain ⟨⟨rfl, h⟩⟩ := ha
  obtain ⟨rfl, hw⟩ := map_of_rel hm.rel
  exact ⟨congrArg _ (Modifier.Written.relocateAll_immutableByDefault hw).symm, h⟩

/-- What stands before a declaration, if its keywords are completed alike. -/
theorem header_moved {adjust : List Modifier → List Modifier}
    (hadjust : ∀ {as as' : Ast (.list .annotationUse)} {ms ms' : List Modifier}, Related g as as' → Related g ms ms' →
      Related g (Ast.header as (adjust ms)) (.header as' (adjust ms'))) :
    Related g (header adjust t) (header adjust t') := by
  unfold header
  rw [kind_of_related ht]
  dsimp only
  split
  · exact ⟨.error⟩
  refine Result.bind_moved inferInstance fun ts => Result.bind_moved (Result.mapM_moved fun u => ?_) fun parts => ?_
  · rw [root_of_related (.pair u)]
    split <;> infer_instance
  · exact ⟨.ok (hadjust inferInstance inferInstance).rel⟩

instance : Related g (header id t) (header id t') := header_moved fun _ _ => inferInstance

instance : Related g (header Modifier.immutableByDefault t) (header Modifier.immutableByDefault t') :=
  header_moved fun _ _ => inferInstance

instance : Respects g nextHeader := by unfold nextHeader; infer_instance

instance : Respects g nextImmutableHeader := by unfold nextImmutableHeader; infer_instance

set_option synthInstance.maxSize 10000 in
instance : Related g (declarator t) (declarator t') := by unfold declarator; dsimp only; infer_instance

/-- There is a first variable. -/
instance (priority := high) {f f' : Ast (.list .declarator) → Reading β}
    [h : ∀ (d : Pair g (Ast .declarator)) (ds : Pair g (List (Ast .declarator))),
      Related g (f (cons d.left (ofList ds.left))) (f' (cons d.right (ofList ds.right)))] :
    Related g (declarators >>= f) (declarators >>= f') := by
  unfold declarators
  simp only [bind_assoc]
  refine bind_moved fun ts => list_bind_moved ?_ fun d ds => ?_
  · simp only [List.isEmpty_nil, ↓reduceIte, bind_assoc]
    infer_instance
  · simp only [List.isEmpty_cons, Bool.false_eq_true, ↓reduceIte, ofList, pure_bind]
    exact h d ds

instance {role : VariableRole} {q q' : Place} {h h' : Ast .header} {e e' : Ast .type} {d d' : Ast .declarator}
    {ds ds' : Ast (.list .declarator)} [hq : Related g q q'] [hh : Related g h h'] [he : Related g e e']
    [hd : Related g d d'] [hds : Related g ds ds'] :
    Related g (@variableDecl role q h e (cons d ds)) (.variableDecl q' h' e' (cons d' ds')) :=
  ⟨Constructors.variableDecl.rel _ _ hq.rel _ _ hh.rel _ _ he.rel _ _ hd.rel _ _ hds.rel⟩

instance (role : VariableRole) : Related g (fields role t) (fields role t') := by unfold fields; infer_instance

instance : Related g (localVariables t) (localVariables t') := by unfold localVariables; infer_instance

set_option synthInstance.maxSize 10000 in
instance : Related g (formalParameter t) (formalParameter t') := by unfold formalParameter; dsimp only; infer_instance

instance : Related g (formalParameters t) (formalParameters t') := by unfold formalParameters; infer_instance

set_option synthInstance.maxSize 2000 in
instance : Related g (block t) (block t') := by unfold block; dsimp only; infer_instance

/-! ## Expressions -/

instance : Respects g nextExpr := by unfold nextExpr; infer_instance

instance : Respects g nextOperator := by unfold nextOperator; infer_instance

instance : Related g (unquote t) (unquote t') := by
  unfold unquote
  rw [literal_of_related ht]
  infer_instance

instance : Respects g Literal.char := .self _
instance : Respects g Literal.string := .self _

instance : Related g (literal t) (literal t') := by
  have hkind : t.tokenKind = t'.tokenKind := (inferInstance : Related g t.tokenKind t'.tokenKind).rel
  unfold literal
  rw [hkind, literal_of_related ht]
  split <;> infer_instance

instance : Related g (arguments t) (arguments t') := by unfold arguments; dsimp only; infer_instance

instance : Respects g (@ofOption c) :=
  ⟨by rintro _ _ (h | -); exacts [Constructors.present.rel _ _ h, Constructors.absent.rel]⟩

set_option synthInstance.maxSize 10000 in
instance {scope scope' : Option (Ast .expr)} [Related g scope scope'] :
    Related g (objectCreation scope t) (objectCreation scope' t') := by
  unfold objectCreation
  dsimp only
  refine whole_moved <| bind_moved fun _ => bind_moved fun _ => bind_moved fun type => ?_
  obtain ⟨type, type', htype, h⟩ := type
  cases type with
  | classRef type =>
    obtain rfl : type' = classRef (type.relocate g) := htype
    have : Related g type (type.relocate g) := ⟨rfl, h⟩
    dsimp only
    infer_instance
  | _ =>
    subst htype
    exact fail_bind_moved

instance : Related g (dimExpr t) (dimExpr t') := by unfold dimExpr; infer_instance

instance : Related g (arrayElements t) (arrayElements t') := by unfold arrayElements; infer_instance

instance : Respects g (Ast.header nil []) := ⟨rfl, trivial⟩

/-- A created array has a level; `f` makes levels without length of dimensions. -/
theorem levels_moved {f : Ast .dim → Ast .level} (hf : ∀ q as, f (.dim q as) = .level q as .absent) {γ : Type}
    {cause cause' : Malformed.Cause} {k k' : γ → Reading (Ast .expr)} {e : Pair g (Ast .type)}
    {ls : Pair g (List (Ast .level))} {ds : Pair g (List (Ast .dim))} {es es' : Ast (.option .arrayElements)}
    (hes : Related g es es') :
    Related g
      (if (ls.left ++ ds.left.map f).isEmpty = true then fail t cause >>= k
        else pure (.arrayCreation t.place e.left (ofList (ls.left ++ ds.left.map f)) es))
      (if (ls.right ++ ds.right.map f).isEmpty = true then fail t' cause' >>= k'
        else pure (.arrayCreation t'.place e.right (ofList (ls.right ++ ds.right.map f)) es')) := by
  have hlevel (d : Pair g (Ast .dim)) : Related g (f d.left) (f d.right) := by
    obtain ⟨d, d', hd, h⟩ := d
    cases d with
    | dim q as =>
      obtain rfl : d' = .dim (g q) (as.relocate g) := hd
      rw [hf, hf]
      exact ⟨rfl, h, trivial⟩
  have hlevels : Related g (ls.left ++ ds.left.map f) (ls.right ++ ds.right.map f) := inferInstance
  generalize ls.left ++ ds.left.map f = all, ls.right ++ ds.right.map f = all' at hlevels ⊢
  cases hlevels.rel with
  | nil => exact fail_bind_moved
  | cons hl hmore =>
    have hlist := (inferInstance : Respects g (@ofList .level)).rel _ _ hmore
    exact pure_moved (Constructors.arrayCreation.rel _ _ ht.rel.source.place _ _ e.rel _ _ hl _ _ hlist _ _ hes.rel)

instance : Related g (arrayCreation t) (arrayCreation t') := by
  unfold arrayCreation
  dsimp only
  refine whole_moved <| bind_moved fun _ => bind_moved fun e => bind_moved fun _ => bind_moved fun lengths =>
    bind_moved fun dims => option_bind_moved (bind_moved fun es => bind_moved fun _ => ?_)
      fun _ => bind_moved fun _ => bind_moved fun es => bind_moved fun _ => ?_
  all_goals
    refine levels_moved ?_ inferInstance
    exact fun _ _ => rfl

instance : Related g (bareParameter t) (bareParameter t') := by unfold bareParameter; infer_instance

instance : Related g (lambdaParameter t) (lambdaParameter t') := by
  unfold lambdaParameter
  rw [kind_of_related ht]
  split <;> infer_instance

set_option synthInstance.maxSize 10000 in
instance : Related g (lambda t) (lambda t') := by unfold lambda; dsimp only; infer_instance

theorem nameParts_ne_nil (e : Ast c) : e.nameParts ≠ some [] := by
  induction e with
  | name => exact fun h => List.cons_ne_nil _ _ (Option.some.inj h)
  | access _ scope as n =>
    cases as with
    | nil =>
      intro h
      obtain ⟨parts, -, hparts⟩ := Option.map_eq_some_iff.1 h
      exact List.append_ne_nil_of_right_ne_nil _ (List.cons_ne_nil _ _) hparts
    | cons => exact Option.some_ne_none _ ∘ Eq.symm
  | ofReference _ ih => exact ih
  | _ => exact Option.some_ne_none _ ∘ Eq.symm

instance {e e' : Ast .expr} [he : Related g e e'] : Related g (qualifierOf t e) (qualifierOf t' e') := by
  obtain ⟨⟨rfl, -⟩⟩ := he
  unfold qualifierOf
  rw [nameParts_relocate, place_relocate rfl]
  cases h : e.nameParts with
  | some parts =>
    refine ⟨.ok ⟨rfl, ?_⟩⟩
    rintro rfl
    exact nameParts_ne_nil e h
  | none => infer_instance

instance {e e' : Ast .expr} [he : Related g e e'] : Related g (classTypeOf t e) (classTypeOf t' e') := by
  obtain ⟨⟨rfl, h⟩⟩ := he
  unfold classTypeOf
  rw [nameParts_relocate, place_relocate rfl]
  have hplace : Related g e.place (g e.place) := ⟨rfl⟩
  have hfold : ∀ (more : List Text) {type type' : Ast .classType}, Related g type type' → Related g
      (more.foldl (fun type n => .segment e.place (.present type) .nil n .nil false) type)
      (more.foldl (fun type n => .segment (g e.place) (.present type) .nil n .nil false) type') := by
    intro more
    induction more with
    | nil => exact id
    | cons n more ih => exact fun _ => ih inferInstance
  split
  · exact ⟨.ok (Constructors.classRef.rel _ _ (hfold _ inferInstance).rel)⟩
  · infer_instance

instance : Respects g thisRef := by
  refine ⟨?_⟩
  rintro _ _ rfl _ _ (⟨⟨rfl, h⟩⟩ | -)
  exacts [⟨rfl, h⟩, ⟨rfl, trivial⟩]

instance : Respects g superRef := by
  refine ⟨?_⟩
  rintro _ _ rfl _ _ (⟨⟨rfl, h⟩⟩ | -)
  exacts [⟨rfl, h⟩, ⟨rfl, trivial⟩]

set_option synthInstance.maxSize 2000 in
instance {scope scope' : Ast .expr} [hscope : Related g scope scope'] :
    Related g (suffix scope t) (suffix scope' t') := by
  unfold suffix
  rw [kind_of_related ht]
  split
  · infer_instance
  refine within_moved (thenDone_moved ?_)
  dsimp only
  split
  · refine bind_moved fun typeArguments => bind_moved fun last => ?_
    rw [root_of_related (.pair last)]
    split <;> infer_instance
  · infer_instance
  · obtain ⟨rfl, h⟩ := hscope.rel
    cases scope with
    | ofReference target =>
      have : Related g target (target.relocate g) := ⟨rfl, h⟩
      exact bind_moved fun _ => bind_moved fun _ => inferInstance
    | _ => exact fail_moved
  all_goals infer_instance

instance : Related g (suffixed t) (suffixed t') := by
  refine within_moved <| bind_moved fun first => bind_moved fun us => ?_
  obtain ⟨us, us', hus⟩ := us
  dsimp only
  induction hus generalizing first with
  | nil => exact pure_moved first.rel
  | cons hu _ ih =>
    have hhead : Related g _ _ := ⟨hu⟩
    rw [List.foldlM_cons, List.foldlM_cons]
    exact bind_moved ih

instance : Related g (typeLiteral t) (typeLiteral t') := by unfold typeLiteral; dsimp only; infer_instance

theorem eachIn_ne_nil {r : Role} {u : Decorated} {us : List Decorated} {as : Ast (.list r.category)}
    (h : eachIn r (u :: us) = .ok as) : as ≠ nil := by
  rw [eachIn, List.mapM_cons] at h
  cases hu : u.read r with
  | error => rw [hu] at h; cases h
  | ok a =>
    cases hus : us.mapM (·.read r) with
    | error => rw [hu, hus] at h; cases h
    | ok bs =>
      rw [hu, hus] at h
      cases h
      exact cons_ne_nil

instance : Related g (cast t) (cast t') := by
  unfold cast
  refine within_moved <| list_bind_moved fail_moved fun u us => ?_
  obtain ⟨us, us', hus⟩ := us
  cases hus with
  | nil => exact fail_bind_moved
  | @cons v v' more more' hv hmore =>
    have hdrop : Related g (v :: more).dropLast (v' :: more').dropLast := by
      rw [List.dropLast_eq_take, List.dropLast_eq_take, (List.Forall₂.cons hv hmore).length_eq]
      exact ⟨List.forall₂_take _ (.cons hv hmore)⟩
    have hlong (ds : List Decorated) : ¬ds.length + 1 + 1 < 2 := by omega
    refine Related.option_cases (Forall₂.getLast? (List.Forall₂.cons u.rel (.cons hv hmore))) fail_moved fun _ => ?_
    simp only [List.length_cons, hlong, ↓reduceIte, List.dropLast_cons_cons]
    refine lift_bind_moved inferInstance fun types types' hfilled htypes => bind_moved fun e => ?_
    obtain ⟨rfl, h⟩ := htypes
    cases types with
    | nil => exact (eachIn_ne_nil hfilled rfl).elim
    | cons =>
      exact pure_moved (Constructors.cast.rel _ _ ht.rel.source.place _ _ ⟨rfl, h.1⟩ _ _ ⟨rfl, h.2⟩ _ _ e.rel)

instance : Related g (expr t) (expr t') := by
  unfold expr
  rw [kind_of_related ht]
  split <;> infer_instance

instance : Related g (elementValue t) (elementValue t') := by
  unfold elementValue
  rw [kind_of_related ht]
  split <;> infer_instance

/-! ## Statements -/

instance : Respects g nextStmt := by unfold nextStmt; infer_instance

instance : Respects g optionalExpr := by unfold optionalExpr; infer_instance

instance : Related g (jumpLabel t) (jumpLabel t') := by unfold jumpLabel; infer_instance

set_option synthInstance.maxSize 10000 in
instance : Related g (forStmt t) (forStmt t') := by unfold forStmt; dsimp only; infer_instance

set_option synthInstance.maxSize 10000 in
instance : Related g (resource t) (resource t') := by unfold resource; infer_instance

set_option synthInstance.maxSize 2000 in
instance : Related g (catchClause t) (catchClause t') := by unfold catchClause; infer_instance

set_option synthInstance.maxSize 200000 in
instance : Related g (tryStmt t) (tryStmt t') := by unfold tryStmt; dsimp only; infer_instance

instance : Related g (switchLabel t) (switchLabel t') := by unfold switchLabel; infer_instance

instance : Related g (switchGroup t) (switchGroup t') := by
  unfold switchGroup
  rw [kind_of_related ht]
  split
  · refine within_moved <| bind_moved fun ts => list_bind_moved ?_ fun l ls => ?_
    · exact fail_bind_moved
    · refine bind_moved fun us => bind_moved fun ss => pure_moved ?_
      have hls := (inferInstance : Respects g (@ofList .switchLabel)).rel _ _ ls.rel
      exact Constructors.switchGroup.rel _ _ ht.rel.source.place _ _ l.rel _ _ hls _ _ ss.rel
  · infer_instance

set_option synthInstance.maxSize 2000 in
instance : Related g (stmt t) (stmt t') := by
  unfold stmt
  rw [kind_of_related ht]
  split <;> try dsimp only
  all_goals infer_instance

/-! ## Declarations -/

instance : Related g (members t) (members t') := by unfold members; infer_instance

instance : Related g (baseClass t) (baseClass t') := by
  refine Result.list_bind_moved inferInstance fun c cs => ?_
  obtain ⟨cs, cs', hcs⟩ := cs
  cases hcs <;> infer_instance

set_option synthInstance.maxSize 10000 in
instance : Related g (classDecl t) (classDecl t') := by unfold classDecl; dsimp only; infer_instance

set_option synthInstance.maxSize 2000 in
instance : Related g (interfaceDecl t) (interfaceDecl t') := by unfold interfaceDecl; dsimp only; infer_instance

set_option synthInstance.maxSize 2000 in
instance : Related g (annotationTypeDecl t) (annotationTypeDecl t') := by unfold annotationTypeDecl; infer_instance

instance : Related g (typeDecl t) (typeDecl t') := by
  unfold typeDecl
  rw [kind_of_related ht]
  split <;> infer_instance

instance : Respects g optionalExceptions := by unfold optionalExceptions; infer_instance

instance {u u' : Decorated} [Related g u u'] : Related g (resultType u) (resultType u') := by
  unfold resultType
  infer_instance

set_option synthInstance.maxSize 200000 in
instance (inInterface : Bool) : Related g (methodDecl inInterface t) (methodDecl inInterface t') := by
  unfold methodDecl; dsimp only; infer_instance

set_option synthInstance.maxSize 10000 in
instance : Related g (annotationMemberDecl t) (annotationMemberDecl t') := by
  unfold annotationMemberDecl; dsimp only; infer_instance

set_option synthInstance.maxSize 2000 in
instance : Related g (constructorCall t) (constructorCall t') := by unfold constructorCall; dsimp only; infer_instance

set_option synthInstance.maxSize 10000 in
instance : Related g (constructorDecl t) (constructorDecl t') := by unfold constructorDecl; dsimp only; infer_instance

set_option synthInstance.maxSize 2000 in
instance : Related g (initializer t) (initializer t') := by unfold initializer; dsimp only; infer_instance

instance : Related g (member t) (member t') := by
  unfold member
  rw [kind_of_related ht]
  split <;> infer_instance

/-! ## Whole trees -/

instance : Relates g PackageDecl := ⟨PackageDecl.Moved g⟩

instance : Relates g ImportDecl := ⟨fun i i' => i' = i.relocate g ∧ i.name.parts ≠ []⟩

instance : Relates g CompilationUnit := ⟨CompilationUnit.Moved g⟩

instance {n n' : QualifiedName} [hn : Related g n n'] {as as' : Ast (.list .annotationUse)} [has : Related g as as'] :
    Related g (⟨t.place, as, some n⟩ : PackageDecl) ⟨t'.place, as', some n'⟩ := by
  obtain ⟨rfl, hparts⟩ := hn.rel
  obtain ⟨rfl, h⟩ := has.rel
  have hplace : t'.place = g t.place := ht.rel.source.place
  exact ⟨by rw [hplace]; rfl, h, by rintro _ ⟨⟩; exact hparts⟩

instance : Respects g (⟨.none, .nil, none⟩ : PackageDecl) := ⟨rfl, trivial, nofun⟩

instance : Related g (packageDecl t) (packageDecl t') := by unfold packageDecl; infer_instance

instance : Respects g ImportDecl.mk := by
  refine ⟨?_⟩
  rintro _ _ rfl _ _ rfl _ _ ⟨rfl, h⟩ _ _ rfl
  exact ⟨rfl, h⟩

set_option synthInstance.maxSize 2000 in
instance : Related g (importDecl t) (importDecl t') := by unfold importDecl; infer_instance

instance : Respects g CompilationUnit.mk := by
  refine ⟨?_⟩
  rintro _ _ rfl _ _ ⟨rfl, hp⟩ is is' his _ _ ⟨rfl, h⟩
  obtain ⟨rfl, hparts⟩ := map_of_rel his
  exact ⟨rfl, hp, hparts, h⟩

set_option synthInstance.maxSize 10000 in
instance : Related g (compilationUnit t) (compilationUnit t') := by unfold compilationUnit; dsimp only; infer_instance

instance readings_moved (r : Role) : Related g (readings t r) (readings t' r) := by
  cases r <;> unfold readings <;> infer_instance

end Reading

section Trees

variable {t t' : Cst} (ht : Tree.Rel (Cst.Label.Moved g) t t')

include ht

theorem decorate_moved : Related g (Reading.decorate t) (Reading.decorate t') := by
  refine ⟨Tree.Rel.fold (fun l l' ts ts' hl hts => ?_) ht⟩
  have hbranch : Related g (⟨l, ts⟩ : Branch) ⟨l', ts'⟩ := ⟨hl, hts⟩
  exact Tree.rel_iff.2 ⟨⟨hl, fun r => (Reading.readings_moved r).rel⟩, hts⟩

/-- Both trees stand for files, the second one moved, or neither does. -/
theorem Reading.ofCst_moved : Result.Rel (CompilationUnit.Moved g) (CompilationUnit.ofCst t)
    (CompilationUnit.ofCst t') := by
  have := decorate_moved ht
  have hunit : Related g (compilationUnit (decorate t)) (compilationUnit (decorate t')) := inferInstance
  exact hunit.rel

end Trees

end Ast

end KiteCompiler
