import KiteCompiler.Proofs.Immutability.Declared
import KiteCompiler.Proofs.Labels

/-!
# Java that declares what the source declares

`Follows` says that some Java declares what some trees declare, with the modifiers that the rule for the site gives. It
leaves the order and the number of declarations inside of annotations open: what is `Loose` can change its place and be
repeated (`Same`). So dimensions can go from a name to the type, and a declaration of several variables can be split up.
-/

namespace KiteCompiler

/-! ## Java that follows the source -/

namespace Java

namespace Item

/-- A declaration that stands outside of annotations, and so keeps its place. -/
def isFixed : Item → Bool
  | declaration d => !d.annotated
  | modifiers _ => false

@[simp] theorem isFixed_enclosed (i : Item) : i.enclosed.isFixed = false := by cases i <;> rfl

end Item

/-- Nothing of it keeps its place. -/
def Loose (is : List Item) : Prop := ∀ i ∈ is, i.isFixed = false

/-- The same up to what may change its place or be repeated. -/
def Same (is js : List Item) : Prop := is.filter Item.isFixed = js.filter Item.isFixed ∧ ∀ i, i ∈ is ↔ i ∈ js

/-- The items declare what is declared in Java for some declarations of the source. -/
structure Follows (is : List Item) (ds : List Declaration) : Prop where
  fixed : is.filter Item.isFixed = ((ds.map Declaration.inJava).filter (!·.annotated)).map .declaration
  members : ∀ d, .declaration d ∈ is ↔ d ∈ ds.map Declaration.inJava
  immutable : ∀ ms, .modifiers ms ∈ is → ("mutable" : Text) ∉ ms

section

variable {is js ks : List Item} {ds es : List Declaration}

theorem Loose.append (hi : Loose is) (hj : Loose js) : Loose (is ++ js) := List.forall_mem_append.2 ⟨hi, hj⟩

theorem Loose.filter (h : Loose is) : is.filter Item.isFixed = [] :=
  List.filter_eq_nil_iff.2 fun i hi => by simp [h i hi]

namespace Same

theorem refl (is : List Item) : Same is is := ⟨rfl, fun _ => Iff.rfl⟩

theorem symm (h : Same is js) : Same js is := ⟨h.1.symm, fun i => (h.2 i).symm⟩

theorem trans (h : Same is js) (h' : Same js ks) : Same is ks := ⟨h.1.trans h'.1, fun i => (h.2 i).trans (h'.2 i)⟩

theorem append {is' js' : List Item} (h : Same is js) (h' : Same is' js') : Same (is ++ is') (js ++ js') := by
  refine ⟨?_, fun i => ?_⟩
  · rw [List.filter_append, List.filter_append, h.1, h'.1]
  · rw [List.mem_append, List.mem_append, h.2, h'.2]

/-- What has no place of its own can go elsewhere. -/
theorem swap (h : Loose is) : Same (is ++ js) (js ++ is) := by
  refine ⟨?_, fun i => ?_⟩
  · rw [List.filter_append, List.filter_append, h.filter, List.nil_append, List.append_nil]
  · rw [List.mem_append, List.mem_append, or_comm]

theorem flatMap {α : Type} {f g : α → List Item} (as : List α) (h : ∀ a, Same (f a) (g a)) :
    Same (as.flatMap f) (as.flatMap g) := by
  induction as with
  | nil => exact .refl []
  | cons a as ih =>
    rw [List.flatMap_cons, List.flatMap_cons]
    exact (h a).append ih

/-- What has no place of its own can be repeated. -/
theorem repeated {α : Type} {f : α → List Item} {as : List α} (has : as ≠ []) (h : Loose is) :
    Same (as.flatMap fun a => is ++ f a) (is ++ as.flatMap f) := by
  refine ⟨?_, fun i => ?_⟩
  · rw [List.filter_append, h.filter, List.nil_append, List.filter_flatMap, List.filter_flatMap]
    simp [List.filter_append, h.filter]
  · obtain ⟨a, ha⟩ := List.exists_mem_of_ne_nil as has
    simp only [List.mem_flatMap, List.mem_append]
    grind

/-- What has no place of its own can go behind the next part. -/
theorem forward (h : Loose is) (a b c : List Item) : Same (is ++ (a ++ b ++ c)) (a ++ (is ++ b) ++ c) := by
  have hswap : Same (is ++ a ++ (b ++ c)) (a ++ is ++ (b ++ c)) := (swap h).append (refl _)
  simpa only [List.append_assoc] using hswap

/-- Dimensions behind something else can go to the type. -/
theorem dims {t dims w : List Item} (hdims : Loose dims) (h : Same w (t ++ dims)) (front between rest : List Item) :
    Same (front ++ t ++ (between ++ (dims ++ rest))) (front ++ w ++ (between ++ rest)) := by
  have htype : Same (front ++ (t ++ dims) ++ (between ++ rest)) (front ++ w ++ (between ++ rest)) :=
    ((refl front).append h.symm).append (refl _)
  have hswap : Same (front ++ t ++ (between ++ dims ++ rest)) (front ++ t ++ (dims ++ between ++ rest)) :=
    (refl _).append ((swap hdims).symm.append (refl rest))
  simp only [List.append_assoc] at htype hswap ⊢
  exact hswap.trans htype

end Same

namespace Follows

theorem congr (h : Follows is ds) (hsame : Same is js) : Follows js ds where
  fixed := hsame.1.symm.trans h.fixed
  members d := (hsame.2 _).symm.trans (h.members d)
  immutable ms hms := h.immutable ms ((hsame.2 _).2 hms)

theorem of_eq {is' : List Item} {ds' : List Declaration} (h : Follows is ds) (hi : is = is') (hd : ds = ds') :
    Follows is' ds' := by
  subst hi hd
  exact h

theorem nil : Follows [] [] := ⟨rfl, fun d => by simp, fun ms h => by simp at h⟩

theorem append (h : Follows is ds) (h' : Follows js es) : Follows (is ++ js) (ds ++ es) where
  fixed := by rw [List.filter_append, h.fixed, h'.fixed, List.map_append, List.filter_append, List.map_append]
  members d := by rw [List.mem_append, List.map_append, List.mem_append, h.members, h'.members]
  immutable ms hms := (List.mem_append.1 hms).elim (h.immutable ms) (h'.immutable ms)

/-- A declaration whose modifiers are those of its site. -/
theorem declared {site : Site} {n : Text} {keywords ms : List Text} (hms : ms = site.inJava keywords) :
    Follows [.declared site n ms] [⟨site, n, keywords, false⟩] where
  fixed := by rw [hms]; rfl
  members d := by simp [Item.declared, Declaration.inJava, hms]
  immutable ms' h := by simp [Item.declared] at h

theorem modifiers {ms : List Modifier} : Follows [.modifiers (Java.modifiers ms)] [] where
  fixed := rfl
  members d := by simp
  immutable ms' h := by
    obtain rfl : ms' = Java.modifiers ms := by simpa using h
    simp [Java.modifiers]

theorem enclosed (h : Follows is ds) : Follows (is.map Item.enclosed) (ds.map Declaration.enclosed) where
  fixed := by
    have hloose : Loose (is.map Item.enclosed) := List.forall_mem_map.2 fun i _ => i.isFixed_enclosed
    rw [hloose.filter, List.filter_eq_nil_iff.2, List.map_nil]
    simp [Declaration.enclosed, Declaration.inJava]
  members d := by
    have hitem : .declaration d ∈ is.map Item.enclosed ↔ ∃ e, .declaration e ∈ is ∧ e.enclosed = d := by
      refine List.mem_map.trans ⟨fun ⟨i, hi, h⟩ => ?_, fun ⟨e, he, h⟩ => ⟨_, he, congrArg Item.declaration h⟩⟩
      cases i with
      | declaration e => exact ⟨e, hi, Item.declaration.inj h⟩
      | modifiers ms => cases h
    simp [hitem, h.members, Declaration.enclosed, Declaration.inJava]
  immutable ms hms := by
    obtain ⟨i, hi, hms⟩ := List.mem_map.1 hms
    cases i with
    | declaration d => cases hms
    | modifiers ms' =>
      cases hms
      exact h.immutable ms hi

theorem filter_declarations (h : Follows is ds) :
    (is.filterMap Item.declaration?).filter (!·.annotated) = (ds.map Declaration.inJava).filter (!·.annotated) := by
  have hitems : (is.filterMap Item.declaration?).filter (!·.annotated) =
      (is.filter Item.isFixed).filterMap Item.declaration? := by
    rw [List.filter_filterMap, List.filterMap_filter]
    refine List.filterMap_congr fun i _ => ?_
    cases i with
    | declaration d => cases hd : d.annotated <;> simp [Item.declaration?, Item.isFixed, hd]
    | modifiers ms => rfl
  rw [hitems, h.fixed, List.filterMap_map]
  exact List.filterMap_some ..

theorem mem_declarations (h : Follows is ds) (d : Declaration) :
    d ∈ is.filterMap Item.declaration? ↔ d ∈ ds.map Declaration.inJava := by
  refine Iff.trans ?_ (h.members d)
  refine List.mem_filterMap.trans ⟨fun ⟨i, hi, hd⟩ => ?_, fun hd => ⟨_, hd, rfl⟩⟩
  cases i with
  | declaration d' => exact Option.some.inj hd ▸ hi
  | modifiers ms => cases hd

theorem not_mem_modifiers (h : Follows is ds) (ms : List Text) (hms : ms ∈ is.filterMap Item.modifiers?) :
    ("mutable" : Text) ∉ ms := by
  obtain ⟨i, hi, hms⟩ := List.mem_filterMap.1 hms
  cases i with
  | declaration d => cases hms
  | modifiers ms' => exact h.immutable ms (Option.some.inj hms ▸ hi)

end Follows

end

/-! ## Items of Java syntax -/

variable {site : Site} {ms : List Text}

@[simp] theorem items_ofList {c : Category} (as : List (Java c)) :
    items site ms (ofList as) = as.flatMap (items site ms) := by
  induction as with
  | nil => rfl
  | cons a as ih => exact congrArg (items site ms a ++ ·) ih

theorem items_flatten {c : Category} (as : List (List (Java c))) :
    items site ms (ofList as.flatten) = as.flatMap fun bs => bs.flatMap (items site ms) := by
  rw [items_ofList, ← List.flatMap_id, List.flatMap_assoc]
  rfl

theorem items_ofOption {c : Category} (a : Option (Java c)) :
    items site ms (ofOption a) = a.toList.flatMap (items site ms) := by
  cases a with
  | none => rfl
  | some a => exact (List.append_nil _).symm

theorem items_toList {c : Category} : (as : Java (.list c)) → items site ms as = as.toList.flatMap (items site ms)
  | nil => by
    rw [toList]
    rfl
  | cons a as => by
    rw [toList, List.flatMap_cons, ← items_toList as]
    rfl

/-- Types, annotations, headers and lists and options of them: what is declared in them is declared in annotations. -/
def Category.isLoose : Category → Bool
  | .type | .element | .classType | .typeParameter | .dim | .annotationUse | .header => true
  | .list c | .option c => isLoose c
  | _ => false

theorem loose_items {c : Category} (a : Java c) (hc : c.isLoose = true) : Loose (items site ms a) := by
  have hnil : Loose [] := List.forall_mem_nil _
  induction a with
  | nil | absent | void => exact hnil
  | cons _ _ ih ihs => exact (ih hc).append (ihs hc)
  | present _ ih => exact ih hc
  | type _ _ ihe ihd => exact (ihe rfl).append (ihd rfl)
  | primitive _ _ ih | classRef _ ih | intersection _ ih | dim _ ih => exact ih rfl
  | wildcard _ _ _ iha ihu ihl => exact ((iha rfl).append (ihu rfl)).append (ihl rfl)
  | segment _ _ _ _ _ ihs iha iht => exact ((ihs rfl).append (iha rfl)).append (iht rfl)
  | typeParameter _ _ _ iha ihb => exact (iha rfl).append (ihb rfl)
  | annotationUse => exact List.forall_mem_map.2 fun i _ => i.isFixed_enclosed
  | header _ _ ih => exact List.forall_mem_cons.2 ⟨rfl, ih rfl⟩
  | _ => cases hc

/-- Dimensions can stand before or behind the type. -/
theorem same_withDims (dims : List (Java .dim)) (t : Java .type) :
    Same (items site ms (withDims dims t)) (items site ms t ++ dims.flatMap (items site ms)) := by
  cases t with
  | type e inner =>
    have hinner : Loose (inner.toList.flatMap (items site ms)) := items_toList inner ▸ loose_items inner rfl
    change Same (items site ms e ++ items site ms (ofList (dims ++ inner.toList)))
      (items site ms e ++ items site ms inner ++ _)
    rw [items_ofList, List.flatMap_append, items_toList, List.append_assoc]
    exact (Same.refl _).append (Same.swap hinner).symm

/-- The variables of all groups, and their dimensions, are those of the declarations. -/
theorem flatMap_declarationGroups {α : Type} {f : Java .dim → List α} {g : Java .declarator → List α}
    (vs : List (List (Java .dim) × Java .declarator)) :
    ((declarationGroups vs).flatMap fun group => group.1.flatMap f ++ group.2.flatMap g) =
      vs.flatMap fun v => v.1.flatMap f ++ g v.2 := by
  induction vs with
  | nil => rfl
  | cons v vs ih =>
    obtain ⟨dims, v⟩ := v
    rcases declarationGroups_cons dims v vs with ⟨group, groups, rfl, hgroups, h⟩ | ⟨-, h⟩
    · rw [hgroups] at ih
      simp [h, ← ih]
    · simp [h, ih]

/-- A declaration for several variables can be split up: only annotations are repeated. -/
theorem same_declarations (h : Java .header) (t : Java .type) {vs : List (List (Java .dim) × Java .declarator)}
    (hvs : vs ≠ []) :
    Same ((declarations h t vs).flatMap (items site ms))
      (items site h.keywords h ++ items site h.keywords t ++
        vs.flatMap fun v => v.1.flatMap (items site h.keywords) ++ items site h.keywords v.2) := by
  have hloose : Loose (items site h.keywords h ++ items site h.keywords t) :=
    (loose_items h rfl).append (loose_items t rfl)
  have hgroups : declarationGroups vs ≠ [] := fun hnil => hvs (declarationGroups_eq_nil.1 hnil)
  have hgroup (group : List (Java .dim) × List (Java .declarator)) :
      Same (items site ms (variableDecl h (withDims group.1 t) (ofList group.2)))
        (items site h.keywords h ++ items site h.keywords t ++
          (group.1.flatMap (items site h.keywords) ++ group.2.flatMap (items site h.keywords))) := by
    have htype : Same (items site h.keywords (withDims group.1 t)) _ := same_withDims group.1 t
    have hsame :=
      ((Same.refl (items site h.keywords h)).append htype).append (Same.refl (group.2.flatMap (items site h.keywords)))
    rw [← items_ofList group.2, ← List.append_assoc] at hsame ⊢
    exact hsame
  rw [declarations, List.flatMap_map, ← flatMap_declarationGroups]
  exact (Same.flatMap _ hgroup).trans (Same.repeated hgroups hloose)

theorem items_single (ss : List (Java .stmt)) : items site ms (single ss) = ss.flatMap (items site ms) := by
  unfold single
  split
  · rw [List.flatMap_singleton]
  · exact items_ofList ss

theorem items_castTo (ts : List (Java .type)) : items site ms (castTo ts) = ts.flatMap (items site ms) := by
  unfold castTo
  split
  · rw [List.flatMap_singleton]
  · exact (List.append_nil _).trans (items_ofList ts)

theorem flatMap_ofVariables (ds : List (Java .variableDecl)) :
    (ds.map ofVariables).flatMap (items site ms) = ds.flatMap (items .localVariable ms) := List.flatMap_map ..

theorem flatMap_ofField (ds : List (Java .variableDecl)) :
    (ds.map ofField).flatMap (items site ms) = ds.flatMap (items .field ms) := List.flatMap_map ..

/-- Declarations before the loop are those at its start. -/
theorem items_forLoop (ds : List (Java .variableDecl)) (start : Java (.list .expr)) (condition : Java (.option .expr))
    (step : Java (.list .expr)) (body : Java .stmt) :
    items site ms (forLoop ds fun d => forStmt d start condition step body) =
      ds.flatMap (items .localVariable ms) ++ items site ms (forStmt absent start condition step body) := by
  unfold forLoop
  split
  · next d =>
    change items .localVariable ms d ++ _ ++ _ ++ _ ++ _ = _ ++ ([] ++ _ ++ _ ++ _ ++ _)
    simp only [List.flatMap_singleton, List.nil_append, List.append_assoc]
  · refine (items_ofList _).trans ?_
    rw [List.flatMap_append, List.flatMap_map, List.flatMap_singleton]
    rfl

namespace Follows

variable {ds : List Declaration}

theorem ofList {c : Category} {as : List (Java c)} (h : Follows (as.flatMap (items site ms)) ds) :
    Follows (items site ms (.ofList as)) ds := items_ofList as ▸ h

theorem ofOption {c : Category} {a : Option (Java c)} (h : Follows (a.toList.flatMap (items site ms)) ds) :
    Follows (items site ms (.ofOption a)) ds := items_ofOption a ▸ h

/-- An optional part that is made from something else. -/
theorem ofOptionMap {α : Type} {c : Category} {o : Option α} {f : α → Java c} {g : α → List Item}
    (hf : ∀ a, items site ms (f a) = g a) (h : Follows (o.toList.flatMap g) ds) :
    Follows (items site ms (.ofOption (o.map f))) ds := by
  refine ofOption ?_
  cases o with
  | none => exact h
  | some a => exact h.of_eq (congrArg (· ++ []) (hf a).symm) rfl

/-- A list that is made from several. -/
theorem ofFlatten {c : Category} {as : List (List (Java c))}
    (h : Follows (as.flatMap fun bs => bs.flatMap (items site ms)) ds) :
    Follows (items site ms (.ofList as.flatten)) ds := items_flatten as ▸ h

theorem single {ss : List (Java .stmt)} (h : Follows (ss.flatMap (items site ms)) ds) :
    Follows (items site ms (.single ss)) ds :=
  items_single ss ▸ h

end Follows

end Java

/-! ## Listing syntax trees -/

namespace Cst

variable {site? : Option Site} {keywords : List Text}

theorem declarationsIn_eq_flatMap (ts : List Cst) :
    declarationsIn site? keywords ts = ts.flatMap fun t => declared site? keywords t ++ declarations t := by
  induction ts with
  | nil => rfl
  | cons t ts ih => exact congrArg (declared site? keywords t ++ declarations t ++ ·) ih

@[simp] theorem declarationsIn_append (ts us : List Cst) :
    declarationsIn site? keywords (ts ++ us) = declarationsIn site? keywords ts ++
    declarationsIn site? keywords us := by
  simp only [declarationsIn_eq_flatMap, List.flatMap_append]

/-- All declarations in some trees. -/
def declarationsOf (ts : List Cst) : List Declaration := ts.flatMap declarations

@[simp] theorem declarationsOf_append (ts us : List Cst) :
    declarationsOf (ts ++ us) = declarationsOf ts ++ declarationsOf us :=
  List.flatMap_append

@[simp] theorem declarationsOf_nil : declarationsOf [] = [] := rfl

@[simp] theorem declarationsOf_cons (t : Cst) (ts : List Cst) :
    declarationsOf (t :: ts) = declarations t ++ declarationsOf ts := rfl

@[simp] theorem declarationsIn_none (ts : List Cst) : declarationsIn none keywords ts = declarationsOf ts :=
  declarationsIn_eq_flatMap ts

theorem Nameless.declarationsIn {ts : List Cst} (h : Nameless ts) :
    declarationsIn site? keywords ts = declarationsOf ts := by
  rw [declarationsIn_eq_flatMap]
  refine List.flatMap_congr fun t ht => ?_
  rw [declared, h t ht]
  cases site? <;> rfl

@[simp] theorem declarations_leaf (l : Label) : declarations (.node l []) = [] := by
  rw [declarations]
  split <;> rfl

/-- A name as a child of a node. -/
theorem declarationsIn_name {site : Site} {n : Label} (hn : n.kind = .identifier) (ts : List Cst) :
    declarationsIn (some site) keywords (.node n [] :: ts) =
      ⟨site, n.text, keywords, false⟩ :: declarationsIn (some site) keywords ts := by
  have hname : name? (.node n []) = some n.text := by
    rw [name?, show kind (.node n []) = _ from hn]
    rfl
  rw [declarationsIn, declared, hname, declarations_leaf]
  rfl

theorem declarations_node {l : Label} (hl : l.kind ≠ .annotationUse) (ts : List Cst) :
    declarations (.node l ts) = declarationsIn l.kind.site? (modifiersIn ts) ts := by
  rw [declarations]
  exact if_neg hl

/-- A node at which nothing is declared. -/
theorem declarations_plain {l : Label} (hl : l.kind.matters = false) (ts : List Cst) :
    declarations (.node l ts) = declarationsOf ts := by
  have hkind : ∀ k : Kind, k.matters = false → k ≠ .annotationUse ∧ k.site? = none := by
    intro k
    cases k <;> decide
  obtain ⟨hplain, hsite⟩ := hkind _ hl
  rw [declarations_node hplain, hsite, declarationsIn_none]

theorem declarations_kind {l : Label} {k : Kind} (hl : l.kind = k) (hk : k.matters = false) (ts : List Cst) :
    declarations (.node l ts) = declarationsOf ts := declarations_plain (hl ▸ hk) ts

theorem declarations_modifiers {l : Label} {ts : List Cst} (h : kind (.node l ts) = .modifiers) :
    declarations (.node l ts) = declarationsOf ts := declarations_kind h rfl ts

theorem declarations_annotation {l : Label} (hl : l.kind = .annotationUse) (ts : List Cst) :
    declarations (.node l ts) = (declarationsOf ts).map Declaration.enclosed := by
  rw [declarations, if_pos hl, hl]
  exact congrArg (List.map Declaration.enclosed) (declarationsIn_none ts)

/-- A node at which something is declared. -/
theorem declarations_site {site : Site} {l : Label} (hl : l.kind.site? = some site) (ts : List Cst) :
    declarations (.node l ts) = declarationsIn (some site) (modifiersIn ts) ts := by
  have hkind : l.kind ≠ .annotationUse := by
    intro hk
    rw [hk] at hl
    cases hl
  rw [declarations_node hkind, hl]

theorem modifiersIn_cons {m : Cst} (hm : m.kind = .modifiers) (ts : List Cst) : modifiersIn (m :: ts) = m.keywords := by
  rw [modifiersIn, List.find?_cons_of_pos (by simp [hm])]
  rfl

theorem nameless_node {l : Label} {k : Kind} (hl : l.kind = k)
    (hk : (k != .identifier && k != .variableDeclarator) = true) (ts : List Cst) : Nameless [.node l ts] :=
  nameless_kind (t := .node l ts) hl hk

theorem nameless_append {ts us : List Cst} (ht : Nameless ts) (hu : Nameless us) : Nameless (ts ++ us) :=
  List.forall_mem_append.2 ⟨ht, hu⟩

/-- A node with modifiers and one name. -/
theorem declarationsOf_named {site : Site} {l n : Label} {m : Cst} {us vs : List Cst} (hl : l.kind.site? = some site)
    (hm : m.kind = .modifiers) (hn : n.kind = .identifier) (hus : Nameless us) (hvs : Nameless vs) :
    declarationsOf [.node l (m :: (us ++ .node n [] :: vs))] =
      declarationsOf [m] ++ declarationsOf us ++ ([⟨site, n.text, m.keywords, false⟩] ++ declarationsOf vs) := by
  rw [declarationsOf_cons, declarations_site hl, modifiersIn_cons hm, ← List.singleton_append, declarationsIn_append,
    declarationsIn_append, declarationsIn_name hn, (nameless_kind hm rfl).declarationsIn, hus.declarationsIn,
    hvs.declarationsIn]
  simp

/-- The name of a type comes right behind its modifiers. -/
theorem declarationsOf_type {site : Site} {l n : Label} {m : Cst} {us : List Cst} (hl : l.kind.site? = some site)
    (hm : m.kind = .modifiers) (hn : n.kind = .identifier) (hus : Nameless us) :
    declarationsOf [.node l (m :: .node n [] :: us)] =
      declarationsOf [m] ++ ([⟨site, n.text, m.keywords, false⟩] ++ declarationsOf us) := by
  have hnamed := declarationsOf_named hl hm hn (List.forall_mem_nil _) hus
  rwa [declarationsOf_nil, List.append_nil] at hnamed

/-- A variable as a child of a node. -/
theorem declarationsIn_variable {site : Site} {l n : Label} (hl : l.kind = .variableDeclarator) (ts : List Cst) :
    declarationsIn (some site) keywords [.node l (.node n [] :: ts)] =
    [⟨site, n.text, keywords, false⟩] ++ declarationsOf ts := by
  have hname : name? (.node l (.node n [] :: ts)) = some n.text := by
    rw [name?, show kind (.node l (.node n [] :: ts)) = _ from hl]
    rfl
  rw [declarationsIn, declared, hname, declarations_kind hl rfl]
  simp [declarationsIn]

/-- Names that stand alone declare nothing. -/
theorem declarationsOf_names {ts : List Cst} {parts : List Text} (h : Names ts parts) : declarationsOf ts = [] := by
  obtain ⟨ns, rfl, -, -⟩ := h
  rw [declarationsOf, List.flatMap_map]
  exact List.flatMap_eq_nil_iff.2 fun n _ => declarations_leaf n

theorem declarations_dotted {t : Cst} {parts : List Text} (h : Dotted t parts) : declarations t = [] := by
  obtain ⟨l, ts⟩ := t
  have hk : l.kind = .qualifiedName := h.1
  exact (declarations_plain (by rw [hk]) ts).trans (declarationsOf_names h.2)

end Cst

end KiteCompiler
