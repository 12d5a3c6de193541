import KiteCompiler.Proofs.Immutability.Following
import KiteCompiler.Proofs.Lowering
import KiteCompiler.Proofs.SecondBarrier

/-!
# Immutable by default

Java declares what the source declares, in the same order and with the modifiers that the rule for the site gives
(`immutable_by_default`). The proof goes along `Stands`: what is declared in the trees that syntax is read off is what
is declared in the Java that it is lowered to (`listed_of_stands`).
-/

namespace KiteCompiler

/-! ## Syntax and the Java that it becomes -/

namespace Category

/-- What is declared by the names among the trees that syntax of the category is read off. -/
def naming? (c : Category) (site : Site) : Option Site :=
  if c.isOfParameters then some .bareParameter else if c.isOfDeclarators then some site else none

/-- The items of what syntax of a category is lowered to. -/
def items (site : Site) (ms : List Text) : (c : Category) → c.Lowered → List Java.Item
  | .type, t | .classType, t | .typeParameter, t | .exception, t | .dim, t | .annotationUse, t | .memberValue, t
  | .header, t | .expr, t | .lambdaBody, t | .arrayElements, t | .level, t | .constructorCall, t | .resource, t
  | .catchClause, t | .switchGroup, t | .switchLabel, t | .parameter, t | .typeDecl, t => Java.items site ms t
  | .reference, r => r.scope.toList.flatMap (Java.items site ms) ++ r.typeArguments.flatMap (Java.items site ms)
  | .stmt, xs | .block, xs | .member, xs => xs.flatMap (Java.items site ms)
  | .catchParameter, (h, ts, n) =>
    Java.items site ms h ++ ts.flatMap (Java.items site ms) ++ [.declared .catchParameter n h.keywords]
  | .declarator, (dims, v) => dims.flatMap (Java.items site ms) ++ Java.items site ms v
  | .variableDecl role, ds => ds.flatMap (Java.items role.site ms)
  | .list c, xs => xs.flatMap (items site ms c)
  | .option c, x => x.toList.flatMap (items site ms c)

end Category

namespace Ast

open Java (Follows)

variable {us vs ws : List Cst}

/-- What is declared in the trees is declared in Java. Variables have modifiers that fit. -/
def Listed {c : Category} (us : List Cst) (a : Ast c) : Prop :=
  ∀ (site : Site) (keywords ms : List Text), (c.isOfDeclarators = true → ms = site.inJava keywords) →
    Follows (c.items site ms a.lower) (Cst.declarationsIn (c.naming? site) keywords us)

namespace Listed

variable {c : Category} {a : Ast c}

theorem of_plain (h : ∀ site ms, Follows (c.items site ms a.lower) (Cst.declarationsOf us))
    (hc : c.isNaming = false := by rfl) : Listed us a := by
  obtain ⟨hparameters, hdeclarators⟩ := Bool.or_eq_false_iff.1 hc
  intro site keywords ms _
  rw [Category.naming?, hparameters, hdeclarators]
  exact (h site ms).of_eq rfl (Cst.declarationsIn_none us).symm

/-- Parts that follow trees with the same declarations, for syntax that declares no names itself. -/
theorem of_parts {ds : List Declaration} (h : ∀ {site ms}, Follows (c.items site ms a.lower) ds)
    (hds : ds = Cst.declarationsOf us := by simp) (hc : c.isNaming = false := by rfl) : Listed us a :=
  of_plain (fun _ _ => hds ▸ h) hc

theorem plain (h : Listed us a) (hc : c.isNaming = false) (site : Site) (ms : List Text) :
    Follows (c.items site ms a.lower) (Cst.declarationsOf us) := by
  obtain ⟨hparameters, hdeclarators⟩ := Bool.or_eq_false_iff.1 hc
  have hfollows := h site [] ms fun h => absurd (hdeclarators.symm.trans h) (by decide)
  rw [Category.naming?, hparameters, hdeclarators] at hfollows
  exact hfollows.of_eq rfl (Cst.declarationsIn_none us)

theorem follows (h : Listed us a) (hc : c.isNaming = false) {site : Site} {ms : List Text} :
    Follows (c.items site ms a.lower) (Cst.declarationsOf us) := h.plain hc site ms

/-- Names among the trees do not matter if there are none. -/
theorem nameless (h : Listed us a) (hc : c.isOfDeclarators = false) (hus : Cst.Nameless us) (site : Site)
    (ms : List Text) :
    Follows (c.items site ms a.lower) (Cst.declarationsOf us) :=
  (h site [] ms fun h => absurd (hc.symm.trans h) (by decide)).of_eq rfl hus.declarationsIn

end Listed

/-! ## Modifiers -/

theorem keywords_header (h : Ast .header) : Java.keywords h.lower = Java.modifiers h.keywords := by cases h; rfl

namespace Keyworded

variable {m : Cst} {h : Ast .header} {site : Site}

theorem inJava_id (hm : Keyworded id m h) (hsite : site ∈ [Site.field, .method, .constructor, .type]) :
    Java.keywords h.lower = site.inJava m.keywords := by
  obtain ⟨-, ms, hms, hkeywords⟩ := hm
  have hrule : site.inJava m.keywords = m.keywords.filter (· ≠ ("mutable" : Text)) := by
    cases site <;> first | rfl | simp at hsite
  rw [keywords_header, hms, hrule, ← hkeywords]
  rfl

theorem inJava_immutable (hm : Keyworded Modifier.immutableByDefault m h)
    (hsite : site ∈ [Site.localVariable, .parameter, .catchParameter, .resource]) :
    Java.keywords h.lower = site.inJava m.keywords := by
  obtain ⟨-, ms, hms, hkeywords⟩ := hm
  have hrule : site.inJava m.keywords = m.keywords.filter (· ≠ ("mutable" : Text)) ++
      if m.keywords.contains "final" || m.keywords.contains "mutable" then [] else [("final" : Text)] := by
    cases site <;> first | rfl | simp at hsite
  have hcontains (k : Text) : Modifier.contains ms k = m.keywords.contains k := by
    rw [← hkeywords, Modifier.contains, Bool.eq_iff_iff]
    simp
  rw [keywords_header, hms, hrule, Java.modifiers, Modifier.immutableByDefault, hcontains, hcontains]
  split
  · rw [hkeywords, List.append_nil]
  · rw [List.map_append, List.filter_append, hkeywords]
    rfl

end Keyworded

/-! ## Names -/

theorem items_ofReference {r : Ast .reference} (hr : typeArguments r = .nil) (site : Site) (ms : List Text) :
    Category.items site ms .expr (ofReference r).lower = Category.items site ms .reference r.lower := by
  cases r with
  | name p n => rfl
  | access p e ts n =>
    cases hr
    change Java.items site ms e.lower = [e.lower].flatMap (Java.items site ms) ++ []
    rw [List.flatMap_singleton, List.append_nil]

/-- Dotted names declare nothing. -/
theorem items_of_nameParts {c : Category} {a : Ast c} {parts : List Text} (h : a.nameParts = some parts) (site : Site)
    (ms : List Text) : c.items site ms a.lower = [] := by
  induction a generalizing parts with
  | name p n => rfl
  | access p e ts n ih _ =>
    cases ts with
    | nil =>
      obtain ⟨parts, hparts, -⟩ := Option.map_eq_some_iff.1 h
      have hscope : Java.items site ms e.lower = [] := ih hparts
      change [e.lower].flatMap (Java.items site ms) ++ [] = []
      rw [List.flatMap_singleton, hscope]
      rfl
    | cons => cases h
  | ofReference r ih =>
    refine (items_ofReference ?_ site ms).trans (ih h)
    cases r with
    | name => rfl
    | access p e ts n =>
      cases ts with
      | nil => rfl
      | cons => cases h
  | _ => cases h

theorem items_ofNames (p : Place) (first : Text) (more : List Text) (site : Site) (ms : List Text) :
    Java.items site ms (ofNames p first more).lower = [] := by
  have hfold (t : Ast .classType) (ht : Java.items site ms t.lower = []) :
      Java.items site ms (more.foldl (fun t n => segment p (.present t) .nil n .nil false) t).lower = [] := by
    induction more generalizing t with
    | nil => exact ht
    | cons n more ih =>
      refine ih _ ?_
      change Java.items site ms t.lower ++ [] ++ [] = []
      rw [ht]
      rfl
  exact hfold _ rfl

/-! ## All syntax -/

theorem follows_withDims {t : Ast .type} {ds : List (Ast .dim)} (ht : Listed us t) (hds : Listed vs (ofList ds))
    (site : Site) (ms : List Text) : Follows (Java.items site ms (withDims t ds).lower)
    (Cst.declarationsOf us ++ Cst.declarationsOf vs) := by
  have hdims := hds.plain rfl site ms
  rw [lower_ofList] at hdims
  rw [lower_withDims]
  exact ((ht.follows rfl).append hdims).congr (Java.same_withDims _ _).symm

theorem follows_bareParameter (p : Place) (n : Text) (keywords : List Text) (site : Site) (ms : List Text) :
    Follows (Java.items site ms (bareParameter p n).lower) [⟨.bareParameter, n, keywords, false⟩] :=
  (show Follows [.modifiers (Java.modifiers [])] [] from .modifiers).append (.declared rfl)

/-- Only annotations of modifiers can hold declarations. -/
theorem declarationsOf_annotations {ts : List Cst}
    (hts : ∀ t ∈ ts, t.kind = .annotationUse ∨ t.kind = .modifier ∧ t.children = []) :
    Cst.declarationsOf (ts.filter fun t => Cst.kind t = .annotationUse) = Cst.declarationsOf ts := by
  induction ts with
  | nil => rfl
  | cons t ts ih =>
    obtain ⟨ht, hrest⟩ := List.forall_mem_cons.1 hts
    rcases ht with hk | ⟨hk, hchildren⟩
    · rw [List.filter_cons_of_pos (by simp [hk]), Cst.declarationsOf_cons, Cst.declarationsOf_cons, ih hrest]
    · obtain ⟨l, us⟩ := t
      cases hchildren
      rw [List.filter_cons_of_neg (by simp [hk]), Cst.declarationsOf_cons, Cst.declarations_leaf, ih hrest,
        List.nil_append]

section

variable {xs ys zs : List Cst} {l n : Cst.Label} {m : Cst} {h : Ast .header} {p : Place}

theorem loose_dims (dims : Ast (.list .dim)) (site : Site) (ms : List Text) :
    Java.Loose (Category.items site ms (.list .dim) dims.lower) := by
  have hloose : Java.Loose (Java.items site ms (.ofList dims.lower)) := Java.loose_items _ rfl
  rwa [Java.items_ofList] at hloose

/-- Dimensions behind the name, which are part of the type in Java. -/
theorem follows_dimsBehind {t : Ast .type} {dims : Ast (.list .dim)} {as bs cs : List Java.Item}
    {ds es fs : List Declaration} (ht : Listed us t) (hdims : Listed vs dims) (site : Site) (ms : List Text)
    (has : Follows as ds) (hbs : Follows bs es) (hcs : Follows cs fs) :
    Follows (as ++ Java.items site ms (Java.withDims dims.lower t.lower) ++ (bs ++ cs))
      (ds ++ Cst.declarationsOf us ++ (es ++ (Cst.declarationsOf vs ++ fs))) :=
  ((has.append (ht.follows rfl)).append (hbs.append ((hdims.follows rfl).append hcs))).congr
    (.dims (loose_dims dims site ms) (Java.same_withDims dims.lower t.lower) as bs cs)

theorem listed_annotated {outer inner : List (Ast .annotationUse)} {q : Place} {scope : Ast (.option .classType)}
    {x : Text} {ts : Ast (.list .type)} {d : Bool} (houter : Listed us (ofList outer))
    (hsegment : Listed vs (segment p scope (ofList inner) x ts d)) :
    Listed (us ++ vs) (segment q scope (ofList (outer ++ inner)) x ts d) := by
  refine .of_plain (fun site ms => ?_) rfl
  have hloose : Java.Loose (Java.items site ms (.ofList (ofList outer).lower)) := Java.loose_items _ rfl
  have hforward := Java.Same.forward hloose (Java.items site ms (.ofOption scope.lower))
      (Java.items site ms (.ofList (ofList inner).lower))
    (Java.items site ms (.ofList ts.lower))
  have hall : Java.items site ms (.ofList (ofList outer).lower) ++ Java.items site ms (.ofList (ofList inner).lower) =
      Java.items site ms (.ofList (ofList (outer ++ inner)).lower) := by
    simp only [Java.items_ofList, lower_ofList, List.map_append, List.flatMap_append]
  rw [hall] at hforward
  exact (((houter.follows rfl).ofList.append (hsegment.follows rfl)).congr hforward).of_eq rfl (by simp)

theorem listed_declarator {dims : Ast (.list .dim)} {e : Ast (.option .expr)} (hl : l.kind = .variableDeclarator)
    (hdims : Listed us dims) (he : Listed vs e) :
    Listed [.node l (.node n [] :: (us ++ vs))] (declarator p n.text dims e) := by
  intro site keywords ms hms
  have hname : Follows [.declared site n.text ms] [⟨site, n.text, keywords, false⟩] := .declared (hms rfl)
  have hswap : Java.Same ([.declared site n.text ms] ++ dims.lower.flatMap (Java.items site ms) ++ _) _ :=
    (Java.Same.swap (loose_dims dims site ms)).symm.append (.refl (Java.items site ms (.ofOption e.lower)))
  refine (((hname.append (hdims.follows rfl)).append (he.follows rfl).ofOption).congr hswap).of_eq ?_ ?_
  · exact List.append_assoc ..
  · rw [List.append_assoc, ← Cst.declarationsOf_append]
    exact (Cst.declarationsIn_variable hl _).symm

theorem listed_variableDecl {role : VariableRole} {t : Cst} {ds : List (Ast .declarator)} {type : Ast .type}
    (hl : l.kind = role.kind) (hm : Keyworded role.complete m h) (ht : t.kind = .type) (hds : ds ≠ [])
    (hheader : Listed [m] h) (htype : Listed [t] type) (hvariables : Listed us (ofList ds)) :
    Listed [.node l (m :: t :: us)] (variableDecl p h type (ofList ds) : Ast (.variableDecl role)) := by
  refine .of_plain (fun site ms => ?_) rfl
  have hkeywords : Java.keywords h.lower = role.site.inJava m.keywords := by
    cases role with
    | field | constant => exact hm.inJava_id (by decide)
    | localVariable => exact hm.inJava_immutable (by decide)
  have hsite : l.kind.site? = some role.site := by
    rw [hl]
    cases role <;> rfl
  have hne : (ofList ds).lower ≠ [] := by
    rw [lower_ofList]
    exact fun hnil => hds (List.map_eq_nil_iff.1 hnil)
  have hfollows := ((hheader.plain rfl role.site (Java.keywords h.lower)).append
      (htype.plain rfl role.site (Java.keywords h.lower))).append
    (hvariables role.site m.keywords (Java.keywords h.lower) fun _ => hkeywords)
  refine (hfollows.congr (Java.same_declarations h.lower type.lower hne).symm).of_eq rfl ?_
  have hnameless := Cst.nameless_append (Cst.nameless_kind hm.1 rfl) (Cst.nameless_kind ht rfl)
  have hlist : Cst.declarations (.node l (m :: t :: us)) =
      Cst.declarationsOf [m] ++ Cst.declarationsOf [t] ++ Cst.declarationsIn (some role.site) m.keywords us := by
    rw [Cst.declarations_site hsite, Cst.modifiersIn_cons hm.1, show m :: t :: us = [m] ++ [t] ++ us from rfl,
      Cst.declarationsIn_append, hnameless.declarationsIn, Cst.declarationsOf_append]
  exact (hlist.symm.trans (List.append_nil _).symm)

theorem listed_parameter {t : Ast .type} {as : Ast (.list .annotationUse)} {dims : Ast (.list .dim)} {varargs : Bool}
    (hl : l.kind = .formalParameter) (hn : n.kind = .identifier) (hm : Keyworded Modifier.immutableByDefault m h)
    (hus : Cst.Nameless us) (hvs : Cst.Nameless vs) (hws : Cst.Nameless ws) (hheader : Listed [m] h) (ht : Listed us t)
    (has : Listed vs as) (hdims : Listed ws dims) :
    Listed [.node l (m :: (us ++ (vs ++ .node n [] :: ws)))] (parameter p h (.present t) n.text dims varargs as) := by
  intro site keywords ms _
  have hname : Follows [.declared .parameter n.text (Java.keywords h.lower)] _ :=
    .declared (hm.inJava_immutable (by decide))
  refine (follows_dimsBehind ht hdims site ms (hheader.plain rfl site ms)
    ((has.plain rfl site ms).ofList.append hname) .nil).of_eq ?_ ?_
  · rw [List.append_nil, ← List.append_assoc]
    rfl
  · rw [(Cst.nameless_node hl rfl _).declarationsIn, ← List.append_assoc us vs,
      Cst.declarationsOf_named (congrArg Cst.Kind.site? hl) hm.1 hn (Cst.nameless_append hus hvs) hws]
    simp

theorem listed_parameters {ps : Ast (.list .parameter)} (hl : l.kind = .formalParameters) (hps : Listed us ps) :
    Listed [.node l us] ps := by
  intro site keywords ms _
  refine (hps site (Cst.modifiersIn us) ms nofun).of_eq rfl ?_
  rw [(Cst.nameless_node hl rfl us).declarationsIn, Cst.declarationsOf_cons,
    Cst.declarations_site (congrArg Cst.Kind.site? hl), Cst.declarationsOf_nil, List.append_nil]
  rfl

theorem listed_lambdaBare {q : Place} {body : Ast .lambdaBody} (hl : l.kind = .lambda) (hn : n.kind = .identifier)
    (hus : Cst.Nameless us) (hbody : Listed us body) :
    Listed [.node l (.node n [] :: us)] (lambda p (cons (bareParameter q n.text) nil) false body) := by
  refine .of_plain (fun site ms => ?_) rfl
  have hparameter := follows_bareParameter q n.text (Cst.modifiersIn (.node n [] :: us)) site ms
  refine ((hparameter.append .nil).append (hbody.follows rfl)).of_eq rfl ?_
  rw [Cst.declarationsOf_cons, Cst.declarations_site (congrArg Cst.Kind.site? hl), Cst.declarationsIn_name hn,
    hus.declarationsIn]
  simp

theorem listed_lambda {k : Cst.Label} {ps : Ast (.list .parameter)} {body : Ast .lambdaBody} (hl : l.kind = .lambda)
    (hk : k.kind = .lambdaParameters) (hvs : Cst.Nameless vs) (hps : Listed us ps) (hbody : Listed vs body) :
    Listed [.node l (.node k us :: vs)] (lambda p ps true body) := by
  refine .of_plain (fun site ms => ?_) rfl
  refine ((hps site (Cst.modifiersIn us) ms nofun).ofList.append (hbody.follows rfl)).of_eq rfl ?_
  have hlist : Cst.declarations (.node l (.node k us :: vs)) =
      Cst.declarationsIn (some .bareParameter) (Cst.modifiersIn us) us ++ Cst.declarationsOf vs := by
    rw [Cst.declarations_site (congrArg Cst.Kind.site? hl), show Tree.node k us :: vs = [Tree.node k us] ++ vs from rfl,
      Cst.declarationsIn_append, (Cst.nameless_node hk rfl us).declarationsIn, hvs.declarationsIn,
      Cst.declarationsOf_cons, Cst.declarations_site (congrArg Cst.Kind.site? hk), Cst.declarationsOf_nil,
      List.append_nil]
  exact hlist.symm.trans (List.append_nil _).symm

theorem listed_methodDecl {ts : Ast (.list .typeParameter)} {t : Ast .type} {ps : Ast (.list .parameter)}
    {dims : Ast (.list .dim)} {es : Ast (.list .exception)} {b : Ast (.option .block)} {inInterface : Bool}
    (hl : l.kind ∈ [Cst.Kind.methodDecl, .interfaceMethodDecl]) (hn : n.kind = .identifier) (hm : Keyworded id m h)
    (hus : Cst.Nameless us) (hvs : Cst.Nameless vs) (hws : Cst.Nameless ws) (hxs : Cst.Nameless xs)
    (hys : Cst.Nameless ys) (hzs : Cst.Nameless zs) (hheader : Listed [m] h) (hts : Listed us ts) (ht : Listed vs t)
    (hps : Listed ws ps) (hdims : Listed xs dims) (hes : Listed ys es) (hb : Listed zs b) :
    Listed [.node l (m :: (us ++ (vs ++ .node n [] :: (ws ++ (xs ++ (ys ++ zs))))))]
      (methodDecl p inInterface h ts t n.text ps dims es b) := by
  refine .of_plain (fun site ms => ?_) rfl
  have hname : Follows [.declared .method n.text (Java.keywords h.lower)] _ := .declared (hm.inJava_id (by decide))
  have hsite : l.kind.site? = some .method :=
    (by decide : ∀ k ∈ [Cst.Kind.methodDecl, .interfaceMethodDecl], k.site? = some .method) _ hl
  have hbody := Follows.ofOptionMap (f := fun b => .block (.ofList b)) Java.items_ofList (hb.plain rfl site ms)
  refine (follows_dimsBehind ht hdims site ms ((hheader.plain rfl site ms).append (hts.plain rfl site ms).ofList)
    (hname.append (hps.nameless rfl hws site ms).ofList) ((hes.plain rfl site ms).ofList.append hbody)).of_eq ?_ ?_
  · refine Eq.trans ?_ (List.append_nil _).symm
    exact congrArg (fun is => _ ++ _ :: is) (List.append_assoc ..).symm
  · rw [← List.append_assoc us vs, Cst.declarationsOf_named hsite hm.1 hn (Cst.nameless_append hus hvs)
      (Cst.nameless_append hws (Cst.nameless_append hxs (Cst.nameless_append hys hzs)))]
    simp

theorem listed_annotationMemberDecl {t : Ast .type} {dims : Ast (.list .dim)} {e : Ast (.option .expr)}
    (hl : l.kind = .annotationMemberDecl) (hn : n.kind = .identifier) (hm : Keyworded id m h) (hus : Cst.Nameless us)
    (hvs : Cst.Nameless vs) (hws : Cst.Nameless ws) (hheader : Listed [m] h) (ht : Listed us t) (hdims : Listed vs dims)
    (he : Listed ws e) :
    Listed [.node l (m :: (us ++ .node n [] :: (vs ++ ws)))] (annotationMemberDecl p h t n.text dims e) := by
  refine .of_plain (fun site ms => ?_) rfl
  have hname : Follows [.declared .method n.text (Java.keywords h.lower)] _ := .declared (hm.inJava_id (by decide))
  refine (follows_dimsBehind ht hdims site ms (hheader.plain rfl site ms) hname (he.plain rfl site ms).ofOption).of_eq
    (List.append_nil _).symm ?_
  rw [Cst.declarationsOf_named (congrArg Cst.Kind.site? hl) hm.1 hn hus (Cst.nameless_append hvs hws)]
  simp

theorem listed_constructorDecl {k : Cst.Label} {ts : Ast (.list .typeParameter)} {ps : Ast (.list .parameter)}
    {es : Ast (.list .exception)} {other : Ast (.option .constructorCall)} {ss : Ast (.list .stmt)} {q : Place}
    (hl : l.kind = .constructorDecl) (hk : k.kind = .constructorBody) (hn : n.kind = .identifier)
    (hm : Keyworded id m h) (hus : Cst.Nameless us) (hvs : Cst.Nameless vs) (hws : Cst.Nameless ws)
    (hheader : Listed [m] h) (hts : Listed us ts) (hps : Listed vs ps) (hes : Listed ws es) (hother : Listed xs other)
    (hss : Listed ys ss) :
    Listed [.node l (m :: (us ++ .node n [] :: (vs ++ (ws ++ [.node k (xs ++ ys)]))))]
      (constructorDecl p h ts n.text ps es other (.block q ss)) := by
  refine .of_plain (fun site ms => ?_) rfl
  have hname : Follows [.declared .constructor n.text (Java.keywords h.lower)] _ := .declared (hm.inJava_id (by decide))
  have hbody : Follows (Java.items site ms (.ofList (other.lower.toList ++ ss.lower.flatten)))
      (Cst.declarationsOf xs ++ Cst.declarationsOf ys) := by
    refine ((hother.plain rfl site ms).append (hss.plain rfl site ms).ofFlatten).of_eq ?_ rfl
    rw [Java.items_ofList, Java.items_ofList, List.flatMap_append]
    rfl
  refine ((((hheader.follows rfl).append (hts.follows rfl).ofList).append (hname.append
    (((hps.nameless rfl hvs site ms).ofList.append (hes.follows rfl).ofList).append hbody))).append .nil).of_eq rfl ?_
  rw [Cst.declarationsOf_named (congrArg Cst.Kind.site? hl) hm.1 hn hus
    (Cst.nameless_append hvs (Cst.nameless_append hws (Cst.nameless_node hk rfl _)))]
  simp [Cst.declarations_kind hk rfl]

end

theorem listed_of_stands {c : Category} {us : List Cst} {a : Ast c} (h : Stands True us a) : Listed us a := by
  induction h with
  | nil | absent => exact fun _ _ _ _ => .nil
  | one _ ih | present _ ih =>
    exact fun site keywords ms hms => (ih site keywords ms hms).of_eq (List.append_nil _).symm rfl
  | append _ _ ih ih' =>
    intro site keywords ms hms
    have hfollows := (ih site keywords ms hms).append (ih' site keywords ms hms)
    rw [lower_ofList, lower_ofList] at hfollows
    rw [lower_ofList, List.map_append, Cst.declarationsIn_append]
    exact hfollows.of_eq List.flatMap_append.symm rfl
  | within hl hc _ ih =>
    refine .of_plain (fun site ms => (ih.plain hc site ms).of_eq rfl ?_) hc
    simp [Cst.declarations_plain (Cst.Kind.matters_of_encloses hl)]
  | primitive _ _ ih | ofBlock _ ih | initializerDecl _ ih | staticInitializer _ _ ih =>
    exact .of_parts ((ih.follows rfl).ofList.append .nil)
  | classRef _ ih | exprStmt _ ih | throwStmt _ ih | ofTypeDecl _ ih =>
    exact .of_parts ((ih.follows rfl).append .nil)
  | withDims _ _ iht ihd => exact .of_parts (follows_withDims iht ihd _ _)
  | wildcard _ ih => exact .of_parts ((((ih.follows rfl).ofList.append .nil).append .nil).append .nil)
  | wildcardUpper _ _ _ ih iht =>
    exact .of_parts ((((ih.follows rfl).ofList.append (iht.follows rfl)).append .nil).append .nil)
  | wildcardLower _ _ _ ih iht =>
    exact .of_parts ((((ih.follows rfl).ofList.append .nil).append (iht.follows rfl)).append .nil)
  | void | literal | name | thisRef | superRef | emptyStmt => exact .of_parts .nil
  | segment hl _ _ _ _ ihs iha iht =>
    exact .of_parts (((ihs.follows rfl).ofOption.append (iha.follows rfl).ofList).append
      (iht.follows rfl).ofList) (by simp [Cst.declarations_kind hl rfl])
  | annotated _ _ iho ihs => exact listed_annotated iho ihs
  | named he _ ih =>
    refine .of_plain fun site ms => (ih.plain rfl site ms).of_eq ?_ rfl
    exact (items_of_nameParts he site ms).trans (items_ofNames ..).symm
  | typeParameter _ _ _ iha ihb =>
    exact .of_parts ((iha.follows rfl).ofList.append (ihb.follows rfl).ofList)
  | exception _ ih => exact .of_plain (ih.plain rfl)
  | dim _ ih | arrayElements _ ih | blockBody _ ih => exact .of_parts (ih.follows rfl).ofList
  | marker hl hq =>
    exact .of_parts .nil (by simp [Cst.declarations_annotation hl, Cst.declarations_dotted hq])
  | single hl hq _ ih =>
    exact .of_parts ((ih.follows rfl).append .nil).enclosed
      (by simp [Cst.declarations_annotation hl, Cst.declarations_dotted hq])
  | normal hl hq _ ih =>
    exact .of_parts (Follows.nil.append (ih.follows rfl).ofList).enclosed
      (by simp [Cst.declarations_annotation hl, Cst.declarations_dotted hq])
  | memberValue _ _ ih | typeExpr _ ih | ofArrayElements _ ih | ofAnnotationUse _ ih | exprBody _ ih
  | typeLiteral _ ih | enclosed _ ih => exact .of_parts (ih.follows rfl)
  | header hts _ hms _ ih =>
    refine .of_plain fun _ _ => (Follows.modifiers.append (ih.follows rfl).ofList).of_eq rfl ?_
    simp [declarationsOf_annotations hts, Cst.declarations_modifiers hms.1]
  | access hl _ _ _ ihe iht =>
    exact .of_parts (((ihe.follows rfl).append .nil).append (iht.follows rfl))
      (by simp [Cst.declarations_kind hl rfl])
  | ofReference hr _ ih =>
    exact .of_plain fun site ms => (ih.follows rfl).of_eq (items_ofReference (hr trivial) site ms).symm rfl
  | call _ _ ihr ihe =>
    refine .of_plain fun site ms => ((ihr.plain rfl site ms).append (ihe.plain rfl site ms).ofList).of_eq ?_
      (by simp)
    exact congrArg (· ++ _) (congrArg₂ (· ++ ·) (Java.items_ofOption _).symm (Java.items_ofList _).symm)
  | index _ _ iha ihi | instanceOf _ _ iha ihi =>
    exact .of_parts ((iha.follows rfl).append (ihi.follows rfl))
  | methodRef hl _ _ _ ihe iht =>
    exact .of_parts ((ihe.follows rfl).append (iht.follows rfl).ofList) (by simp [Cst.declarations_kind hl rfl])
  | arrayRef hl _ _ _ _ iht ihd iha =>
    exact .of_parts ((follows_withDims iht ihd _ _).append (iha.follows rfl).ofList)
      (by simp [Cst.declarations_kind hl rfl])
  | objectCreation hl _ _ _ _ _ _ ihs iha iht ihe ihb =>
    have hplain := (by decide : ∀ k ∈ [Cst.Kind.objectCreation, .newSuffix], k.matters = false) _ hl
    exact .of_parts (((((ihs.follows rfl).ofOption.append (iha.follows rfl).ofList).append
      ((iht.follows rfl).of_eq (List.append_nil _) rfl)).append (ihe.follows rfl).ofList).append
      (.ofOptionMap (f := fun xs => .ofList xs.flatten) Java.items_flatten (ihb.follows rfl)))
      (by simp [Cst.declarations_plain hplain])
  | arrayCreation _ _ _ iht ihl ihe =>
    exact .of_parts (((iht.follows rfl).append (ihl.follows rfl).ofList).append (ihe.follows rfl).ofOption)
  | level _ _ iha ihe => exact .of_parts ((iha.follows rfl).ofList.append (ihe.follows rfl).ofOption)
  | lambdaBare hl hn hus _ ih => exact listed_lambdaBare hl hn hus ih
  | lambda hl hk hvs _ _ ihp ihb => exact listed_lambda hl hk hvs ihp ihb
  | thisOf hl _ he hvs _ _ ih | superOf hl _ he hvs _ _ ih =>
    obtain rfl := hvs trivial
    refine .of_plain fun site ms => (ih.follows rfl).of_eq (items_of_nameParts he site ms) ?_
    simp [Cst.declarations_kind hl rfl]
  | binary hl _ _ _ ihx ihy | assign hl _ _ _ ihx ihy =>
    exact .of_parts ((ihx.follows rfl).append (ihy.follows rfl)) (by simp [Cst.declarations_kind hl rfl])
  | unary hl _ _ ih | unaryBehind hl _ _ ih =>
    exact .of_parts (ih.follows rfl) (by simp [Cst.declarations_kind hl rfl])
  | conditional _ _ _ ihx ihy ihz =>
    exact .of_parts (((ihx.follows rfl).append (ihy.follows rfl)).append (ihz.follows rfl))
  | cast _ _ iht ihe =>
    exact .of_plain fun _ _ => ((iht.follows rfl).append (ihe.follows rfl)).of_eq
      (congrArg (· ++ _) (Java.items_castTo _).symm) (by simp)
  | block _ ih => exact .of_plain fun _ _ => (ih.follows rfl).ofFlatten.of_eq (Java.items_ofList _) rfl
  | ofVariables _ ih =>
    exact .of_plain fun site ms => (ih.plain rfl site ms).of_eq (Java.flatMap_ofVariables _).symm rfl
  | ifStmt _ _ _ ihe ihy ihn =>
    exact .of_parts ((((ihe.follows rfl).append (ihy.follows rfl).single).append
      (.ofOptionMap Java.items_single (ihn.follows rfl))).append .nil)
  | whileStmt _ _ ihe ihs =>
    exact .of_parts (((ihe.follows rfl).append (ihs.follows rfl).single).append .nil)
  | doStmt _ _ ihs ihe =>
    exact .of_parts (((ihs.follows rfl).single.append (ihe.follows rfl)).append .nil)
  | forStmt _ _ _ _ ihi ihe iht ihs =>
    exact .of_parts (((((Follows.nil.append (ihi.follows rfl).ofList).append (ihe.follows rfl).ofOption).append
      (iht.follows rfl).ofList).append (ihs.follows rfl).single).append .nil)
  | forVariables _ _ _ _ ihd ihe iht ihs =>
    refine .of_plain fun site ms => (((ihd.plain rfl site ms).append ((((Follows.nil.append .nil).append
      (ihe.plain rfl site ms).ofOption).append (iht.plain rfl site ms).ofList).append
      (ihs.plain rfl site ms).single)).append .nil).of_eq ?_ (by simp)
    change _ = Java.items site ms (.forLoop _ fun d => .forStmt d (.ofList []) _ _ _) ++ []
    rw [Java.items_forLoop]
    rfl
  | forEachStmt ht _ _ _ ihp ihe ihs =>
    have hnameless : Cst.Nameless [_] := List.forall_mem_singleton.2 (by rw [Cst.name?, ht])
    exact .of_parts ((((ihp.nameless rfl hnameless _ _).append (ihe.follows rfl)).append
      (ihs.follows rfl).single).append .nil)
  | tryStmt hl _ _ _ _ _ ihr ihb ihh ihf =>
    exact .of_parts
      (((((ihr.follows rfl).ofList.append (ihb.follows rfl).ofList).append (ihh.follows rfl).ofList).append
      (.ofOptionMap (f := fun b => .block (.ofList b)) Java.items_ofList (ihf.follows rfl))).append .nil)
      (by simp [Cst.declarations_kind hl])
  | switchStmt _ _ ihe ihg | synchronizedStmt _ _ ihe ihg =>
    exact .of_parts (((ihe.follows rfl).append (ihg.follows rfl).ofList).append .nil)
  | labeledStmt _ _ ihs => exact .of_parts ((ihs.follows rfl).single.append .nil)
  | breakStmt | continueStmt | breakTo | continueTo => exact .of_parts .nil
  | returnStmt _ ih => exact .of_parts ((ih.follows rfl).ofOption.append .nil)
  | assertStmt _ _ ihe ihm =>
    exact .of_parts (((ihe.follows rfl).append (ihm.follows rfl).ofOption).append .nil)
  | resource hl hn hm hus hvs _ _ _ ihm iht ihe =>
    refine .of_plain fun site ms => (((ihm.follows rfl).append (iht.follows rfl)).append
      ((Follows.declared (hm.inJava_immutable (by decide))).append (ihe.follows rfl))).of_eq rfl ?_
    exact (Cst.declarationsOf_named (congrArg Cst.Kind.site? hl) hm.1 hn hus hvs).symm
  | namedResource hl hus _ ih =>
    refine .of_plain fun site ms => (ih.follows rfl).of_eq rfl ?_
    rw [Cst.declarationsOf_cons, Cst.declarations_site (congrArg Cst.Kind.site? hl), hus.declarationsIn]
    simp
  | catchClause hl hn hm hus hvs _ _ _ ihm iht ihb =>
    refine .of_plain fun site ms => (((ihm.follows rfl).append (iht.follows rfl).ofList).append
      ((Follows.declared (hm.inJava_immutable (by decide))).append (ihb.follows rfl).ofList)).of_eq rfl ?_
    exact (Cst.declarationsOf_named (congrArg Cst.Kind.site? hl) hm.1 hn hus hvs).symm
  | switchGroup _ _ ihl ihs =>
    exact .of_parts ((ihl.follows rfl).ofList.append (ihs.follows rfl).ofFlatten)
  | switchLabel _ ih => exact .of_parts (ih.follows rfl).ofOption
  | declarator hl hn _ _ ihd ihe => exact listed_declarator hl ihd ihe
  | variableDecl hl hm ht hds _ _ _ ihm iht ihd => exact listed_variableDecl hl hm ht hds ihm iht ihd
  | bareParameter hn =>
    exact fun site keywords ms _ => (follows_bareParameter _ _ keywords site ms).of_eq rfl
      (Cst.declarationsIn_name hn []).symm
  | parameter hl hn hm hus hvs hws _ _ _ _ ihm iht iha ihd =>
    exact listed_parameter hl hn hm hus hvs hws ihm iht iha ihd
  | parameters hl _ ih => exact listed_parameters hl ih
  | classDecl hl hn hm hus hvs hws hxs _ _ _ _ _ ihm iht ihb ihi ihms =>
    refine .of_plain fun site ms => ((ihm.follows rfl).append ((Follows.declared (hm.inJava_id (by decide))).append
      ((((iht.follows rfl).ofList.append (ihb.follows rfl).ofOption).append (ihi.follows rfl).ofList).append
        (ihms.follows rfl).ofFlatten))).of_eq rfl ?_
    have hnameless := Cst.nameless_append hus (Cst.nameless_append hvs (Cst.nameless_append hws hxs))
    rw [Cst.declarationsOf_type (congrArg Cst.Kind.site? hl) hm.1 hn hnameless]
    simp
  | interfaceDecl hl hn hm hus hvs hws _ _ _ _ ihm iht ihi ihms =>
    refine .of_plain fun site ms => ((ihm.follows rfl).append ((Follows.declared (hm.inJava_id (by decide))).append
      (((iht.follows rfl).ofList.append (ihi.follows rfl).ofList).append (ihms.follows rfl).ofFlatten))).of_eq rfl ?_
    have hnameless := Cst.nameless_append hus (Cst.nameless_append hvs hws)
    rw [Cst.declarationsOf_type (congrArg Cst.Kind.site? hl) hm.1 hn hnameless]
    simp
  | annotationTypeDecl hl hn hm hus _ _ ihm ihms =>
    refine .of_plain fun site ms => ((ihm.follows rfl).append ((Follows.declared (hm.inJava_id (by decide))).append
      (ihms.follows rfl).ofFlatten)).of_eq rfl ?_
    exact (Cst.declarationsOf_type (congrArg Cst.Kind.site? hl) hm.1 hn hus).symm
  | ofField _ ih | ofConstant _ ih =>
    exact .of_plain fun site ms => (ih.plain rfl site ms).of_eq (Java.flatMap_ofField _).symm rfl
  | methodDecl hl hn hm hus hvs hws hxs hys hzs _ _ _ _ _ _ _ ihm ihp iht ihps ihd ihe ihb =>
    exact listed_methodDecl hl hn hm hus hvs hws hxs hys hzs ihm ihp iht ihps ihd ihe ihb
  | annotationMemberDecl hl hn hm hus hvs hws _ _ _ _ ihm iht ihd ihe =>
    exact listed_annotationMemberDecl hl hn hm hus hvs hws ihm iht ihd ihe
  | constructorDecl hl hk hn hm hus hvs hws _ _ _ _ _ _ ihm ihp ihps ihe iho ihs =>
    exact listed_constructorDecl hl hk hn hm hus hvs hws ihm ihp ihps ihe iho ihs
  | constructorCall _ _ _ _ ihs iht ihe =>
    exact .of_parts (((ihs.follows rfl).ofOption.append (iht.follows rfl).ofList).append (ihe.follows rfl).ofList)
      (by simp)

end Ast

/-! ## Files -/

theorem PackageDecl.Stands.follows {us : List Cst} {package : PackageDecl} (h : package.Stands True us) :
    Java.Follows ((package.name.map fun name => (⟨.ofList package.annotations.lower, name.text⟩ : Java.Package)).elim []
      fun p => p.annotations.items .type []) (Cst.declarationsOf us) := by
  cases h with
  | none => exact .nil
  | some hl hq has =>
    refine ((Ast.listed_of_stands has).plain rfl .type []).ofList.of_eq rfl ?_
    simp [Cst.declarations_kind hl rfl, Cst.declarations_dotted hq]

theorem ImportDecl.Stands.declarations {t : Cst} {i : ImportDecl} (h : i.Stands t) : Cst.declarations t = [] := by
  cases h with
  | intro words stars hl hwords hstars hq =>
    have hleaves (ns : List Cst.Label) : Cst.declarationsOf (ns.map (Tree.node · [])) = [] := by
      rw [Cst.declarationsOf, List.flatMap_map]
      exact List.flatMap_eq_nil_iff.2 fun n _ => Cst.declarations_leaf n
    rw [Cst.declarations_kind hl rfl, Cst.declarationsOf_append, Cst.declarationsOf_cons, hleaves, hleaves,
      Cst.declarations_dotted hq]
    rfl

theorem ImportDecl.declarationsOf_of_stands {ts : List Cst} {is : List ImportDecl}
    (h : List.Forall₂ ImportDecl.Stands ts is) : Cst.declarationsOf ts = [] := by
  induction h with
  | nil => rfl
  | cons ht _ ih => rw [Cst.declarationsOf_cons, ht.declarations, ih, List.nil_append]

theorem CompilationUnit.Stands.follows {t : Cst} {u : CompilationUnit} (h : u.Stands True t) :
    Java.Follows u.lower.items (Cst.declarations t) := by
  cases h with
  | intro hl hpackage himports htype =>
    replace himports := ImportDecl.declarationsOf_of_stands himports
    refine (hpackage.follows.append (((Ast.listed_of_stands htype).plain rfl .type []).append .nil)).of_eq rfl ?_
    simp [Cst.declarations_kind hl rfl, himports]

/-- **Immutable by default.** Java declares what the source declares: outside of annotations the same in the same order,
in annotations at least the same. Local variables, parameters with a type, variables of loops over a collection,
parameters of `catch` and resources keep their modifiers without `mutable` and become `final` if they were neither
`final` nor `mutable`. Parameters without a type have no modifiers, and all else keeps its own without `mutable`. No
modifier is `mutable`. -/
theorem immutable_by_default {source : Text} {u : CompilationUnit} (h : (Grammar.parseUnit source).errors = [])
    (hu : CompilationUnit.ofCst (Grammar.parseUnit source).tree = .ok u) :
    let declared := (Grammar.parseUnit source).tree.declarations.map Declaration.inJava
    u.lower.declarations.filter (!·.annotated) = declared.filter (!·.annotated) ∧
      (∀ d, d ∈ u.lower.declarations ↔ d ∈ declared) ∧ ∀ ms ∈ u.lower.modifierLists, ("mutable" : Text) ∉ ms := by
  have hstands : u.Stands True _ :=
    Ast.stands_of_ofCst (Grammar.bare_parse Grammar.compilationUnit source) (fun _ => Grammar.formed_of_no_errors h) hu
  have hfollows := hstands.follows
  exact ⟨hfollows.filter_declarations, hfollows.mem_declarations, hfollows.not_mem_modifiers⟩

theorem immutable_by_default_at_all_sites :
    let source : Text :=
      ("class A\x7bmutable int x;@B(new K()\x7bmutable int k;\x7d)C f(int p,mutable int q)" : Text) ++
        "\x7bint a,b[]=i->\x7btry(D d=e)\x7b\x7dcatch(final E e)\x7bfor(int v:w)\x7b\x7d\x7d\x7d;\x7d\x7d"
    ∃ u : CompilationUnit, (Grammar.parseUnit source).errors = [] ∧
      CompilationUnit.ofCst (Grammar.parseUnit source).tree = .ok u ∧
      let declared := (Grammar.parseUnit source).tree.declarations.map Declaration.inJava
      u.lower.declarations.filter (!·.annotated) = declared.filter (!·.annotated) ∧
        (∀ d, d ∈ u.lower.declarations ↔ d ∈ declared) ∧ ∀ ms ∈ u.lower.modifierLists, ("mutable" : Text) ∉ ms := by
  intro source
  have h : (Grammar.parseUnit source).errors = [] := by decide +kernel
  have hread : (CompilationUnit.ofCst (Grammar.parseUnit source).tree).isOk = true := by decide +kernel
  obtain ⟨u, hu⟩ := Ast.Result.exists_of_isOk hread
  exact ⟨u, h, hu, immutable_by_default h hu⟩

end KiteCompiler
