import KiteCompiler.Proofs.Attempts
import KiteCompiler.Proofs.Dimensions
import KiteCompiler.Proofs.UniqueTypes

/-!
# Types of a source and their texts

Types are compared by their texts, which say nothing of places and annotations. For types that are read off a source
without errors this is the same as comparing the types themselves without places and annotations (`typeText_eq_iff`):
the names in them are names that the lexer found, and a wildcard can only be an argument, so they are `Regular`.
-/

namespace KiteCompiler

namespace Ast

/-! ## Names -/

theorem isName_of_formed {t : Cst} (h : t.Formed) (hk : t.kind = .identifier) :
    Token.IsName t.literal ∧ t.literal ∉ primitives := by
  obtain ⟨tok, htok, hgenuine, hadmits⟩ := h.token (by rw [hk]) (by rw [hk]; decide)
  rw [hk] at hadmits
  have hwords : ∀ n ∈ primitives, ∃ k ∈ Token.Kind.words, k ≠ .kwOf ∧ n = k.label := by decide +kernel
  rcases hgenuine with heof | hgenuine
  · rw [heof] at hadmits
    cases hadmits
  · obtain ⟨hname, hword⟩ := Token.Genuine.isName hgenuine hadmits
    rw [Cst.literal, htok]
    refine ⟨hname, fun hmem => ?_⟩
    obtain ⟨k, hk, hof, h⟩ := hwords _ hmem
    exact hword k hk hof h

theorem mem_primitives_of_formed {t : Cst} (h : t.Formed) (hk : t.kind = .primitiveType) : t.literal ∈ primitives := by
  obtain ⟨tok, htok, hgenuine, hadmits⟩ := h.token (by rw [hk]) (by rw [hk]; decide)
  rw [hk] at hadmits
  have hwords : ∀ k : Token.Kind, k.isPrimitive = true → k ∈ Token.Kind.words ∧ k.label ∈ primitives := by
    intro k
    cases k <;> decide
  obtain ⟨hword, hlabel⟩ := hwords tok.kind hadmits
  rcases hgenuine with heof | hgenuine
  · rw [heof] at hadmits
    cases hadmits
  · rw [Cst.literal, htok, Option.map_some, Option.getD_some]
    exact (show tok.text = _ from hgenuine.word hword) ▸ hlabel

/-! ## Readings -/

/-- A node as in a source without errors, off which regular types are read. -/
structure Decorated.Sensible (d : Decorated) : Prop where
  formed : d.tree.Formed
  regular : ∀ a, d.read .type = .ok a → Regular false a

/-- The same of all nodes. -/
abbrev Decorated.AllSensible (d : Decorated) : Prop := d.Every Decorated.Sensible

namespace Reading

open Decorated (AllSensible)

variable {t : Branch}

theorem regular_withDims {a : Ast .type} (h : Regular false a) (ds : List (Ast .dim)) :
    Regular false (a.withDims ds) := by
  induction ds with
  | nil => exact h
  | cons d ds ih =>
    cases d
    exact .array ih

theorem Reads.annotations {P : Decorated → Prop} : Reads P false leadingAnnotations fun _ _ => True :=
  .many fun _ _ => .lift fun _ _ => trivial

theorem regular_wildcard {a : Ast .type} (ht : ∀ c ∈ t.children, c.AllSensible) (h : wildcard t = .ok a) :
    Regular true a := by
  refine Reads.whole (J := fun _ => Regular true) ht (.bind .annotations fun _ as _ =>
    .optional (fun o _ _ => ?_) (.pure .wildcard)) h
  refine .expect fun d hd _ => .result fun bound hbound => .ite (fun _ => .pure ?_) fun _ =>
    .ite (fun _ => .pure ?_) fun _ => .fail
  · exact .introduced .upper (hd.root.regular bound hbound)
  · exact .introduced .lower (hd.root.regular bound hbound)

theorem regular_typeArgument {d : Decorated} (hd : d.AllSensible) {a : Ast .type} (h : typeArgument d = .ok a) :
    Regular true a := by
  unfold typeArgument at h
  split at h
  · exact .introduced .plain (hd.root.regular a h)
  · exact regular_wildcard (fun _ hc => hd.child hc) h
  · grind [Branch.fail]

theorem regular_typeArguments {ts : List (Ast .type)} (ht : ∀ c ∈ t.children, c.AllSensible)
    (h : typeArguments t = .ok ts) : ∀ a ∈ ts, Regular true a := by
  replace h := mapM_ok (of_children h)
  generalize t.children = cs at ht h
  induction h with
  | nil => exact List.forall_mem_nil _
  | cons ha _ ih =>
    obtain ⟨hc, hcs⟩ := List.forall_mem_cons.1 ht
    exact List.forall_mem_cons.2 ⟨regular_typeArgument hc ha, ih hcs⟩

/-- The scope of a regular class type. -/
abbrev RegularScope (scope : Ast (.option .classType)) : Prop := ∀ a ∈ scope.toOption, Regular false a

theorem regularScope_absent : RegularScope .absent := fun _ ha => nomatch ha

theorem regularScope_present {t : Ast .classType} (h : Regular false t) : RegularScope (.present t) :=
  fun _ ha => Option.some.inj ha ▸ h

theorem regular_classTypeElement {whole? : Option (Place × List (Ast .annotationUse))}
    {scope : Ast (.option .classType)} {v : Ast .classType} (ht : ∀ c ∈ t.children, c.AllSensible)
    (hscope : RegularScope scope) (h : classTypeElement whole? scope t = .ok v) : Regular false v := by
  refine Reads.whole (J := fun _ => Regular false) ht (.bind .annotations fun _ as _ => .one fun d hd hdk =>
    .result fun n hn => ?_) (of_kind_test h).2
  obtain ⟨-, hn⟩ := of_kind_test hn
  obtain ⟨hname, hprimitive⟩ := isName_of_formed hd.root.formed hdk
  rw [show d.tree.literal = n from Except.ok.inj hn] at hname hprimitive
  have hend {ts : List (Ast .type)} (hts : ∀ a ∈ ts, Regular true a) {diamond : Bool}
      (hdiamond : diamond = true → ts = []) (p : Place) (as : Ast (.list .annotationUse)) : Regular false
      (.segment p scope as n (ofList ts) diamond) :=
    .segment hscope hname hprimitive (fun h => hdiamond h ▸ rfl) (by rwa [toList_ofList])
  refine .optional (fun o ho _ => .result fun ts hts => .pureBind ?_) (.pureBind ?_)
  · have hregular := regular_typeArguments (fun _ hc => ho.child hc) hts
    cases whole? with
    | none => exact .pure (hend hregular List.isEmpty_iff.1 _ _)
    | some w => exact .pure (hend hregular List.isEmpty_iff.1 _ _)
  · cases whole? with
    | none => exact .pure (hend (List.forall_mem_nil _) (fun _ => rfl) _ _)
    | some w => exact .pure (hend (List.forall_mem_nil _) (fun _ => rfl) _ _)

theorem regular_classTypeElements {p : Place} {outer : List (Ast .annotationUse)} {scope : Ast (.option .classType)}
    {first : Decorated} {more : List Decorated} {v : Ast .classType} (hds : ∀ d ∈ first :: more, d.AllSensible)
    (hscope : RegularScope scope) (h : classTypeElements p outer scope first more = .ok v) : Regular false v := by
  induction more generalizing first scope with
  | nil => exact regular_classTypeElement (fun _ hc => (hds first (.head _)).child hc) hscope h
  | cons next more ih =>
    obtain ⟨segment, hsegment, h⟩ := Result.bind_ok.1 h
    obtain ⟨hfirst, hmore⟩ := List.forall_mem_cons.1 hds
    have hregular := regular_classTypeElement (fun _ hc => hfirst.child hc) hscope hsegment
    exact ih hmore (regularScope_present hregular) h

theorem regular_classType {outer : List (Ast .annotationUse)} {v : Ast .classType}
    (ht : ∀ c ∈ t.children, c.AllSensible) (h : classType t outer = .ok v) : Regular false v := by
  replace h := of_children (of_kind_test h).2
  cases hchildren : t.children with
  | nil =>
    rw [hchildren] at h
    cases h
  | cons first more =>
    rw [hchildren] at h ht
    exact regular_classTypeElements ht regularScope_absent h

theorem regular_type {a : Ast .type} (ht : ∀ c ∈ t.children, c.AllSensible) (h : type t = .ok a) : Regular false a := by
  obtain ⟨element, dims, ⟨before, base, behind, outer, hchildren, -, helement, -⟩, rfl⟩ := written_of_type h
  have hbase : base.AllSensible := ht base (by simp [hchildren])
  refine regular_withDims ?_ dims
  cases helement with
  | primitive hk => exact .primitive (mem_primitives_of_formed hbase.root.formed hk)
  | classType hk hown =>
    cases regular_classType (fun _ hc => hbase.child hc) hown with
    | segment hscope hname hn hd hts => exact .classRef (.segment hscope hname hn hd hts)

theorem sensible_decorate {t : Cst} (h : t.Every Cst.Formed) : (decorate t).AllSensible := by
  induction t using Tree.induction with
  | step l ts ih =>
    have hchildren : ∀ d ∈ ts.map decorate, d.AllSensible := List.forall_mem_map.2 fun t ht => ih t ht (h.child ht)
    have htree := (Decorated.tree_branch (decorate (.node l ts))).trans (source_decorate _)
    rw [decorate_node] at htree ⊢
    refine Tree.every_node.2 ⟨⟨?_, fun a ha => ?_⟩, hchildren⟩
    · rw [Decorated.tree, htree]
      exact h.root
    · exact regular_type (t := ⟨l, ts.map decorate⟩) hchildren ha

end Reading

/-! ## Comparing types -/

theorem isEmpty_skeleton (ts : Ast (.list .type)) : ts.skeleton.isEmpty = ts.isEmpty := by
  rw [skeleton_list, isEmpty, isEmpty, Reading.toList_ofList, List.isEmpty_map]

/-- Places and annotations are not in the text. -/
theorem typeTexts_skeleton {c : Category} (a : Ast c) : typeTexts a.skeleton = typeTexts a := by
  induction a with
  | classRef t ih => exact ih
  | present t ih => exact ih
  | cons t ts iht ihts => exact congrArg₂ (· ++ ·) iht ihts
  | array p t as iht _ => exact congrArg (fun ts : List Text => [ts.flatten ++ Text.ofString "[]"]) iht
  | wildcard p as upper lower _ ihupper ihlower =>
    exact congrArg₂ (fun us ls => [Text.ofString "?" ++ introduced " extends " [] us ++ introduced " super " [] ls])
      ihupper ihlower
  | segment p scope as n ts d ihscope _ ihts =>
    change [lead scope.skeleton ++ n ++ rear ts.skeleton d] = [lead scope ++ n ++ rear ts d]
    rw [lead, rear, ihscope, ihts, isEmpty_skeleton]
    rfl
  | _ => rfl

end Ast

/-- Syntax in a file or an expression that is read without errors. -/
def Cst.Accepted (t : Cst) : Prop := ∃ source,
  (Grammar.parseUnit source).errors = [] ∧ t ∈ (Grammar.parseUnit source).tree.subtrees ∨
    (Grammar.parseExpression source).errors = [] ∧ t ∈ (Grammar.parseExpression source).tree.subtrees

namespace Ast

/-- A type is read off type syntax: a type, an argument of another type, or a class type on its own. -/
inductive Denoted (t : Cst) : Ast .type → Prop
  | argument {a : Ast .type} (h : Reading.typeArgument (Reading.decorate t) = .ok a) : Denoted t a
  | classType {v : Ast .classType} (h : Reading.classType (Reading.decorate t).branch [] = .ok v) :
      Denoted t (.classRef v)

theorem Denoted.regular {t : Cst} (ht : t.Accepted) {a : Ast .type} (h : Denoted t a) : Regular true a := by
  have hformed : t.Every Cst.Formed := by
    obtain ⟨source, ⟨herrors, ht⟩ | ⟨herrors, ht⟩⟩ := ht
    · exact (Grammar.formed_of_no_errors herrors).below ht
    · exact (Grammar.formed_of_no_errors herrors).below ht
  have hsensible := Reading.sensible_decorate hformed
  cases h with
  | argument h => exact Reading.regular_typeArgument hsensible h
  | classType h => exact .introduced .plain (.classRef (Reading.regular_classType (fun _ hc => hsensible.child hc) h))

/-- **The text of a type identifies it.** -/
theorem typeText_eq_iff {t u : Cst} {a b : Ast .type} (ht : t.Accepted) (hu : u.Accepted) (ha : Denoted t a)
    (hb : Denoted u b) : typeText a = typeText b ↔ a.skeleton = b.skeleton := by
  refine ⟨skeleton_eq_of_typeText (ha.regular ht) (hb.regular hu), fun h => ?_⟩
  have htexts := congrArg typeTexts h
  rw [typeTexts_skeleton, typeTexts_skeleton] at htexts
  exact congrArg List.flatten htexts

theorem typeText_eq_iff_annotated :
    let first? (source : Text) : Option Cst :=
      (Grammar.parseUnit source).tree.subtrees.find? fun t => Cst.kind t = .type
    ∃ (t u : Cst) (a b : Ast .type), first? "class D\x7b@E a.B<@E?,C<>@E[]>f;\x7d" = some t ∧
      first? "class D\x7ba.@E B<?,C<>[]>f;\x7d" = some u ∧ t.Accepted ∧ u.Accepted ∧ Denoted t a ∧ Denoted u b ∧
      (typeText a = typeText b ↔ a.skeleton = b.skeleton) := by
  intro first?
  have hfirst (source : Text) (h : (Grammar.parseUnit source).errors = [])
      (hread : ((first? source).bind fun t => (Reading.typeArgument (Reading.decorate t)).toOption).isSome = true) :
      ∃ t a, first? source = some t ∧ t.Accepted ∧ Denoted t a := by
    obtain ⟨a, ha⟩ := Option.isSome_iff_exists.1 hread
    obtain ⟨t, ht, ha⟩ := Option.bind_eq_some_iff.1 ha
    refine ⟨t, a, ht, ⟨source, .inl ⟨h, List.mem_of_find?_eq_some ht⟩⟩, .argument ?_⟩
    cases hok : Reading.typeArgument (Reading.decorate t) with
    | error e => rw [hok] at ha; cases ha
    | ok v => rw [hok] at ha; cases ha; rfl
  obtain ⟨t, a, hfound, ht, ha⟩ := hfirst "class D\x7b@E a.B<@E?,C<>@E[]>f;\x7d" (by decide +kernel) (by decide +kernel)
  obtain ⟨u, b, hfound', hu, hb⟩ := hfirst "class D\x7ba.@E B<?,C<>[]>f;\x7d" (by decide +kernel) (by decide +kernel)
  exact ⟨t, u, a, b, hfound, hfound', ht, hu, ha, hb, typeText_eq_iff ht hu ha hb⟩

end Ast

end KiteCompiler
