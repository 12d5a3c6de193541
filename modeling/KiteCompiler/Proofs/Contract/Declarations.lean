import KiteCompiler.Proofs.Contract.Constructors

/-!
# What declarations and files give
-/

namespace KiteCompiler.Grammar

open Ast.Reading

namespace Gives

section

variable (rules : Rules) [∀ p, Forward (rules p)] [Reliable rules]

/-! ## Types and their members -/

omit [∀ p, Forward (rules p)] [Reliable rules] in
theorem declaration {X : Slot} {k : Cst.Kind} {is : List Item} {m : Cst} {p : Parser (List Cst)}
    (hm : Fits .modifiers m) (hp : Gives p (Row is)) (h : Builds X k (.one .modifiers :: is)) :
    Gives (Grammar.declaration k m p) (Fits X) := by
  have hforward := hp.forward
  have hmodifiers : Has m (Fits .modifiers) := ⟨hm⟩
  unfold Grammar.declaration
  dsimp only
  split <;> infer_instance

set_option synthInstance.maxSize 2000 in
theorem classDecl {m : Cst} (hm : Fits .modifiers m) : Gives (Grammar.classDecl rules m) (Fits .typeDecl) :=
  declaration hm inferInstance Builds.classDecl

set_option synthInstance.maxSize 2000 in
theorem interfaceDecl {m : Cst} (hm : Fits .modifiers m) : Gives (Grammar.interfaceDecl rules m) (Fits .typeDecl) :=
  declaration hm inferInstance Builds.interfaceDecl

set_option synthInstance.maxSize 2000 in
theorem annotationTypeDecl {m : Cst} (hm : Fits .modifiers m) :
    Gives (Grammar.annotationTypeDecl rules m) (Fits .typeDecl) :=
  declaration hm inferInstance Builds.annotationTypeDecl

theorem typeDecl? {m : Cst} (hm : Fits .modifiers m) : Gives (Grammar.typeDecl? rules m) (OptFits .typeDecl) := by
  refine skipping fun _ => choice (present (classDecl rules hm))
    (skipping fun _ => choice (present (interfaceDecl rules hm)) ?_)
  exact skipping fun _ => choice (present (annotationTypeDecl rules hm)) (of_has (optFits_none _))

instance : Gives (throwsClause rules) (Fits .throwsClause) := by unfold throwsClause; infer_instance

instance returnType : Gives (returnType rules) (Fits .resultType) := by
  have hvoid : Gives (Grammar.leaf .voidType) (Fits .resultType) :=
    mono (leaf .voidType) fun _ => Fits.resultType_of_void
  have htype : Gives (rules .type) (Fits .resultType) :=
    mono (inferInstanceAs (Gives (rules .type) (Fits .type))) fun _ => Fits.resultType_of_type
  unfold Grammar.returnType
  infer_instance

set_option synthInstance.maxSize 2000 in
theorem methodDecl {k : Cst.Kind} {m r : Cst} {tps : List Cst} (hm : Fits .modifiers m)
    (htps : Row [.opt .typeParameters] tps) (hr : Fits .resultType r)
    (h : Builds .member k [.one .modifiers, .opt .typeParameters, .one .resultType, .one .identifier,
      .one .formalParameters, .opt .dims, .opt .throwsClause, .opt .block]) :
    Gives (Grammar.methodDecl rules k m tps r) (Fits .member) := by
  have hparameters : Has tps (Row [.opt .typeParameters]) := ⟨htps⟩
  have hresult : Has r (Fits .resultType) := ⟨hr⟩
  exact declaration hm inferInstance h

theorem fieldDecl {k : Cst.Kind} {m r : Cst} (hm : Fits .modifiers m) (hr : Fits .type r)
    (h : Builds .member k [.one .modifiers, .one .type, .some .declarator]) :
    Gives (Grammar.fieldDecl rules k m r) (Fits .member) := by
  have htype : Has r (Fits .type) := ⟨hr⟩
  exact declaration hm inferInstance h

theorem methodOrField {k l : Cst.Kind} {construct : Construct} {m : Cst} {tps : List Cst} (hm : Fits .modifiers m)
    (htps : Row [.opt .typeParameters] tps)
    (hk : Builds .member k [.one .modifiers, .opt .typeParameters, .one .resultType,
      .one .identifier, .one .formalParameters, .opt .dims, .opt .throwsClause, .opt .block])
    (hl : Builds .member l [.one .modifiers, .one .type, .some .declarator]) :
    Gives (Grammar.methodOrField rules k l construct m tps) (Fits .member) := by
  unfold Grammar.methodOrField
  refine skipping fun _ => choice (errorNode _ _).never
    (seq (returnType rules) (fun r hr => skipping fun _ => ?_) inferInstance)
  split
  · exact methodDecl rules hm htps hr hk
  · next hvoid =>
    refine fieldDecl rules hm (hr.type_of_resultType fun h => ?_) hl
    simp [h] at hvoid

/-- A type, or something else. -/
theorem typeOr {X : Slot} {rest : Cst → Parser Cst} [hforward : ∀ m, Forward (rest m)]
    (htype : ∀ t, Fits .typeDecl t → Fits X t) (hrest : ∀ m, Fits .modifiers m → Gives (rest m) (Fits X)) :
    Gives (Grammar.typeOr rules rest) (Fits X) := by
  refine seq (modifiers rules) (fun m hm => ?_) fun m => .seq inferInstance fun o => by split <;> infer_instance
  refine seq (typeDecl? rules hm) (fun o ho => ?_) fun o => by split <;> infer_instance
  cases o with
  | none => exact hrest m hm
  | some t => exact of_has (htype t (ho t rfl))

instance interfaceMember : Gives (interfaceMember rules) (Fits .member) := by
  refine typeOr rules (fun _ => Fits.member_of_typeDecl) fun m hm => ?_
  refine seq (Q := Row [.opt .typeParameters]) inferInstance (fun tps htps => ?_) inferInstance
  exact methodOrField rules hm htps Builds.interfaceMethodDecl Builds.constantDecl

set_option synthInstance.maxSize 2000 in
instance annotationTypeMember : Gives (annotationTypeMember rules) (Fits .member) := by
  refine typeOr rules (fun _ => Fits.member_of_typeDecl) fun m hm => ?_
  refine skipping fun _ => choice (errorNode _ _).never
    (seq (Q := Fits .type) inferInstance (fun t ht => ?_) inferInstance)
  refine skipping fun _ => choice (fieldDecl rules hm ht Builds.constantDecl) ?_
  have htype : Has t (Fits .type) := ⟨ht⟩
  exact declaration hm inferInstance Builds.annotationMemberDecl

set_option synthInstance.maxSize 2000 in
instance body {X : Slot} {k : Cst.Kind} {member : Parser Cst} [hmember : Gives member (Fits .member)]
    [Builds X k [.many .member]] : Gives (body k member) (Fits X) := by
  have hforward := hmember.forward
  unfold Grammar.body
  infer_instance

section

variable [Passing (rules .type)]

set_option synthInstance.maxSize 2000 in
theorem constructorDecl {m : Cst} {tps : List Cst} (hm : Fits .modifiers m) (htps : Row [.opt .typeParameters] tps) :
    Gives (Grammar.constructorDecl rules m tps) (Fits .member) := by
  have hparameters : Has tps (Row [.opt .typeParameters]) := ⟨htps⟩
  exact declaration hm inferInstance Builds.constructorDecl

omit [∀ p, Forward (rules p)] [Reliable rules] [Passing (rules .type)] in
theorem fits_staticWord {t : Token} (h : Token.Genuine t.lexeme) (hk : t.kind = .kwStatic) :
    Fits .staticWord (.node { kind := .modifier, span := t.span, token := some t } []) := by
  have htext : t.text = t.kind.label := h.word (by rw [hk]; decide)
  refine ⟨List.mem_singleton_self _, fun _ => ?_⟩
  rw [decorate_node]
  change t.text = _
  rw [htext, hk]
  decide

instance classMember : Gives (classMember rules) (Fits .member) := by
  have hstatic : GivesWhen (fun s => s.current.kind = .kwStatic) (Grammar.node .initializer do
      let word ← Grammar.leaf .modifier
      return [word, ← Grammar.block rules]) (Fits .member) := by
    refine GivesWhen.node (.leaf inferInstance fun s hs hk => ?_) Builds.staticInitializer.fits
    have hword : Has (Tree.node { kind := .modifier, span := s.current.span, token := some s.current } [] : Cst)
        (Fits .staticWord) := ⟨fits_staticWord (hs.genuine_current (by rw [hk]; decide)) hk⟩
    infer_instance
  unfold Grammar.classMember
  refine skipping fun _ => choice inferInstance (test (fun s h => beq_iff_eq.1 (and_left h)) hstatic ?_)
  refine typeOr rules (fun _ => Fits.member_of_typeDecl) fun m hm => ?_
  refine seq (Q := Row [.opt .typeParameters]) inferInstance (fun tps htps => skipping fun _ =>
    choice ?_ ?_) inferInstance
  · exact constructorDecl rules hm htps
  · exact methodOrField rules hm htps Builds.methodDecl Builds.fieldDecl

end

/-! ## Files -/

set_option synthInstance.maxSize 2000 in
instance : Gives (packageDecl rules) (Fits .packageDecl) := by unfold packageDecl; infer_instance

omit [∀ p, Forward (rules p)] [Reliable rules] in
set_option synthInstance.maxSize 10000 in
instance : Gives importDecl (Fits .importDecl) := by unfold importDecl; dsimp only; infer_instance

theorem topLevelType : Gives (Grammar.topLevelType rules) (Fits .typeDecl) :=
  typeOr rules (fun _ h => h) fun _ _ => (errorNode _ _).never

/-- A turn of the loop over the types of a file, of which `seen` have been read: a second type is an error. -/
def Declares (seen : Nat) (t : Turn Nat) : Prop :=
  (t.added = [] ∧ ∀ n ∈ t.next, n = seen) ∨ ∃ d, Fits .typeDecl d ∧ t.added = [d] ∧ seen ≠ 1 ∧ ∀ n ∈ t.next,
  n = seen + 1

theorem typeTurn (seen : Nat) : Gives (typeTurn rules seen) (Declares seen) := by
  have hpart : Gives (countedType rules seen) fun a => Fits .typeDecl a.1 ∧ seen ≠ 1 ∧ a.2 = seen + 1 := by
    refine skipping fun start => seq (topLevelType rules) (fun d hd => ?_) inferInstance
    rw [if_neg (fun herror => absurd hd.kind (by rw [herror]; decide))]
    dsimp only
    split
    · exact (report_never inferInstance).never
    · next hseen => exact of_has ⟨hd, hseen, rfl⟩
  refine skipping fun _ => choice (of_has (.inl ⟨rfl, nofun⟩))
    (skipping fun _ => choice (skipping fun _ => of_has (.inl ⟨rfl, ?_⟩)) ?_)
  · exact fun n hn => (Option.some.inj hn).symm
  · refine seq (guarded_when hpart.when).always (fun ⟨⟨d, n⟩, moved⟩ ⟨hd, hseen, hn⟩ =>
      of_has (.inr ⟨d, hd, ?_⟩)) inferInstance
    cases moved with
    | true => exact ⟨rfl, hseen, fun k hk => (Option.some.inj hk).symm.trans hn⟩
    | false => exact ⟨rfl, hseen, nofun⟩

omit [∀ p, Forward (rules p)] [Reliable rules] in
theorem declares_repeatUpTo {turn : Nat → Parser (Turn Nat)} (h : ∀ n, Gives (turn n) (Declares n)) (n : Nat)
    {seen : Nat} (hseen : seen ≤ 1) :
    Gives (Grammar.repeatUpTo turn n seen) fun ts => ts.length + seen ≤ 1 ∧ ∀ t ∈ ts, Fits .typeDecl t := by
  have hforward := fun n => (h n).forward
  induction n generalizing seen with
  | zero => exact of_has ⟨by simpa using hseen, List.forall_mem_nil _⟩
  | succ n ih =>
    refine seq (h seen) (fun t ht => ?_) fun t => by split <;> infer_instance
    obtain ⟨added, next⟩ := t
    rcases ht with ⟨rfl, hnext⟩ | ⟨d, hd, rfl, hne, hnext⟩
    · cases next with
      | none => exact of_has ⟨by simpa using hseen, List.forall_mem_nil _⟩
      | some k =>
        obtain rfl : k = seen := hnext k rfl
        exact seq (ih hseen) (fun ts hts => of_has hts) inferInstance
    · have hzero : seen = 0 := by omega
      cases next with
      | none => exact of_has ⟨by simp [hzero], List.forall_mem_singleton.2 hd⟩
      | some k =>
        obtain rfl : k = seen + 1 := hnext k rfl
        refine seq (ih (by omega)) (fun ts hts => of_has ⟨?_, List.forall_mem_cons.2 ⟨hd, hts.2⟩⟩) inferInstance
        have hlength := hts.1
        simp only [List.singleton_append, List.length_cons]
        omega

instance topLevelTypes : Gives (topLevelTypes rules) fun ts => ts.length ≤ 1 ∧ ∀ t ∈ ts, Fits .typeDecl t :=
  skipping fun _ => declares_repeatUpTo (typeTurn rules) _ (Nat.zero_le 1)

/-- A file has exactly one type. -/
instance compilationUnit : Gives (compilationUnit rules)
    (Fits (.by [.compilationUnit] Ast.Reading.compilationUnit)) := by
  unfold Grammar.compilationUnit
  refine nodeOf (Q := Row [.opt .packageDecl, .many .importDecl, .one .typeDecl]) ?_ Builds.compilationUnit.fits
  refine seq (Q := Row [.opt .packageDecl]) inferInstance (fun ps hps => ?_) inferInstance
  refine seq (Q := Row [.many .importDecl]) inferInstance (fun is his => ?_) inferInstance
  refine seq (topLevelTypes rules) (fun ts hts => ?_) inferInstance
  have hpackage : Has ps (Row [.opt .packageDecl]) := ⟨hps⟩
  have himports : Has is (Row [.many .importDecl]) := ⟨his⟩
  match ts, hts with
  | [], _ => exact (reportHere_never inferInstance).never
  | [t], hts =>
    have ht := hts.2 t List.mem_cons_self
    have htype : Has t (Fits .typeDecl) := ⟨ht⟩
    have hproper : ([t].all fun t : Cst => t.kind == .error) = false := by
      have hkind : t.kind ≠ .error := fun herror => absurd ht.kind (by rw [herror]; decide)
      simpa using hkind
    rw [hproper]
    exact (inferInstance : Gives (Pure.pure (ps ++ is ++ [t])) _)

instance standaloneExpression : Gives (standaloneExpression rules) (Fits .expr) := by
  unfold Grammar.standaloneExpression
  refine seq (Q := Fits .expr) inferInstance (fun t ht => skipping fun _ => ?_) inferInstance
  dsimp only
  split
  · exact (reportHere_never inferInstance).never
  · exact of_has ht

end

end Gives

/-! ## All productions -/

instance passing_rulesUpTo (n : Nat) : Passing (rulesUpTo n .type) := by
  induction n with
  | zero => exact .failing inferInstance fun _ => State.errors_record_ne_nil _ _
  | succ n ih => exact Passing.type (rulesUpTo n)

instance reliable_rulesUpTo (n : Nat) : Reliable (rulesUpTo n) := by
  induction n with
  | zero => exact ⟨fun p => .skipping fun t => (Gives.report_never inferInstance).never⟩
  | succ n ih =>
    refine ⟨fun p => ?_⟩
    cases p with
    | expression => exact Gives.expression (rulesUpTo n)
    | conditional => exact Gives.conditional (rulesUpTo n)
    | unary => exact Gives.unary (rulesUpTo n)
    | elementValue => exact Gives.elementValue (rulesUpTo n)
    | type => exact Gives.type (rulesUpTo n)
    | statement => exact Gives.statement (rulesUpTo n)
    | classBody => exact (inferInstance : Gives (body .classBody (classMember (rulesUpTo n))) (Fits .classBody))
    | interfaceBody =>
      exact (inferInstance : Gives (body .interfaceBody (interfaceMember (rulesUpTo n))) (Fits .interfaceBody))
    | annotationTypeBody =>
      exact (inferInstance : Gives (body .annotationTypeBody (annotationTypeMember (rulesUpTo n)))
        (Fits .annotationTypeBody))
    | arrayInitializer => exact Gives.arrayInitializer (rulesUpTo n)

end KiteCompiler.Grammar
