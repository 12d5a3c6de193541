import KiteCompiler.Compilation.Basic
import KiteCompiler.Proofs.Lexing.Lexemes
import KiteCompiler.Proofs.Parallel.Alignment
import KiteCompiler.Proofs.Placement.Readings

/-!
# Layout does not matter

Two sources with the same lexemes differ in their blanks and comments only. Their runs through the reader correspond
(`parse_related`), so the trees differ only in places, and these places are in the same order. The second tree is the
first one with its places moved by a map that keeps the order of what is in the source (`Movement`), hence so are the
abstract syntax and what validation finds, before and after sorting. So a file is compiled to the same result
(`compile_of_same_lexemes`).
-/

namespace KiteCompiler

/-! ## Lexemes -/

namespace Token

theorem significant_follows (source : Text) : (significant source).Pairwise Follows :=
  (lexFrom_follows _ _ _).filter _

theorem significant_spelled (source : Text) : ∀ t ∈ significant source, Grammar.Spelled t := by
  intro t ht r hr
  exact text_of_mem_lexFrom (List.mem_of_mem_filter ht) (Grammar.mem_punctuation_of_afterAngle hr)

theorem exists_eof_mem_lexFrom (fuel : Nat) (p : Position) (s : Text) : ∃ t ∈ lexFrom fuel p s, t.kind = .eof := by
  induction fuel generalizing p s with
  | zero => exact ⟨_, List.mem_singleton.2 rfl, rfl⟩
  | succ fuel ih =>
    cases s with
    | nil => exact ⟨_, List.mem_singleton.2 rfl, rfl⟩
    | cons b rest =>
      obtain ⟨t, ht, hkind⟩ := ih (front p (b :: rest)).span.last ((b :: rest).drop (scan (b :: rest)).2)
      exact ⟨t, List.mem_cons_of_mem _ ht, hkind⟩

theorem sameLexeme_of_lexemes_eq {s s' : Text} (h : lexemes s = lexemes s') :
    List.Forall₂ Grammar.SameLexeme (significant s) (significant s') := by
  have hpairs : List.Forall₂ Eq (lexemes s) (lexemes s') := by rw [List.forall₂_eq_eq_eq, h]
  rw [lexemes, lexemes, List.forall₂_map_left_iff, List.forall₂_map_right_iff] at hpairs
  exact hpairs.imp fun t t' ht => Prod.mk.inj ht

end Token

namespace Grammar

open Token (significant lexemes)

/-! ## Reading -/

/-- Corresponding results of reading. -/
structure ParsedTwin {R : Position → Position → Prop} (hR : Aligned R) (p p' : Parsed) : Prop where
  tree : (alignedFrame hR).tree p.tree p'.tree
  errors : List.Forall₂ (ErrorTwin R) p.errors p'.errors

section Reading

variable {s s' : Text} (h : lexemes s = lexemes s')

/-- Corresponding places of two sources. -/
abbrev SamePlaces (s s' : Text) : Position → Position → Prop := Places (significant s) (significant s')

include h

theorem aligned_samePlaces : Aligned (SamePlaces s s') :=
  aligned_places (Token.significant_follows s) (Token.significant_follows s') (Token.significant_spelled s)
    (Token.sameLexeme_of_lexemes_eq h)

theorem significant_related : List.Forall₂ (TokenTwin (SamePlaces s s')) (significant s) (significant s') := by
  have hsame := Token.sameLexeme_of_lexemes_eq h
  refine List.forall₂_iff_get.2 ⟨hsame.length_eq, fun i hi hi' => ⟨hsame.get hi hi', ?_, fun j hj => ?_⟩⟩
  · exact Token.significant_spelled s _ (List.getElem_mem hi)
  · exact ⟨i, _, _, j, List.getElem?_eq_getElem hi, List.getElem?_eq_getElem hi', hj, rfl, rfl⟩

omit h in
theorem filter_related {R : Position → Position → Prop} {ts ts' : List Token} (p : Token.Kind → Bool)
    (hts : List.Forall₂ (TokenTwin R) ts ts') :
    List.Forall₂ (TokenTwin R) (ts.filter fun t => p t.kind) (ts'.filter fun t => p t.kind) := by
  refine List.rel_filter (fun t t' ht => ?_) hts
  dsimp only
  rw [ht.same.1]

omit h in
/-- The end of file is among the tokens that are read. -/
theorem good_ne_nil (s : Text) : (significant s).filter (fun t => !t.kind == .error) ≠ [] := by
  obtain ⟨t, ht, hkind⟩ := Token.exists_eof_mem_lexFrom s.length .start s
  have hgood : t ∈ (significant s).filter (fun t => !t.kind == .error) := by
    rw [significant, List.mem_filter, List.mem_filter, hkind]
    exact ⟨⟨ht, rfl⟩, rfl⟩
  exact List.ne_nil_of_mem hgood

theorem initial_related : StateTwin (SamePlaces s s') (initial (Token.lex s)) (initial (Token.lex s')) := by
  have htokens := significant_related h
  rw [initial, initial, List.partition_eq_filter_filter, List.partition_eq_filter_filter]
  refine List.rel_foldl (fun _ _ hs _ _ ht => hs.record (aligned_samePlaces h) (.invalidToken ht) ht.first) ?_
    (filter_related (· == .error) htokens)
  exact ⟨good_ne_nil s, filter_related (!· == .error) htokens, rfl, .nil⟩

omit h in
/-- The tokens of corresponding states have as many bytes. -/
theorem bytes_related {R : Position → Position → Prop} {q q' : State} (hq : StateTwin R q q') :
    q.tokens.toList.map (·.text.length) = q'.tokens.toList.map (·.text.length) :=
  Forall₂.map_eq (hq.tokens.imp fun _ _ ht => congrArg List.length ht.same.2)

/-- Corresponding sources lead to corresponding trees and errors, from a production that does not tell them apart. -/
theorem parse_related (start : Rules → Parser Cst)
    (hstart : ∀ (F : Frame) [F.Splits] (rules : Rules) [∀ p, F.Parallel (rules p) (rules p)],
      F.Parallel (start rules) (start rules)) :
    ParsedTwin (aligned_samePlaces h) (parse start s) (parse start s') := by
  have hR : Aligned (SamePlaces s s') := aligned_samePlaces h
  have hinitial := initial_related h
  have hbytes := bytes_related hinitial
  rw [parse, parse, hbytes]
  generalize productionsPerByte * _ = depth
  obtain ⟨htree, hstate⟩ := (hstart (alignedFrame hR) (rulesUpTo depth)).alike _ _ hinitial
  refine ⟨htree, Forall₂.mergeSort (fun a a' b b' ha hb => ?_) (List.rel_reverse hstate.errors)⟩
  exact decide_eq_decide.2 (hR.offset_le_iff ha.2 hb.2)

end Reading

end Grammar

/-! ## What does not depend on places -/

namespace SyntaxError

/-- What an error says besides its place: the message, the kinds of tokens that would have been right, and the token
that was found. -/
def content (e : SyntaxError) : Text × List Token.Kind × Option (Token.Kind × Text) :=
  (e.message, e.cause.expected, e.cause.found.map Token.lexeme)

end SyntaxError

/-- What a node of a syntax tree holds besides its place. -/
def Cst.Label.content (l : Cst.Label) :
    Cst.Kind × Option (Token.Kind × Text) × Option (Text × List Token.Kind × Option (Token.Kind × Text)) :=
  (l.kind, l.token.map Token.lexeme, l.error.map SyntaxError.content)

/-- What a diagnostic says besides its place. -/
def Diagnostic.content (d : Diagnostic) : Severity × Text := (d.severity, d.message)

namespace Grammar

variable {R : Position → Position → Prop}

theorem TokenTwin.lexeme_eq {t t' : Token} (h : TokenTwin R t t') : t.lexeme = t'.lexeme := Prod.ext h.same.1 h.same.2

theorem TokenTwin.describe_eq {t t' : Token} (h : TokenTwin R t t') : t.describe = t'.describe := by
  rw [Token.describe, Token.describe, h.same.1, h.same.2]

theorem ErrorTwin.content_eq {e e' : SyntaxError} (h : ErrorTwin R e e') : e.content = e'.content := by
  obtain ⟨cause, p⟩ := e
  obtain ⟨cause', p'⟩ := e'
  obtain ⟨hcause, -⟩ := h
  dsimp only at hcause
  cases hcause with
  | plain h => rfl
  | invalidToken ht =>
    simp [SyntaxError.content, SyntaxError.message, SyntaxError.Cause.message, SyntaxError.Cause.expected,
      SyntaxError.Cause.found, ht.lexeme_eq, ht.same.2]
  | _ ht =>
    simp [SyntaxError.content, SyntaxError.message, SyntaxError.Cause.message, SyntaxError.Cause.expected,
      SyntaxError.Cause.found, ht.lexeme_eq, ht.describe_eq]

theorem label_content_eq {hR : Aligned R} {l l' : Cst.Label} (h : (alignedFrame hR).label l l') :
    l.content = l'.content := by
  obtain ⟨kind, span, token, error⟩ := l
  obtain ⟨kind', span', token', error'⟩ := l'
  obtain ⟨hkind, -, -, htoken, herror⟩ := h
  dsimp only at hkind htoken herror
  have hlexeme : token.map Token.lexeme = token'.map Token.lexeme := by
    cases htoken with
    | some ht => exact congrArg some ht.lexeme_eq
    | none => rfl
  have hcontent : error.map SyntaxError.content = error'.map SyntaxError.content := by
    cases herror with
    | some he => exact congrArg some (ErrorTwin.content_eq he)
    | none => rfl
  rw [Cst.Label.content, Cst.Label.content, hkind, hlexeme, hcontent]

theorem tree_content_eq {hR : Aligned R} {t t' : Cst} (h : (alignedFrame hR).tree t t') :
    t.map Cst.Label.content = t'.map Cst.Label.content := by
  refine Tree.Rel.fold (fun l l' ts ts' hl hts => ?_) h
  rw [List.forall₂_eq_eq_eq] at hts
  rw [label_content_eq hl, hts]

end Grammar

/-! ## Moving places -/

/-- Line and column of a position. -/
def Position.place (p : Position) : Place := ⟨p.line, p.column⟩

theorem Position.place_ne_none (p : Position) : p.place ≠ .none := by
  intro h
  have := congrArg Place.line h
  simp [place, Place.none] at this

theorem Place.before_iff {p q : Place} :
    p.before q = true ↔ p.line < q.line ∨ p.line = q.line ∧ p.column < q.column := by
  unfold before
  by_cases h : p.line = q.line <;> simp [h]

theorem Position.none_before (p : Position) : Place.none.before p.place = true := by
  rw [Place.before_iff]
  simp only [Place.none, place]
  omega

theorem Position.Before.place_before {p q : Position} (h : p.Before q) : p.place.before q.place = true := by
  have := h.place
  rw [Place.before_iff]
  simp only [Position.place]
  omega

theorem Place.not_before_of_before {p q : Place} (h : p.before q = true) : q.before p = false := by
  rw [before_iff] at h
  rw [Bool.eq_false_iff, Ne, before_iff]
  omega

theorem Place.not_before_self (p : Place) : p.before p = false := by simp [before]

section Movement

variable (R : Position → Position → Prop)

open Classical in
/-- The map of places that takes the places of one source to those of the other and leaves no others. -/
noncomputable def movement (q : Place) : Place :=
  if h : ∃ p p', R p p' ∧ p.place = q then h.choose_spec.choose.place else .none

/-- A place of the first source, or none. -/
def Known (q : Place) : Prop := q = .none ∨ ∃ p p', R p p' ∧ p.place = q

variable {R} (hR : Aligned R)

theorem movement_cases (q : Place) : movement R q = .none ∨ ∃ p p', R p p' ∧ movement R q = p'.place := by
  by_cases h : ∃ p p', R p p' ∧ p.place = q
  · exact .inr ⟨_, _, h.choose_spec.choose_spec.1, by rw [movement, dif_pos h]⟩
  · exact .inl (by rw [movement, dif_neg h])

@[simp] theorem movement_none : movement R .none = .none := by
  rw [movement, dif_neg]
  rintro ⟨p, -, -, hp⟩
  exact p.place_ne_none hp

include hR

theorem movement_place {p p' : Position} (h : R p p') : movement R p.place = p'.place := by
  have hex : ∃ q q', R q q' ∧ q.place = p.place := ⟨p, p', h, rfl⟩
  rw [movement, dif_pos hex]
  obtain ⟨hq, hplace⟩ := hex.choose_spec.choose_spec
  rcases hR hq h with ⟨-, heq⟩ | ⟨hbefore, -⟩ | ⟨hbefore, -⟩
  · rw [heq]
  · have := hbefore.place_before
    rw [hplace, Place.not_before_self] at this
    cases this
  · have := hbefore.place_before
    rw [hplace, Place.not_before_self] at this
    cases this

/-- The movement keeps the order of places. -/
theorem before_movement {p q : Place} (hp : Known R p) (hq : Known R q) :
    (movement R p).before (movement R q) = p.before q := by
  rcases hp with rfl | ⟨p, p', hp, rfl⟩ <;> rcases hq with rfl | ⟨q, q', hq, rfl⟩
  · rw [movement_none]
  · rw [movement_none, movement_place hR hq, Position.none_before, Position.none_before]
  · rw [movement_none, movement_place hR hp, Place.not_before_of_before p.none_before,
      Place.not_before_of_before p'.none_before]
  · rw [movement_place hR hp, movement_place hR hq]
    rcases hR hp hq with ⟨rfl, rfl⟩ | ⟨h, h'⟩ | ⟨h, h'⟩
    · rw [Place.not_before_self, Place.not_before_self]
    · rw [h.place_before, h'.place_before]
    · rw [Place.not_before_of_before h.place_before, Place.not_before_of_before h'.place_before]

theorem label_moved {l l' : Cst.Label} (h : (Grammar.alignedFrame hR).label l l') : l.Moved (movement R) l' := by
  obtain ⟨hkind, hfirst, -, htoken, -⟩ := h
  refine ⟨hkind.symm, (movement_place hR hfirst).symm, ?_⟩
  generalize l.token = x, l'.token = y at htoken
  cases htoken with
  | some ht => exact congrArg some ht.lexeme_eq.symm
  | none => rfl

/-- The places of the first source stay where they are. -/
theorem label_kept {l l' : Cst.Label} (h : (Grammar.alignedFrame hR).label l l') :
    l.Moved (movement fun p q => p = q ∧ ∃ p', R p p') l := by
  refine ⟨rfl, (movement_place ?_ ⟨rfl, _, h.first⟩).symm, rfl⟩
  rintro p _ q _ ⟨rfl, p', hp⟩ ⟨rfl, q', hq⟩
  rcases hR hp hq with ⟨h, -⟩ | ⟨h, -⟩ | ⟨h, -⟩
  · exact .inl ⟨h, h⟩
  · exact .inr (.inl ⟨h, h⟩)
  · exact .inr (.inr ⟨h, h⟩)

end Movement

/-! ## Validation -/

namespace Validation

/-- What some rules find in a tree, in the order of the tree. -/
def found (rules : List Rule) (t : Tree Node) : List Diagnostic := t.preorder.flatMap fun n => rules.flatMap (·.check n)

theorem found_map {g : Place → Place} (hnone : g .none = .none) (rules : List Rule) (t : Tree Node) :
    found rules (t.map (Node.relocate g)) = (found rules t).map (Diagnostic.relocate g) := by
  rw [found, found, Tree.preorder_map, List.flatMap_map, List.map_flatMap]
  congr 1
  funext n
  rw [List.map_flatMap]
  congr 1
  funext r
  exact r.check_relocate hnone n

section Related

variable {R : Position → Position → Prop} {hR : Aligned R} {t t' : Cst} (htree : (Grammar.alignedFrame hR).tree t t')

include htree

/-- Both trees stand for files, of which the second is the first one moved, or neither does. -/
theorem ofCst_related :
    Ast.Result.Rel (CompilationUnit.Moved (movement R)) (CompilationUnit.ofCst t) (CompilationUnit.ofCst t') :=
  Ast.Reading.ofCst_moved (htree.mono fun _ _ => label_moved hR)

variable {u : CompilationUnit} (hu : CompilationUnit.ofCst t = .ok u)

include hu

/-- What is found is at places of the source. -/
theorem known_of_mem_found {rules : List Rule} {d : Diagnostic} (hd : d ∈ found rules u.tree) : Known R d.place := by
  have hkept := Ast.Reading.ofCst_moved (htree.left fun _ _ => label_kept hR)
  rw [hu] at hkept
  have hunit : u = u.relocate (movement fun p q => p = q ∧ ∃ p', R p p') := by
    cases hkept with
    | ok h => exact h.eq
  rw [hunit, CompilationUnit.tree_relocate movement_none, found_map movement_none] at hd
  obtain ⟨d, -, rfl⟩ := List.mem_map.1 hd
  rcases movement_cases (R := fun p q => p = q ∧ ∃ p', R p p') d.place with h | ⟨p, _, ⟨rfl, p', hp⟩, h⟩
  · exact .inl h
  · exact .inr ⟨p, p', hp, h.symm⟩

/-- What all rules find in corresponding files is the same, in the same order. -/
theorem validate_related (file : Text) :
    (validate file u).map Diagnostic.content =
      (validate file (u.relocate (movement R))).map Diagnostic.content := by
  have hfound : List.Forall₂ (fun d d' : Diagnostic => Known R d.place ∧ d' = d.relocate (movement R))
      (found (rules file) u.tree) (found (rules file) (u.relocate (movement R)).tree) := by
    rw [CompilationUnit.tree_relocate movement_none, found_map movement_none, List.forall₂_map_right_iff,
      List.forall₂_same]
    exact fun d hd => ⟨known_of_mem_found htree hu hd, rfl⟩
  have hsorted : List.Forall₂ (fun d d' : Diagnostic => Known R d.place ∧ d' = d.relocate (movement R))
      (validate file u) (validate file (u.relocate (movement R))) := by
    refine Forall₂.mergeSort (fun a b a' b' ha hb => ?_) hfound
    obtain ⟨ha, rfl⟩ := ha
    obtain ⟨hb, rfl⟩ := hb
    rw [notAfter, notAfter, ← before_movement hR hb ha]
    rfl
  exact Forall₂.map_eq (hsorted.imp fun d d' hd => by rw [hd.2]; rfl)

end Related

end Validation

/-! ## Compilation -/

namespace Compilation

/-- The kinds of outcomes of a compilation. -/
inductive Outcome where
  | compiled | rejected | malformed | unreadable | unwritable
  deriving DecidableEq, Repr

/-- The kind of outcome that a result stands for. -/
def Result.outcome (r : Result) : Outcome :=
  match r.failure with
  | none => .compiled
  | some (.rejected ..) => .rejected
  | some (.malformed ..) => .malformed
  | some (.unreadable ..) => .unreadable
  | some (.unwritable ..) => .unwritable

/-- Results that differ at most in their sources and in the places of their diagnostics. -/
structure Result.Same (r r' : Result) : Prop where
  java : r.java = r'.java
  outcome : r.outcome = r'.outcome
  diagnostics : r.diagnostics.map Diagnostic.content = r'.diagnostics.map Diagnostic.content

theorem promote_content {ds ds' : List Diagnostic} (h : ds.map Diagnostic.content = ds'.map Diagnostic.content) :
    (Diagnostic.promote ds).map Diagnostic.content = (Diagnostic.promote ds').map Diagnostic.content := by
  have hmessages : ds.map (fun d => (Severity.error, d.message)) = ds'.map fun d => (Severity.error, d.message) := by
    simpa [Function.comp_def, Diagnostic.content] using congrArg (List.map fun c => (Severity.error, c.2)) h
  simpa [Diagnostic.promote, Function.comp_def, Diagnostic.content] using hmessages

theorem hasErrors_content {ds ds' : List Diagnostic} (h : ds.map Diagnostic.content = ds'.map Diagnostic.content) :
    Diagnostic.hasErrors ds = Diagnostic.hasErrors ds' := by
  have hcount : ∀ es : List Diagnostic,
      Diagnostic.count es .error = (es.map Diagnostic.content).countP (·.1 == .error) := by
    intro es
    rw [Diagnostic.count, List.countP_map]
    rfl
  rw [Diagnostic.hasErrors, Diagnostic.hasErrors, hcount, hcount, h]

section Parsed

variable {R : Position → Position → Prop} {hR : Aligned R} {p p' : Grammar.Parsed} (hp : Grammar.ParsedTwin hR p p')

include hp

theorem tree_content_eq : p.tree.map Cst.Label.content = p'.tree.map Cst.Label.content :=
  Grammar.tree_content_eq hp.tree

theorem errors_content_eq : p.errors.map SyntaxError.content = p'.errors.map SyntaxError.content :=
  Forall₂.map_eq (hp.errors.imp fun _ _ he => he.content_eq)

variable (disk : Disk) {options : Options} (hpath : options.searchPath = none) (file : Text)

include hpath

/-- What is found in corresponding files is the same. -/
theorem findings_content_eq {u : CompilationUnit} (hu : CompilationUnit.ofCst p.tree = .ok u) :
    (findings disk options file u).map Diagnostic.content =
      (findings disk options file (u.relocate (movement R))).map Diagnostic.content := by
  have hvalidate := Validation.validate_related hp.tree hu file
  simp only [findings, hpath, Option.map_none, Option.getD_none, List.append_nil]
  split
  · exact promote_content hvalidate
  · exact hvalidate

end Parsed

theorem parseUnit_related {s s' : Text} (h : Token.lexemes s = Token.lexemes s') :
    Grammar.ParsedTwin (Grammar.aligned_samePlaces h) (Grammar.parseUnit s) (Grammar.parseUnit s') :=
  Grammar.parse_related h Grammar.compilationUnit fun _ _ _ => inferInstance

theorem compile_same {s s' : Text} (h : Token.lexemes s = Token.lexemes s') (disk : Disk) {options : Options}
    (hpath : options.searchPath = none) (file : Text) :
    (compile disk options file s).Same (compile disk options file s') := by
  have hparsed := parseUnit_related h
  unfold compile analyze
  -- only the correspondence of the two readings is used
  revert hparsed
  generalize Grammar.parseUnit s = p
  generalize Grammar.parseUnit s' = p'
  intro hparsed
  have hunit := Validation.ofCst_related hparsed.tree
  have herrors := errors_content_eq hparsed
  dsimp only
  rw [← Forall₂.isEmpty_eq hparsed.errors]
  cases p.errors.isEmpty with
  | false =>
    refine ⟨rfl, rfl, ?_⟩
    simpa [Function.comp_def, Diagnostic.ofSyntaxError, Diagnostic.content, SyntaxError.content] using
      congrArg (List.map fun c => (Severity.error, c.1)) herrors
  | true =>
    generalize hx : CompilationUnit.ofCst p.tree = x at hunit
    generalize CompilationUnit.ofCst p'.tree = x' at hunit
    cases hunit with
    | error => exact ⟨rfl, rfl, rfl⟩
    | @ok u u' hmoved =>
      obtain rfl := hmoved.eq
      have hfindings := findings_content_eq hparsed disk hpath file hx
      simp only [↓reduceIte]
      rw [hasErrors_content hfindings]
      split
      · exact ⟨rfl, rfl, hfindings⟩
      · exact ⟨congrArg some (CompilationUnit.lower_relocate u).symm, rfl, hfindings⟩

/-- Layout does not matter: sources with the same lexemes are read to the same tree with the same errors, apart from
places, and compiled to the same Java syntax with the same kind of outcome and the same diagnostics. -/
theorem compile_of_same_lexemes {s s' : Text} (h : Token.lexemes s = Token.lexemes s') (disk : Disk) {options : Options}
    (hpath : options.searchPath = none) (file : Text) :
    (Grammar.parseUnit s).tree.map Cst.Label.content = (Grammar.parseUnit s').tree.map Cst.Label.content ∧
      (Grammar.parseUnit s).errors.map SyntaxError.content = (Grammar.parseUnit s').errors.map SyntaxError.content ∧
      (compile disk options file s).Same (compile disk options file s') :=
  ⟨tree_content_eq (parseUnit_related h), errors_content_eq (parseUnit_related h), compile_same h disk hpath file⟩

/-- Blanks and comments around every token, also inside closing angles that are read one by one. -/
theorem compile_of_spread_class :
    Token.lexemes "class A\x7bB<C<D>>x;\x7d" = Token.lexemes " class\tA\n\x7b /* f */ B<C<D>> x; // g\n\x7d" ∧
      (compile (Disk.empty []) .plain "A.kite" "class A\x7bB<C<D>>x;\x7d").Same
        (compile (Disk.empty []) .plain "A.kite" " class\tA\n\x7b /* f */ B<C<D>> x; // g\n\x7d") := by
  have h : Token.lexemes "class A\x7bB<C<D>>x;\x7d" =
      Token.lexemes " class\tA\n\x7b /* f */ B<C<D>> x; // g\n\x7d" := by
    decide +kernel
  exact ⟨h, (compile_of_same_lexemes h (Disk.empty []) rfl "A.kite").2.2⟩

end Compilation

end KiteCompiler
