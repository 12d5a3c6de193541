import KiteCompiler.Layout
import KiteCompiler.Proofs.Lexing.Words

/-!
# Documents that keep their words

The width of a page decides on line breaks in lists and, through the pen, on which margins are due. Neither changes the
words of a document if its lists stand in parentheses, its margins behind blanks, and its texts are tame (`Settled`):
any two settings of it can stand for each other in a text (`Settled.alike`).
-/

namespace KiteCompiler.Doc

open Token (Lexeme Tame Rested isSpace isHard words words_append words_space words_separator)
open Text (byte)

/-- Documents whose setting does not change their words. `p` says that they need a blank before them, unless they come
first; `q` that they then end with one. -/
inductive Settled : Bool → Bool → Doc → Prop
  | text {p : Bool} {t : Text} (ht : Tame t) : Settled p false (text t)
  | blank {p : Bool} {t : Text} (ht : Tame t) (hne : t ≠ []) (hrested : Rested t) : Settled p true (text t)
  | empty {p : Bool} : Settled p p empty
  | newline {p : Bool} : Settled p true newline
  | margin : Settled true true margin
  | nest {p q : Bool} {levels : Nat} {d : Doc} (h : Settled p q d) : Settled p q (nest levels d)
  | append {p q r : Bool} {d e : Doc} (hd : Settled p q d) (he : Settled q r e) : Settled p r (d ++ e)
  | enclosed {p : Bool} {hang reserve : Nat} {items : List Doc} (h : ∀ d ∈ items, Settled false false d) :
      Settled p false ("(" ++ list hang reserve items ++ ")")
  | loosen {p : Bool} {d : Doc} (h : Settled p true d) : Settled p false d

/-- Texts of the printer itself. -/
theorem Settled.fixed {p : Bool} {t : Text} (ht : Token.isPlain t = true := by decide) : Settled p false (.text t) :=
  .text (.of_isPlain ht)

/-- The first text can be replaced by the second one in a tame text, behind a blank if `p` says so. It then ends with a
blank if `q` says so. -/
structure Alike (p q : Bool) (t u : Text) : Prop where
  tame : Tame t
  rested {before : Text} (hbefore : p = true → Rested before) (hq : q = true) : Rested (before ++ t)
  words {before : Text} (htame : Tame before) (hbefore : p = true → Rested before) (behind : Text) :
    words (before ++ (t ++ behind)) = words (before ++ (u ++ behind))

theorem Alike.append {p q r : Bool} {t t' u u' : Text} (ht : Alike p q t t') (hu : Alike q r u u') :
    Alike p r (t ++ u) (t' ++ u') where
  tame := ht.tame.append hu.tame
  rested {before} hbefore hr := by
    rw [← List.append_assoc]
    exact hu.rested (ht.rested hbefore) hr
  words {before} htame hbefore behind := by
    have hsecond := hu.words (htame.append ht.tame) (ht.rested hbefore) behind
    have hfirst := ht.words htame hbefore (u' ++ behind)
    rw [List.append_assoc, List.append_assoc] at hsecond
    rw [List.append_assoc, List.append_assoc, hsecond, hfirst]

/-! ## Blanks -/

theorem isSpace_of_mem_setMargin {b : UInt8} {indent : Nat} {pen : Pen} (h : b ∈ (setMargin indent pen).1) :
    isSpace b = true := by
  unfold setMargin at h
  split at h
  · rw [List.eq_of_mem_replicate h]
    decide
  · cases h

theorem tame_of_blanks {t : Text} (h : ∀ b ∈ t, isSpace b = true) : Tame t := by
  have hplain : ∀ b, isSpace b = true → b ∉ [byte '"', byte '\'', byte '/'] := Token.forall_byte (by decide +kernel)
  exact .of_plain fun b hb => hplain b (h b hb)

theorem words_blanks {t : Text} (h : ∀ b ∈ t, isSpace b = true) (s : Text) : words (t ++ s) = words s := by
  induction t with
  | nil => rfl
  | cons b t ih =>
    rw [List.forall_mem_cons] at h
    rw [List.cons_append, words_space h.1, ih h.2]

theorem rested_append {t s : Text} (h : Rested s) (ht : s = [] → Rested t) : Rested (t ++ s) := by
  intro b hb
  rw [List.getLast?_append] at hb
  cases hlast : s.getLast? with
  | none =>
    rw [hlast] at hb
    exact ht (List.getLast?_eq_none_iff.1 hlast) b hb
  | some c =>
    rw [hlast] at hb
    exact h b (hlast.trans hb)

theorem rested_of_blanks {t : Text} (h : ∀ b ∈ t, isSpace b = true) : Rested t :=
  fun b hb => h b (List.mem_of_getLast? hb)

/-! ## Lists -/

/-- The words of items with commas between them. -/
def itemWords : List Doc → List Lexeme
  | [] => []
  | [d] => words (render 0 0 d Pen.start).1
  | d :: ds => words (render 0 0 d Pen.start).1 ++ (Token.Kind.comma, Text.ofString ",") :: itemWords ds

theorem words_comma (s : Text) : words (byte ',' :: s) = (Token.Kind.comma, Text.ofString ",") :: words s :=
  words_separator (k := .comma) (by decide) s

/-- The words of an item end with the comma or parenthesis behind it. -/
theorem words_item {d : Doc} (h : ∀ w w' i i' pen pen', Alike false false (render w i d pen).1 (render w' i' d pen').1)
    (w i : Nat) (pen : Pen) {b : UInt8} (hb : isHard b = true) (s : Text) :
    words ((render w i d pen).1 ++ b :: s) = words (render 0 0 d Pen.start).1 ++ words (b :: s) := by
  have halike := h w 0 i 0 pen Pen.start
  have hsame := halike.words .nil (fun h => nomatch h) []
  rw [List.nil_append, List.nil_append, List.append_nil, List.append_nil] at hsame
  rw [words_append halike.tame (.inr ⟨b, rfl, hb⟩), hsame]

section

variable {items : List Doc}
  (h : ∀ d ∈ items, ∀ w w' i i' pen pen', Alike false false (render w i d pen).1 (render w' i' d pen').1)

include h

theorem words_renderItems (w i : Nat) (pen : Pen) : Tame (renderItems w i items pen).1 ∧
    ∀ s, words ((renderItems w i items pen).1 ++ byte ')' :: s) = itemWords items ++ words (byte ')' :: s) := by
  induction items generalizing pen with
  | nil => exact ⟨.nil, fun _ => rfl⟩
  | cons d ds ih =>
    rw [List.forall_mem_cons] at h
    cases ds with
    | nil => exact ⟨(h.1 w w i i pen pen).tame, words_item h.1 w i pen (by decide)⟩
    | cons e ds =>
      obtain ⟨htame, hwords⟩ := ih h.2 ((render w i d pen).2.after ", ")
      have htext : (renderItems w i (d :: e :: ds) pen).1 = (render w i d pen).1 ++
          byte ',' :: byte ' ' :: (renderItems w i (e :: ds) ((render w i d pen).2.after ", ")).1 :=
        List.append_assoc _ _ _
      rw [htext]
      refine ⟨(h.1 w w i i pen pen).tame.append (.separator (by decide) (.separator (by decide) htame)), fun s => ?_⟩
      rw [List.append_assoc, List.cons_append, List.cons_append, words_item h.1 w i pen (by decide), words_comma,
        words_space (by decide), hwords]
      exact (List.append_assoc _ (_ :: _) _).symm

theorem words_renderLines (w i : Nat) (pen : Pen) : Tame (renderLines w i items pen).1 ∧
    ∀ s, words ((renderLines w i items pen).1 ++ s) = itemWords items ++ words s := by
  induction items generalizing pen with
  | nil => exact ⟨.nil, fun _ => rfl⟩
  | cons d ds ih =>
    rw [List.forall_mem_cons] at h
    have hmargin (b : UInt8) : b ∈ (setMargin i pen).1 → isSpace b = true := isSpace_of_mem_setMargin
    have htame := h.1 w w i i (setMargin i pen).2 pen
    have hitem {b : UInt8} (hb : isHard b = true) (s : Text) := words_item h.1 w i (setMargin i pen).2 hb s
    obtain ⟨hrest, hwords⟩ := ih h.2 Pen.start
    cases ds with
    | nil =>
      have htext : (renderLines w i [d] pen).1 = (setMargin i pen).1 ++ (render w i d (setMargin i pen).2).1 ++ [10] :=
        List.append_nil _
      rw [htext, List.append_assoc]
      refine ⟨(tame_of_blanks hmargin).append (htame.tame.append (.separator (by decide) .nil)), fun s => ?_⟩
      rw [List.append_assoc, words_blanks hmargin, List.append_assoc, List.singleton_append, hitem (by decide),
        words_space (by decide)]
      rfl
    | cons e ds =>
      have htext : (renderLines w i (d :: e :: ds) pen).1 = (setMargin i pen).1 ++
          (render w i d (setMargin i pen).2).1 ++ [byte ',', 10] ++ (renderLines w i (e :: ds) Pen.start).1 := rfl
      rw [htext, List.append_assoc, List.append_assoc]
      refine ⟨(tame_of_blanks hmargin).append (htame.tame.append
        (.separator (by decide) (.separator (by decide) hrest))), fun s => ?_⟩
      rw [List.append_assoc, words_blanks hmargin, List.append_assoc, List.cons_append, List.cons_append,
        List.cons_append, List.cons_append, hitem (by decide), words_comma, words_space (by decide), List.nil_append,
        hwords]
      exact (List.append_assoc _ (_ :: _) _).symm

theorem words_renderList (w i hang reserve : Nat) (pen : Pen) : Tame (render w i (list hang reserve items) pen).1 ∧
    ∀ s, words ((render w i (list hang reserve items) pen).1 ++ byte ')' :: s) = itemWords items ++ words
    (byte ')' :: s) := by
  rw [render]
  split
  · obtain ⟨htame, hwords⟩ := words_renderLines h w (i + hang) Pen.start
    have hmargin (b : UInt8) : b ∈ (setMargin i (renderLines w (i + hang) items Pen.start).2).1 → isSpace b = true :=
      isSpace_of_mem_setMargin
    refine ⟨.separator (by decide) (htame.append (tame_of_blanks hmargin)), fun s => ?_⟩
    dsimp only
    rw [List.cons_append, List.cons_append, words_space (by decide), List.append_assoc, hwords, words_blanks hmargin]
  · exact words_renderItems h w i pen

end

theorem Settled.alike {p q : Bool} {d : Doc} (h : Settled p q d) (w w' i i' : Nat) (pen pen' : Pen) :
    Alike p q (render w i d pen).1 (render w' i' d pen').1 := by
  induction h generalizing w w' i i' pen pen' with
  | text ht => exact ⟨ht, fun _ h => (nomatch h), fun _ _ _ => rfl⟩
  | blank ht hne hrested => exact ⟨ht, fun _ _ => rested_append hrested fun h => absurd h hne, fun _ _ _ => rfl⟩
  | empty =>
    refine ⟨.nil, fun h hq => ?_, fun _ _ _ => rfl⟩
    rw [show (render w i Doc.empty pen).1 = [] from rfl, List.append_nil]
    exact h hq
  | newline =>
    have hspace : ∀ b ∈ ([10] : Text), isSpace b = true := List.all_eq_true.1 (by decide)
    exact ⟨tame_of_blanks hspace, fun _ _ => rested_append (rested_of_blanks hspace) (nomatch ·), fun _ _ _ => rfl⟩
  | margin =>
    refine ⟨tame_of_blanks fun _ => isSpace_of_mem_setMargin, fun h _ => ?_, fun htame h behind => ?_⟩
    · exact rested_append (rested_of_blanks fun _ => isSpace_of_mem_setMargin) fun _ => h rfl
    · rw [words_append htame (.inl (h rfl)), words_append htame (.inl (h rfl))]
      rw [render, render, words_blanks fun _ => isSpace_of_mem_setMargin, words_blanks fun _ =>
        isSpace_of_mem_setMargin]
  | nest _ ih => exact ih w w' _ _ pen pen'
  | append _ _ ihd ihe => exact (ihd w w' i i' pen pen').append (ihe w w' i i' _ _)
  | @enclosed p hang reserve items _ ih =>
    have hrender (w i : Nat) (pen : Pen) : (render w i ("(" ++ list hang reserve items ++ ")") pen).1 =
        byte '(' :: ((render w i (list hang reserve items) (pen.after "(")).1 ++ [byte ')']) := rfl
    have htext (w i : Nat) (pen : Pen) := words_renderList ih w i hang reserve (pen.after "(")
    rw [hrender, hrender]
    refine ⟨.separator (by decide) ((htext w i pen).1.append (.separator (by decide) .nil)), fun _ h => (nomatch h), ?_⟩
    intro before htame _ behind
    have hwords (w i : Nat) (pen : Pen) := words_separator (k := .lparen) (by decide)
      ((render w i (list hang reserve items) (pen.after "(")).1 ++ byte ')' :: behind)
    simp only [List.cons_append, List.append_assoc, List.nil_append]
    rw [words_append htame (.inr ⟨_, rfl, by decide⟩), words_append htame (.inr ⟨_, rfl, by decide⟩)]
    refine congrArg _ ((hwords w i pen).trans (Eq.trans ?_ (hwords w' i' pen').symm))
    rw [(htext w i pen).2, (htext w' i' pen').2]
  | loosen _ ih =>
    obtain ⟨htame, _, hwords⟩ := ih w w' i i' pen pen'
    exact ⟨htame, fun _ h => (nomatch h), hwords⟩

/-- The width of the page does not change the words on it. -/
theorem Settled.words_page {q : Bool} {d : Doc} (h : Settled true q d) (w w' : Nat) :
    words (page w d) = words (page w' d) := by
  have hwords := (h.alike w w' 0 0 Pen.start Pen.start).words .nil (fun _ _ hb => nomatch hb) []
  simpa [page] using hwords

end KiteCompiler.Doc
