import KiteCompiler.Proofs.Lexing.Rescan
import KiteCompiler.Proofs.Lexing.Tiling
import KiteCompiler.Proofs.Pieces

/-!
# Tokens delimit themselves

`Cut ls s` says that the lexemes `ls` are found in `s` one behind the other, up to its end; then they are what the lexer
makes of it (`Cut.map_lexeme_lexFrom`). No kind of token goes on over a blank (`stopsAt_blank`), so tokens with a blank
between any two of them are cut out again as they are (`cut_spaced`).
-/

namespace KiteCompiler.Token

open Text (byte)

/-! ## Texts cut into lexemes -/

/-- The lexemes that the text is made of, each one being found in front of what is left. -/
inductive Cut : List Lexeme → Text → Prop
  | nil : Cut [] []
  | cons {k : Kind} {t s : Text} {ls : List Lexeme} (hne : t ≠ []) (hscan : scan (t ++ s) = (k, t.length))
      (hrest : Cut ls s) : Cut ((k, t) :: ls) (t ++ s)

theorem lexFrom_append {k : Kind} {t s : Text} (hne : t ≠ []) (hscan : scan (t ++ s) = (k, t.length)) (fuel : Nat)
    (p : Position) : lexFrom (fuel + 1) p (t ++ s) = ⟨k, t, ⟨p, p.after t⟩⟩ :: lexFrom fuel (p.after t) s := by
  cases t with
  | nil => exact absurd rfl hne
  | cons b t =>
    rw [List.cons_append] at hscan ⊢
    rw [lexFrom_cons, front, hscan, ← List.cons_append, List.take_left, List.drop_left]

/-- The lexer finds the lexemes that a text is cut into. -/
theorem Cut.map_lexeme_lexFrom {ls : List Lexeme} {s : Text} (h : Cut ls s) {fuel : Nat} (hfuel : s.length ≤ fuel)
    (p : Position) : (lexFrom fuel p s).map lexeme = ls ++ [(.eof, [])] := by
  induction h generalizing fuel p with
  | nil => rw [lexFrom_nil]; rfl
  | @cons k t s ls hne hscan _ ih =>
    have hpos := List.length_pos_iff.2 hne
    rw [List.length_append] at hfuel
    obtain ⟨fuel, rfl⟩ : ∃ n, fuel = n + 1 := ⟨fuel - 1, by omega⟩
    rw [lexFrom_append hne hscan, List.map_cons, ih (by omega)]
    rfl

/-! ## Solid lexemes -/

/-- The kinds of tokens that are no part of a program. -/
def Kind.loose : List Kind := [.lineComment, .comment, .whitespace, .error]

/-- A lexeme that the lexer makes and that is neither layout nor an error. -/
structure Solid (l : Lexeme) : Prop where
  genuine : Genuine l
  kind : l.1 ∉ Kind.loose

theorem not_mem_loose {k : Kind} (hlayout : (!k.isLayout) = true) (herror : k ≠ .error) : k ∉ Kind.loose := by
  revert k
  intro k
  cases k <;> decide

theorem scan_blank {b : UInt8} (hb : isSpace b = true) (s : Text) :
    scan (b :: s) = (.whitespace, 1 + (s.takeWhile isSpace).length) := by
  have hslash : (b == byte '/') = false :=
    beq_false_of_ne fun h => absurd hb (by rw [h]; decide)
  simp [scan, hslash, hb, Nat.add_comm]

theorem Solid.ne_nil {l : Lexeme} (h : Solid l) : l.2 ≠ [] := by
  obtain ⟨⟨s, rfl⟩, hkind⟩ := h
  cases s with
  | nil => exact absurd (by decide) hkind
  | cons b s => exact front_text_ne_nil .start b s

theorem Solid.scan_append {l : Lexeme} (h : Solid l) {s : Text} (hs : ∀ b ∈ s.head?, l.1.stopsAt b = true) :
    scan (l.2 ++ s) = (l.1, l.2.length) :=
  h.genuine.scan_append h.kind hs

/-- No token of a program starts with a blank. -/
theorem Solid.head {l : Lexeme} (h : Solid l) {b : UInt8} (hb : b ∈ l.2.head?) : isSpace b = false := by
  by_contra hspace
  have hscan := h.scan_append (s := []) (fun _ h => nomatch h)
  obtain ⟨t, ht⟩ : ∃ t, l.2 = b :: t := List.head?_eq_some_iff.1 hb
  rw [List.append_nil, ht, scan_blank (Bool.not_eq_false _ ▸ hspace)] at hscan
  have hkind : l.1 = .whitespace := (congrArg Prod.fst hscan).symm
  exact h.kind (by rw [hkind]; decide)

/-- No kind of token goes on over a blank. -/
theorem stopsAt_blank (k : Kind) : k.stopsAt (byte ' ') = true := by
  have hpunctuation : ∀ k ∈ Kind.punctuation, extendsPunctuation k (byte ' ') = false := by decide +kernel
  unfold Kind.stopsAt
  split
  · rfl
  split
  · decide
  split
  · rw [hpunctuation k ‹_›]
    rfl
  · decide

/-! ## Blanks between lexemes -/

/-- A single blank. -/
def blank : Lexeme := (.whitespace, [byte ' '])

theorem Cut.blank {ls : List Lexeme} {s : Text} (h : Cut ls s) (hs : ∀ b ∈ s.head?, isSpace b = false) :
    Cut (blank :: ls) (byte ' ' :: s) := by
  refine Cut.cons (t := [byte ' ']) (List.cons_ne_nil _ _) ?_ h
  change scan (byte ' ' :: s) = _
  rw [scan_blank (by decide)]
  cases s with
  | nil => rfl
  | cons b s => rw [List.takeWhile_cons, hs b rfl]; rfl

theorem Cut.solid {l : Lexeme} {ls : List Lexeme} {s : Text} (h : Cut ls s) (hl : Solid l)
    (hs : ∀ b ∈ s.head?, b = byte ' ') : Cut (l :: ls) (l.2 ++ s) :=
  .cons hl.ne_nil (hl.scan_append fun b hb => hs b hb ▸ stopsAt_blank l.1) h

/-- The lexer finds a lexeme again in its bytes alone. -/
theorem Solid.lex_alone {l : Lexeme} (h : Solid l) : (lex l.2).map lexeme = [l, (.eof, [])] := by
  have hcut := Cut.nil.solid h fun _ hb => nomatch hb
  rw [List.append_nil] at hcut
  exact hcut.map_lexeme_lexFrom (Nat.le_refl _) .start

/-- Lexemes with a blank before each, and `trail` behind them. -/
def spaced (trail ls : List Lexeme) : List Lexeme := ls.foldr (fun l rest => blank :: l :: rest) trail

section

variable {trail ls : List Lexeme} (htrail : trail = [] ∨ trail = [blank])

include htrail

theorem head_spaced {b : UInt8} (h : b ∈ ((spaced trail ls).flatMap Prod.snd).head?) : b = byte ' ' := by
  cases ls with
  | nil =>
    rcases htrail with rfl | rfl
    · cases h
    · exact (Option.some.inj h).symm
  | cons l ls => exact (Option.some.inj h).symm

/-- A blank before each token, and maybe one at the end, keeps tokens apart. -/
theorem cut_spaced (h : ∀ l ∈ ls, Solid l) : Cut (spaced trail ls) ((spaced trail ls).flatMap Prod.snd) := by
  induction ls with
  | nil =>
    rcases htrail with rfl | rfl
    · exact .nil
    · exact Cut.nil.blank fun _ h => nomatch h
  | cons l ls ih =>
    obtain ⟨hl, hls⟩ := List.forall_mem_cons.1 h
    refine ((ih hls).solid hl fun b => head_spaced htrail).blank fun b hb => hl.head ?_
    rwa [List.head?_append_of_ne_nil _ hl.ne_nil] at hb

theorem filter_spaced (h : ∀ l ∈ ls, Solid l) : (spaced trail ls).filter (·.1 != .whitespace) = ls := by
  induction ls with
  | nil => rcases htrail with rfl | rfl <;> rfl
  | cons l ls ih =>
    obtain ⟨hl, hls⟩ := List.forall_mem_cons.1 h
    have hkind : l.1 ≠ .whitespace := fun hk => hl.kind (by rw [hk]; decide)
    change (Token.blank :: l :: spaced trail ls).filter _ = _
    simp [Token.blank, hkind, ih hls]

end

theorem flatMap_spaced (trail ls : List Lexeme) : (spaced trail ls).flatMap Prod.snd =
    (ls.map Prod.snd).flatMap ((" " : Text) ++ ·) ++ trail.flatMap Prod.snd := by
  induction ls with
  | nil => rfl
  | cons l ls ih =>
    change byte ' ' :: (l.2 ++ (spaced trail ls).flatMap Prod.snd) = _
    rw [ih, ← List.append_assoc]
    rfl

/-! ## Sources without errors -/

/-- What a source consists of besides blanks. -/
def unspaced (source : Text) : List Lexeme := ((lex source).map lexeme).filter (·.1 != .whitespace)

theorem unspaced_spaced {trail : List Lexeme} (htrail : trail = [] ∨ trail = [blank]) {l : Lexeme} {ls : List Lexeme}
    (h : ∀ m ∈ l :: ls, Solid m) : unspaced (l.2 ++ (spaced trail ls).flatMap Prod.snd) = l :: ls ++ [(.eof, [])] := by
  obtain ⟨hl, hls⟩ := List.forall_mem_cons.1 h
  have hcut := (cut_spaced htrail hls).solid hl fun b => head_spaced htrail
  have hkind : (l.1 != .whitespace) = true := bne_iff_ne.2 fun hk => hl.kind (by rw [hk]; decide)
  rw [unspaced, lex, hcut.map_lexeme_lexFrom (Nat.le_refl _), List.filter_append,
    List.filter_cons_of_pos (p := fun l : Lexeme => l.1 != .whitespace) hkind, filter_spaced htrail hls]
  rfl

/-- Tokens with a blank between any two of them are found again, -/
theorem unspaced_join {ls : List Lexeme} (h : ∀ l ∈ ls, Solid l) :
    unspaced (Text.join " " (ls.map Prod.snd)) = ls ++ [(.eof, [])] := by
  cases ls with
  | nil => rfl
  | cons l ls =>
    have hjoin := unspaced_spaced (.inl rfl) h
    rwa [flatMap_spaced, List.flatMap_nil, List.append_nil, ← Text.join_cons] at hjoin

/-- also if the empty end of file is joined to them. -/
theorem unspaced_join_concat {ls : List Lexeme} (h : ∀ l ∈ ls, Solid l) :
    unspaced (Text.join " " ((ls ++ [(Kind.eof, [])]).map Prod.snd)) = ls ++ [(.eof, [])] := by
  cases ls with
  | nil => rfl
  | cons l ls =>
    have hjoin := unspaced_spaced (.inr rfl) h
    rw [flatMap_spaced] at hjoin
    rw [List.cons_append, List.map_cons, Text.join_cons, List.map_append, List.flatMap_append]
    exact hjoin

theorem lexemes_eq_append {source : Text} (h : ∀ t ∈ lex source, t.kind ≠ .error) :
    ∃ ls, lexemes source = ls ++ [(.eof, [])] ∧ ∀ l ∈ ls, Solid l := by
  obtain ⟨body, e, hlex, he, hbody⟩ := lex_eq_append source
  have htext : e.text = [] := by
    have hmem : e ∈ lexFrom source.length .start source := by
      change e ∈ lex source
      rw [hlex]
      exact List.mem_append_right _ (List.mem_singleton.2 rfl)
    exact ((text_ne_nil_of_mem_lexFrom hmem).resolve_right fun hne => hne.1 he).2
  refine ⟨(body.filter (!·.kind.isLayout)).map lexeme, ?_, fun l hl => ?_⟩
  · have hlast : e.lexeme = (.eof, []) := by rw [lexeme, he, htext]
    have hlayout : e.kind.isLayout = false := by rw [he]; rfl
    rw [lexemes, significant, hlex, List.filter_append, List.map_append, List.filter_singleton, hlayout]
    rw [← hlast]
    rfl
  · obtain ⟨t, ht, rfl⟩ := List.mem_map.1 hl
    obtain ⟨hmem, hkind⟩ := List.mem_filter.1 ht
    have hsource : t ∈ lex source := hlex ▸ List.mem_append_left _ hmem
    exact ⟨(genuine_of_mem_lexFrom hsource).resolve_left (hbody t hmem), not_mem_loose hkind (h t hsource)⟩

/-- Tokens delimit themselves: a source without errors has the same tokens as their texts with single blanks between
them, whether the empty text of the end of file is one of these or not. -/
theorem unspaced_join_lexemes (source : Text) (h : ∀ t ∈ lex source, t.kind ≠ .error) :
    unspaced (Text.join " " ((lexemes source).map Prod.snd)) = lexemes source ∧
      unspaced (Text.join " " ((lexemes source).dropLast.map Prod.snd)) = lexemes source := by
  obtain ⟨ls, hls, hsolid⟩ := lexemes_eq_append h
  rw [hls, List.dropLast_concat]
  exact ⟨unspaced_join_concat hsolid, unspaced_join hsolid⟩

/-- A suffixed number, a comment between operators and a run of `>`. -/
theorem unspaced_join_lexemes_shift :
    (∀ t ∈ lex "1.f+/*c*/+x>>>>0x1p-3", t.kind ≠ .error) ∧
      unspaced "1.f + + x >>> > 0x1p-3" = lexemes "1.f+/*c*/+x>>>>0x1p-3" := by
  have h : ∀ t ∈ lex "1.f+/*c*/+x>>>>0x1p-3", t.kind ≠ .error := by decide +kernel
  have hjoin : Text.join " " ((lexemes "1.f+/*c*/+x>>>>0x1p-3").dropLast.map Prod.snd) =
      ("1.f + + x >>> > 0x1p-3" : Text) := by decide +kernel
  exact ⟨h, hjoin ▸ (unspaced_join_lexemes _ h).2⟩

end KiteCompiler.Token
