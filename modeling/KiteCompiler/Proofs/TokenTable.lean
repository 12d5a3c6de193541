import KiteCompiler.Proofs.Lexing.Delimiting
import KiteCompiler.Proofs.Parsing.Start

/-!
# The token table

While a source is read, its tokens change in one way only: an angle bracket is split off the front of one. What is left
of it is again a token of the source (`FoundIn.shortened`): it has the bytes at its place, and is what the lexer makes
of these bytes. So whatever steps are taken from the start on, the table stays `Faithful` to the source.
-/

namespace KiteCompiler

theorem Position.offset_after (p : Position) (t : Text) : (p.after t).offset = p.offset + t.length := by
  induction t generalizing p with
  | nil => rfl
  | cons b t ih =>
    change ((p.next b).after t).offset = _
    rw [ih, next, List.length_cons]
    split <;> (dsimp only; omega)

namespace Token

/-- The token has the bytes of the source at its place, and the lexer makes this token of them. -/
structure FoundIn (source : Text) (t : Token) : Prop where
  place : ∃ before after, source = before ++ t.text ++ after ∧
    t.span = ⟨.inSource source before.length, .inSource source (before.length + t.text.length)⟩
  alone : t.kind ≠ .eof → (lex t.text).map lexeme = [t.lexeme, (.eof, [])]

variable {source : Text} {t t' : Token} {k : Kind}

theorem FoundIn.genuine (h : t.FoundIn source) (ht : t.kind ≠ .eof) : Genuine t.lexeme := by
  have hmem : t.lexeme ∈ (lex t.text).map lexeme := h.alone ht ▸ List.mem_cons_self
  obtain ⟨u, hu, hlexeme⟩ := List.mem_map.1 hmem
  have hkind : u.kind = t.kind := congrArg Prod.fst hlexeme
  exact hlexeme ▸ (genuine_of_mem_lexFrom hu).resolve_left (hkind ▸ ht)

theorem FoundIn.last_offset (h : t.FoundIn source) : t.span.last.offset = t.span.first.offset + t.text.length := by
  obtain ⟨before, after, -, hspan⟩ := h.place
  rw [hspan]
  rfl

open Grammar

/-- What is left of a token when an angle bracket is split off. -/
theorem FoundIn.cutFirst (h : t.FoundIn source) (hk : afterAngle t.kind = some k) : (cutFirst t k).FoundIn source := by
  obtain ⟨heof, -⟩ := State.afterAngle_ne_eof hk
  obtain ⟨hdrop, hlength⟩ := label_afterAngle hk
  have htext : t.text = t.kind.label := (h.genuine heof).punctuation (mem_punctuation_of_afterAngle hk)
  obtain ⟨b, rest, hlabel⟩ := List.exists_cons_of_length_pos (Nat.lt_of_succ_lt hlength)
  have hrest : t.text.drop 1 = rest := by rw [htext, hlabel]; rfl
  have hnewline : Text.byte '\n' ∉ [b] := fun hmem =>
    newline_not_mem_of_afterAngle hk (hlabel ▸ List.mem_cons.2 (.inl (List.mem_singleton.1 hmem)))
  refine ⟨?_, fun _ => ?_⟩
  · obtain ⟨before, after, hsource, hspan⟩ := h.place
    rw [htext, hlabel] at hsource hspan
    have hmoved : source = (before ++ [b]) ++ rest ++ after := by simpa using hsource
    refine ⟨before ++ [b], after, by rw [Grammar.cutFirst, hrest, hmoved], ?_⟩
    have hfirst : Position.inSource source before.length = Position.start.after before := by
      rw [hsource, List.append_assoc]
      exact Position.inSource_append _ _
    have hnext : Position.inSource source (before ++ [b]).length = Position.start.after (before ++ [b]) := by
      rw [hmoved, List.append_assoc]
      exact Position.inSource_append _ _
    rw [Grammar.cutFirst, hspan, hnext, hfirst, Position.after_append, Position.after_eq_right _ hnewline, hrest]
    simp [Nat.add_assoc, Nat.add_comm 1]
  · have hsolid : Solid (k, k.label) := by
      refine ⟨State.genuine_afterAngle hk, ?_⟩
      unfold afterAngle at hk
      split at hk <;> cases hk <;> decide
    rw [Grammar.cutFirst, lexeme, htext, hdrop]
    exact hsolid.lex_alone

/-- What is left of a token is found in the source behind its start, and ends where it ended. -/
theorem FoundIn.shortened (h : t.FoundIn source) (hshort : Shortened t t') :
    t'.FoundIn source ∧ t.span.first.offset ≤ t'.span.first.offset ∧ t'.span.last = t.span.last ∧
      (t'.kind = .eof ↔ t.kind = .eof) := by
  induction hshort with
  | refl => exact ⟨h, Nat.le_refl _, rfl, Iff.rfl⟩
  | tail _ hcut ih =>
    obtain ⟨hfound, hfirst, hlast, hkind⟩ := ih
    obtain ⟨k, hk, rfl⟩ := hcut
    obtain ⟨heof, heof'⟩ := State.afterAngle_ne_eof hk
    exact ⟨hfound.cutFirst hk, Nat.le_succ_of_le hfirst, hlast, fun hk => absurd hk heof', fun ht =>
      absurd (hkind.2 ht) heof⟩

theorem foundIn_of_mem_good (ht : t ∈ good (lex source)) : t.FoundIn source := by
  obtain ⟨hmem, herror⟩ := List.mem_filter.1 ht
  obtain ⟨hmem, hlayout⟩ := List.mem_filter.1 hmem
  obtain ⟨before, after, hlex⟩ := List.append_of_mem hmem
  refine ⟨⟨before.flatMap text, after.flatMap text, ?_, ?_⟩, fun heof => ?_⟩
  · have hsource : (lex source).flatMap text = source := flatMap_text_lexFrom (Nat.le_refl _)
    rw [List.append_assoc, ← List.flatMap_cons, ← List.flatMap_append, ← hlex, hsource]
  · obtain ⟨hfirst, hlast⟩ := places_lex hlex
    rw [← hfirst, ← hlast]
  · refine Solid.lex_alone ⟨(genuine_of_mem_lexFrom hmem).resolve_left heof, not_mem_loose hlayout ?_⟩
    exact fun hkind : t.kind = _ => absurd herror (by rw [hkind]; decide)

end Token

namespace Grammar

/-- The tokens are those of a source, in its order, and the end of file is the last of them and no other one. -/
structure Faithful (source : Text) (tokens : Array Token) : Prop where
  nonempty : 0 < tokens.size
  eof_iff : ∀ (i : Nat) (t : Token), tokens[i]? = some t → (t.kind = .eof ↔ i + 1 = tokens.size)
  ordered : ∀ (i j : Nat) (t u : Token), i < j → tokens[i]? = some t → tokens[j]? = some u →
    t.span.last.offset ≤ u.span.first.offset
  found : ∀ (i : Nat) (t : Token), tokens[i]? = some t → t.FoundIn source

variable {source : Text} {s s' : State}

theorem faithful_initial (source : Text) : Faithful source (initial (Token.lex source)).tokens := by
  have hready := initial_ready source
  have hmem {i : Nat} {t : Token} (ht : (initial (Token.lex source)).tokens[i]? = some t) :
      t ∈ good (Token.lex source) := by
    rw [tokens_initial, List.getElem?_toArray] at ht
    exact List.mem_of_getElem? ht
  refine ⟨Nat.lt_of_le_of_lt (Nat.zero_le _) hready.pos_lt, hready.eof_iff, fun i j t u hij ht hu => ?_,
    fun i t ht => Token.foundIn_of_mem_good (hmem ht)⟩
  have hfollows : (good (Token.lex source)).Pairwise Token.Follows :=
    (Token.lexFrom_follows _ _ _).sublist (List.filter_sublist.trans List.filter_sublist)
  have hlast := (Token.foundIn_of_mem_good (hmem ht)).last_offset
  rw [tokens_initial, List.getElem?_toArray] at ht hu
  obtain ⟨hi, rfl⟩ := List.getElem?_eq_some_iff.1 ht
  obtain ⟨hj, rfl⟩ := List.getElem?_eq_some_iff.1 hu
  obtain ⟨-, w, hw⟩ := List.pairwise_iff_getElem.1 hfollows i j hi hj hij
  rw [hlast, hw, Position.offset_after, List.length_append]
  omega

/-- Steps of reading keep the tokens those of the source. -/
theorem Faithful.reaches (h : Faithful source s.tokens) (hreaches : Reaches s s') : Faithful source s'.tokens := by
  have hbefore {i : Nat} {t' : Token} (ht' : s'.tokens[i]? = some t') :
      ∃ t, s.tokens[i]? = some t ∧ t.FoundIn source ∧ Shortened t t' := by
    have hi : i < s.tokens.size := hreaches.size ▸ (Array.getElem?_eq_some_iff.1 ht').1
    have ht := Array.getElem?_eq_getElem hi
    obtain ⟨t₁, ht₁, hshort⟩ := hreaches.shortened ht
    rw [ht', Option.some.injEq] at ht₁
    exact ⟨_, ht, h.found i _ ht, ht₁ ▸ hshort⟩
  refine ⟨hreaches.size.symm ▸ h.nonempty, fun i t' ht' => ?_, fun i j t' u' hij ht' hu' => ?_, fun i t' ht' => ?_⟩
  · obtain ⟨t, ht, hfound, hshort⟩ := hbefore ht'
    rw [(hfound.shortened hshort).2.2.2, hreaches.size]
    exact h.eof_iff i t ht
  · obtain ⟨t, ht, hfound, hshort⟩ := hbefore ht'
    obtain ⟨u, hu, hfound', hshort'⟩ := hbefore hu'
    rw [(hfound.shortened hshort).2.2.1]
    exact (h.ordered i j t u hij ht hu).trans (hfound'.shortened hshort').2.1
  · obtain ⟨t, -, hfound, hshort⟩ := hbefore ht'
    exact (hfound.shortened hshort).1

/-- **The token table stays faithful.** From the start on, every step of reading keeps the tokens those of the source;
and reading takes only such steps, in each of its productions and as a whole. -/
theorem tokens_faithful (source : Text) :
    (∀ s, Reaches (initial (Token.lex source)) s → Faithful source s.tokens) ∧
      (∀ depth p s, Reaches s (rulesUpTo depth p s).2) ∧
      Reaches (initial (Token.lex source)) (run compilationUnit source).2 ∧
      Reaches (initial (Token.lex source)) (run standaloneExpression source).2 :=
  ⟨fun _ => (faithful_initial source).reaches, fun depth p s => (Forward.onward (p := rulesUpTo depth p) s).reaches,
    (onward_run compilationUnit source).reaches, (onward_run standaloneExpression source).reaches⟩

end Grammar

end KiteCompiler
