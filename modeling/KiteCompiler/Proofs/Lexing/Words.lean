import KiteCompiler.Proofs.Lexing.Borders
import KiteCompiler.Proofs.Lexing.Delimiting

/-!
# Texts that blanks can be put into

`words` are the tokens of a text besides blanks. Some bytes end every token that they do not begin (`isHard`): blanks,
quotes, parentheses, commas and slashes. At such a byte, or behind a blank, the words of a text are those before it and
those behind it (`words_append`), provided that the text before it is `Tame`: no comment begins in it and its literals
are closed. So blanks next to hard bytes do not matter.
-/

namespace KiteCompiler

open Text (byte)

namespace Rune

/-- A rune ends before a byte that is no continuation, as it ends with the text. -/
theorem first_append_cons {t : Text} (ht : t ≠ []) {b : UInt8} (hb : isContinuation b = false) (r : Text) :
    first (t ++ b :: r) = first t := by
  have hbounds {a lead lead' : UInt8} (low high : UInt8) (hlow : 0x80 ≤ low) (hhigh : high ≤ 0xBF) :
      ((if a = lead then low else 0x80) ≤ b && b ≤ if a = lead' then high else 0xBF) = false := by
    rw [Bool.eq_false_iff]
    intro h
    rw [continuation_of_bounds h hlow hhigh] at hb
    cases hb
  obtain ⟨a, t, rfl⟩ := List.exists_cons_of_ne_nil ht
  rw [List.cons_append]
  unfold first
  dsimp only
  split
  · rfl
  split
  · rcases t with _ | ⟨c, t⟩
    · simp [hb]
    · rfl
  split
  · rcases t with _ | ⟨c, _ | ⟨d, t⟩⟩
    · rcases r with _ | ⟨d, r⟩
      · rfl
      · simp only [List.nil_append, hbounds 0xA0 0x9F (by decide) (by decide), Bool.false_and, Bool.false_eq_true,
          if_false]
    · simp only [List.cons_append, List.nil_append, hb, Bool.and_false, Bool.false_eq_true, if_false]
    · rfl
  split
  · rcases t with _ | ⟨c, _ | ⟨d, _ | ⟨e, t⟩⟩⟩
    · rcases r with _ | ⟨d, _ | ⟨e, r⟩⟩
      · rfl
      · rfl
      · simp only [List.nil_append, hbounds 0x90 0x8F (by decide) (by decide), Bool.false_and, Bool.false_eq_true,
          if_false]
    · rcases r with _ | ⟨e, r⟩
      · rfl
      · simp only [List.cons_append, List.nil_append, hb, Bool.and_false, Bool.false_and, Bool.false_eq_true, if_false]
    · simp only [List.cons_append, List.nil_append, hb, Bool.and_false, Bool.false_eq_true, if_false]
    · rfl
  · rfl

end Rune

namespace Token

/-! ## Hard bytes -/

/-- Bytes that end any token which they do not begin. -/
def isHard (b : UInt8) : Bool :=
  isSpace b || [byte '(', byte ')', byte ',', byte '"', byte '\'', byte '/'].contains b

theorem hard_classes (b : UInt8) (h : isHard b = true) :
    Rune.isContinuation b = false ∧ endsName b = true ∧ endsNumber b = true := by
  revert b
  exact forall_byte (by decide +kernel)

theorem soft_classes (b : UInt8) (h : isHard b = false) :
    (b == byte '/') = false ∧ isSpace b = false ∧ (b == byte '\'') = false ∧ (b == byte '"') = false := by
  revert b
  exact forall_byte (by decide +kernel)

/-- Hard bytes are not inside of punctuation. -/
theorem not_hard_of_mem_tail : ∀ entry ∈ Kind.punctuationSpellings, ∀ b ∈ entry.2.tail, isHard b = false := by
  decide +kernel

section

variable {t : Text} {b : UInt8} (hb : isHard b = true) (r : Text)

include hb

theorem continuesName_append_hard (ht : t ≠ []) : continuesName (t ++ b :: r) = continuesName t := by
  have hfirst := Rune.first_append_cons ht (hard_classes b hb).1 r
  obtain ⟨a, t, rfl⟩ := List.exists_cons_of_ne_nil ht
  rw [List.cons_append] at hfirst ⊢
  simp only [continuesName, startsName, hfirst]

theorem startsName_append_hard (ht : t ≠ []) : startsName (t ++ b :: r) = startsName t := by
  have hfirst := Rune.first_append_cons ht (hard_classes b hb).1 r
  obtain ⟨a, t, rfl⟩ := List.exists_cons_of_ne_nil ht
  rw [List.cons_append] at hfirst ⊢
  simp only [startsName, hfirst]

theorem nameLength_append_hard {skip : Nat} (hskip : skip ≤ t.length) :
    nameLength skip (t ++ b :: r) = nameLength skip t := by
  induction t generalizing skip with
  | nil =>
    obtain rfl : skip = 0 := Nat.le_zero.1 hskip
    have hends := continuesName_of_ends (r := r) (hard_classes b hb).2.1
    simp [nameLength, hends]
  | cons a t ih =>
    cases skip with
    | succ skip => rw [List.cons_append, nameLength, nameLength, ih (Nat.le_of_succ_le_succ hskip)]
    | zero =>
      have hcontinues := continuesName_append_hard hb r (List.cons_ne_nil a t)
      have hfirst := Rune.first_append_cons (List.cons_ne_nil a t) (hard_classes b hb).1 r
      have hwidth := Rune.width_first_le (a :: t)
      rw [List.cons_append] at hcontinues hfirst ⊢
      rw [List.length_cons] at hwidth
      rw [nameLength, nameLength, hcontinues, hfirst, ih (by omega)]

theorem scanNumber_append_hard (ht : t ≠ []) : scanNumber (t ++ b :: r) = scanNumber t := by
  have hends : ∀ c ∈ (b :: r).head?, endsNumber c = true := by
    intro c hc
    rw [← Option.some.inj hc]
    exact (hard_classes b hb).2.2
  have hle := scanNumber_le t
  have happend := scanNumber_append (t := t) (s := []) (r := b :: r) hends (by rwa [List.append_nil]) (.inr rfl)
    (List.length_pos_iff.2 ht)
  rwa [List.append_nil] at happend

theorem scanPunctuation_append_hard (ht : t ≠ []) : scanPunctuation (t ++ b :: r) = scanPunctuation t := by
  have hsame : ∀ entry ∈ Kind.punctuationSpellings, entry.2.isPrefixOf (t ++ b :: r) = entry.2.isPrefixOf t := by
    refine fun entry hentry => isPrefixOf_append fun c u hu hc => ?_
    -- then the hard byte would be inside of the spelling
    obtain ⟨a, t, rfl⟩ := List.exists_cons_of_ne_nil ht
    have hnot := not_hard_of_mem_tail entry hentry c (by rw [← hu]; simp)
    rw [← Option.some.inj hc, hb] at hnot
    cases hnot
  unfold scanPunctuation
  rw [List.find?_congr hsame, Rune.first_append_cons ht (hard_classes b hb).1]

theorem isDigit_peek_one_append_hard {a : UInt8} : isDigit (peek (a :: t ++ b :: r) 1) = isDigit (peek (a :: t) 1) := by
  cases t with
  | nil =>
    have hdigit : ∀ b, isHard b = true → isDigit b = false := forall_byte (by decide +kernel)
    exact hdigit b hb
  | cons => rfl

/-- A token that does not begin with a hard byte ends before one as it ends with the text. -/
theorem scan_append_hard {a : UInt8} (ha : isHard a = false) : scan (a :: t ++ b :: r) = scan (a :: t) := by
  have hne := List.cons_ne_nil a t
  obtain ⟨hslash, hspace, hchar, hstring⟩ := soft_classes a ha
  have hname := nameLength_append_hard hb r (t := a :: t) (Nat.zero_le _)
  have htake : (a :: t ++ b :: r).take (nameLength 0 (a :: t)) = (a :: t).take (nameLength 0 (a :: t)) :=
    List.take_append_of_le_length (nameLength_le 0 (a :: t))
  unfold scan
  simp only [startsName_append_hard hb r hne, hname, htake, isDigit_peek_one_append_hard hb r,
    scanNumber_append_hard hb r hne, scanPunctuation_append_hard hb r hne, show peek (a :: t ++ b :: r) 0 = a from rfl,
    peek_cons_zero, hslash, hspace, hchar, hstring, Bool.false_and, Bool.false_eq_true, if_false]

end

/-- A token is in its text. -/
theorem scan_le {a : UInt8} (ha : isHard a = false) (t : Text) : (scan (a :: t)).2 ≤ (a :: t).length := by
  obtain ⟨hslash, hspace, hchar, hstring⟩ := soft_classes a ha
  unfold scan
  simp only [peek_cons_zero, hslash, hspace, hchar, hstring, Bool.false_and, Bool.false_eq_true, if_false]
  split
  · exact nameLength_le 0 _
  split
  · exact scanNumber_le _
  · unfold scanPunctuation
    split
    · next hfind =>
      have hprefix := List.find?_some hfind
      rw [List.isPrefixOf_iff_prefix] at hprefix
      exact hprefix.length_le
    · exact Rune.width_first_le _

/-! ## Words -/

/-- The tokens of a text besides blanks, without the end of file. -/
def words (s : Text) : List Lexeme := (unspaced s).dropLast

theorem map_lexeme_lexFrom {fuel fuel' : Nat} {s : Text} (h : s.length ≤ fuel) (h' : s.length ≤ fuel')
    (p p' : Position) : (lexFrom fuel p s).map lexeme = (lexFrom fuel' p' s).map lexeme := by
  induction fuel generalizing fuel' p p' s with
  | zero =>
    obtain rfl := List.length_eq_zero_iff.1 (Nat.le_zero.1 h)
    rw [lexFrom_nil, lexFrom_nil]
    rfl
  | succ fuel ih =>
    cases s with
    | nil =>
      rw [lexFrom_nil, lexFrom_nil]
      rfl
    | cons b rest =>
      have hlt := length_drop_scan_lt b rest
      cases fuel' with
      | zero => exact absurd h' (by simp)
      | succ fuel' =>
        rw [lexFrom_cons, lexFrom_cons, List.map_cons, List.map_cons]
        exact congrArg _ (ih (by omega) (by omega) _ _)

theorem unspaced_eq (s : Text) : unspaced s = words s ++ [(.eof, [])] := by
  obtain ⟨ts, e, hlex, he, -⟩ := lex_eq_append s
  have htext : e.lexeme = (.eof, []) := by
    have hmem : e ∈ lexFrom s.length .start s := by
      change e ∈ lex s
      rw [hlex]
      exact List.mem_append_right _ (List.mem_singleton.2 rfl)
    rw [lexeme, he, ((text_ne_nil_of_mem_lexFrom hmem).resolve_right fun hne => hne.1 he).2]
  have hlast : unspaced s = (ts.map lexeme).filter (·.1 != .whitespace) ++ [(.eof, [])] := by
    rw [unspaced, hlex, List.map_append, List.filter_append, List.map_singleton, htext]
    rfl
  rw [words, hlast, List.dropLast_concat]

/-- The first word of a text, unless it is a blank, and those behind it. -/
theorem words_cons (b : UInt8) (s : Text) : words (b :: s) =
    [((scan (b :: s)).1, (b :: s).take (scan (b :: s)).2)].filter (·.1 != .whitespace) ++
      words ((b :: s).drop (scan (b :: s)).2) := by
  have hlt := length_drop_scan_lt b s
  rw [List.length_cons] at hlt
  have hcons : unspaced (b :: s) = [((scan (b :: s)).1, (b :: s).take (scan (b :: s)).2)].filter (·.1 != .whitespace) ++
      unspaced ((b :: s).drop (scan (b :: s)).2) := by
    have hrest : (lexFrom s.length (front .start (b :: s)).span.last ((b :: s).drop (scan (b :: s)).2)).map lexeme =
        (lex ((b :: s).drop (scan (b :: s)).2)).map lexeme :=
      map_lexeme_lexFrom (Nat.le_of_lt_succ hlt) (Nat.le_refl _) _ _
    rw [unspaced, lex, List.length_cons, lexFrom_cons, List.map_cons, hrest, ← List.singleton_append,
      List.filter_append]
    rfl
  rw [words, hcons, unspaced_eq, ← List.append_assoc, List.dropLast_concat]

theorem words_append_of_scan {t s : Text} {k : Kind} (ht : t ≠ []) (h : scan (t ++ s) = (k, t.length))
    (hk : k ≠ .whitespace) : words (t ++ s) = (k, t) :: words s := by
  obtain ⟨b, t, rfl⟩ := List.exists_cons_of_ne_nil ht
  rw [List.cons_append] at h ⊢
  rw [words_cons, h, ← List.cons_append, List.take_left, List.drop_left]
  simp [hk]

theorem words_dropWhile_space (s : Text) : words (s.dropWhile isSpace) = words s := by
  cases s with
  | nil => rfl
  | cons b s =>
    by_cases hb : isSpace b = true
    · have hdrop : (b :: s).drop (1 + (s.takeWhile isSpace).length) = s.dropWhile isSpace := by
        have hsplit : (s.takeWhile isSpace ++ s.dropWhile isSpace).drop (s.takeWhile isSpace).length =
            s.dropWhile isSpace :=
          List.drop_left
        rw [Nat.add_comm, List.drop_succ_cons]
        rwa [List.takeWhile_append_dropWhile] at hsplit
      rw [words_cons b s, scan_blank hb, List.dropWhile_cons_of_pos hb, hdrop]
      rfl
    · rw [List.dropWhile_cons_of_neg hb]

/-- Blanks are no words. -/
theorem words_space {b : UInt8} (hb : isSpace b = true) (s : Text) : words (b :: s) = words s := by
  rw [← words_dropWhile_space, List.dropWhile_cons_of_pos hb, words_dropWhile_space]

theorem words_punctuation {k : Kind} (hk : k ∈ Kind.punctuation) {s : Text}
    (hs : ∀ b ∈ s.head?, extendsPunctuation k b = false) : words (k.label ++ s) = (k, k.label) :: words s := by
  have hspelled : ∀ k ∈ Kind.punctuation, k.label ≠ [] ∧ k ≠ .whitespace := by decide +kernel
  exact words_append_of_scan (hspelled k hk).1 (scan_punctuation hk hs) (hspelled k hk).2

/-- Parentheses and commas are words of their own. -/
theorem words_separator {k : Kind} (hk : k ∈ [Kind.lparen, .rparen, .comma]) (s : Text) :
    words (k.label ++ s) = (k, k.label) :: words s := by
  have halone : ∀ b, ∀ k ∈ [Kind.lparen, .rparen, .comma], extendsPunctuation k b = false :=
    forall_byte (by decide +kernel)
  have hpunctuation : ∀ k ∈ [Kind.lparen, .rparen, .comma], k ∈ Kind.punctuation := by decide
  exact words_punctuation (hpunctuation k hk) fun b _ => halone b k hk

/-! ## Tame texts -/

/-- Are there no quotes and slashes in the text? -/
def isPlain (t : Text) : Bool := t.all fun b => !([byte '"', byte '\'', byte '/'].contains b)

/-- Text in which no comment begins and all literals are closed. -/
inductive Tame : Text → Prop
  | nil : Tame []
  | plain {b : UInt8} {s : Text} (hb : b ∉ [byte '"', byte '\'', byte '/']) (hs : Tame s) : Tame (b :: s)
  | operator {k : Kind} (hk : k ∈ [Kind.slash, .slashAssign]) {s : Text} (hs : Tame s) :
      Tame (k.label ++ byte ' ' :: s)
  | quoted {quote : UInt8} {t s : Text} (hquote : quote ∈ [byte '"', byte '\''])
      (ht : quotedTail quote t = (t.length, true)) (hs : Tame s) : Tame (quote :: (t ++ s))

namespace Tame

theorem append {t s : Text} (ht : Tame t) (hs : Tame s) : Tame (t ++ s) := by
  induction ht with
  | nil => exact hs
  | plain hb _ ih => exact .plain hb ih
  | operator hk _ ih =>
    rw [List.append_assoc]
    exact .operator hk ih
  | quoted hquote ht _ ih =>
    rw [List.cons_append, List.append_assoc]
    exact .quoted hquote ht ih

theorem of_plain {t : Text} (h : ∀ b ∈ t, b ∉ [byte '"', byte '\'', byte '/']) : Tame t := by
  induction t with
  | nil => exact .nil
  | cons b t ih =>
    rw [List.forall_mem_cons] at h
    exact .plain h.1 (ih h.2)

/-- A text without quotes and slashes. -/
theorem of_isPlain {t : Text} (h : isPlain t = true := by decide) : Tame t :=
  of_plain fun b hb => by simpa using List.all_eq_true.1 h b hb

theorem separator {b : UInt8} (hb : b ∈ [byte '(', byte ')', byte ',', byte ' ', 10]) {s : Text} (hs : Tame s) :
    Tame (b :: s) := by
  have hplain : isPlain [byte '(', byte ')', byte ',', byte ' ', 10] = true := by decide
  exact .plain (by simpa using List.all_eq_true.1 hplain b hb) hs

theorem of_cons {b : UInt8} (hb : isHard b = false) {s : Text} (h : Tame (b :: s)) : Tame s := by
  have hslash : ∀ k ∈ [Kind.slash, .slashAssign], k.label = byte '/' :: k.label.tail := by decide +kernel
  generalize htext : b :: s = text at h
  cases h with
  | nil => cases htext
  | plain _ hs => rwa [(List.cons.inj htext).2]
  | operator hk _ =>
    rw [hslash _ hk] at htext
    rw [(List.cons.inj htext).1] at hb
    exact absurd hb (by decide)
  | quoted hquote _ _ =>
    have hquotes : ∀ b ∈ [byte '"', byte '\''], isHard b = true := List.all_eq_true.1 (by decide)
    rw [(List.cons.inj htext).1, hquotes _ hquote] at hb
    cases hb

theorem drop {t s : Text} (ht : ∀ b ∈ t, isHard b = false) (h : Tame (t ++ s)) (n : Nat) : Tame (t.drop n ++ s) := by
  induction t generalizing n with
  | nil => rwa [List.drop_nil]
  | cons b t ih =>
    rw [List.forall_mem_cons] at ht
    cases n with
    | zero => exact h
    | succ n => exact ih ht.2 (h.of_cons ht.1) n

end Tame

/-- Text behind which a token begins: nothing, or text that ends with a blank. -/
def Rested (t : Text) : Prop := ∀ b ∈ t.getLast?, isSpace b = true

instance (t : Text) : Decidable (Rested t) :=
  decidable_of_iff (t.getLast?.all isSpace = true) (by simp only [Rested, Option.all_eq_true, Option.mem_def])

/-- No token goes on from one text to the other. -/
def Apart (t s : Text) : Prop := Rested t ∨ ∃ b ∈ s.head?, isHard b = true

theorem Rested.of_append {t s : Text} (h : Rested (t ++ s)) : Rested s := by
  intro b hb
  refine h b ?_
  rw [List.getLast?_append, hb]
  rfl

theorem scan_quoted {quote : UInt8} (hquote : quote ∈ [byte '"', byte '\'']) {t : Text}
    (ht : quotedTail quote t = (t.length, true)) :
    ∃ k ≠ .whitespace, ∀ s, scan (quote :: (t ++ s)) = (k, (quote :: t).length) := by
  have htail (s : Text) : quotedTail quote (t ++ s) = (t.length, true) := by
    have happend := quotedTail_append (s := t) s (by rw [ht])
    rwa [ht, List.take_length] at happend
  rcases List.mem_pair.1 hquote with rfl | rfl
  · exact ⟨.stringLiteral, by decide, fun s => by rw [scan_string]; simp [scanQuoted, htail s]⟩
  · exact ⟨.charLiteral, by decide, fun s => by rw [scan_char]; simp [scanQuoted, htail s]⟩

/-- The first token of a text is in the part before its hard bytes. -/
theorem scan_takeWhile {a : UInt8} (ha : isHard a = false) (t : Text) :
    scan ((a :: t).takeWhile fun b => !isHard b) = scan (a :: t) := by
  have ha' : (!isHard a) = true := by rw [ha]; rfl
  have hsplit := List.takeWhile_append_dropWhile (p := fun b => !isHard b) (l := t)
  rw [List.takeWhile_cons_of_pos (p := fun b => !isHard b) ha']
  cases hrest : t.dropWhile fun b => !isHard b with
  | nil => rw [hrest, List.append_nil] at hsplit; rw [hsplit]
  | cons b r =>
    have hb : isHard b = true := by
      have hhead := List.head_dropWhile_not (fun b => !isHard b) (l := t) (by rw [hrest]; exact List.cons_ne_nil b r)
      simpa [hrest] using hhead
    rw [hrest] at hsplit
    conv => rhs; rw [← hsplit]
    exact (scan_append_hard hb r ha).symm

theorem scan_le_takeWhile {a : UInt8} (ha : isHard a = false) (t : Text) :
    (scan (a :: t)).2 ≤ ((a :: t).takeWhile fun b => !isHard b).length := by
  rw [← scan_takeWhile ha t, List.takeWhile_cons_of_pos (by rw [ha]; rfl)]
  exact scan_le ha _

theorem soft_of_mem_takeWhile {t : Text} {b : UInt8} (h : b ∈ t.takeWhile fun b => !isHard b) : isHard b = false := by
  simpa using List.all_eq_true.1 List.all_takeWhile b h

theorem Tame.drop_scan {a : UInt8} (ha : isHard a = false) {t : Text} (h : Tame (a :: t)) :
    (scan (a :: t)).2 ≤ (a :: t).length ∧ Tame ((a :: t).drop (scan (a :: t)).2) := by
  have hsplit := List.takeWhile_append_dropWhile (p := fun b => !isHard b) (l := a :: t)
  have hle := scan_le_takeWhile ha t
  refine ⟨hle.trans (List.takeWhile_prefix _).length_le, ?_⟩
  generalize (scan (a :: t)).2 = n at hle ⊢
  rw [← hsplit] at h ⊢
  rw [List.drop_append_of_le_length hle]
  exact h.drop (fun b hb => soft_of_mem_takeWhile hb) n

theorem takeWhile_append_of_apart {t s : Text} (ht : t ≠ []) (h : Apart t s) :
    ((t ++ s).takeWhile fun b => !isHard b) = t.takeWhile fun b => !isHard b := by
  rw [List.takeWhile_append]
  split
  · next hall =>
    have hsoft : (t.takeWhile fun b => !isHard b) = t := (List.takeWhile_prefix _).eq_of_length hall
    rcases h with hrested | ⟨b, hb, hhard⟩
    · -- the blank at the end of the text would be soft
      have hlast := hrested (t.getLast ht) (List.getLast?_eq_some_getLast ht)
      have hmem : t.getLast ht ∈ t.takeWhile fun b => !isHard b := hsoft.symm ▸ List.getLast_mem ht
      have hnot := soft_of_mem_takeWhile hmem
      simp [isHard, hlast] at hnot
    · obtain ⟨r, rfl⟩ : ∃ r, s = b :: r := by
        cases s with
        | nil => cases hb
        | cons c r => exact ⟨r, by rw [Option.some.inj hb]⟩
      rw [List.takeWhile_cons_of_neg (by rw [hhard]; decide), List.append_nil, hsoft]
  · rfl

/-- A tame text and what stands apart from it have their words one after the other. -/
theorem words_append {t s : Text} (ht : Tame t) (h : Apart t s) : words (t ++ s) = words t ++ words s := by
  -- by the length of the text, whose first token is the first of both texts together
  induction hlength : t.length using Nat.strong_induction_on generalizing t with
  | _ length ih =>
    have hrest {u r : Text} (hu : u ≠ []) (hr : Tame r) (heq : u ++ r = t) : words (r ++ s) = words r ++ words s := by
      subst heq
      refine ih r.length ?_ hr (h.imp_left Rested.of_append) rfl
      rw [← hlength, List.length_append]
      exact Nat.lt_add_of_pos_left (List.length_pos_iff.2 hu)
    cases ht with
    | nil => rfl
    | @plain b r hb hr =>
      by_cases hhard : isHard b = true
      · have hcases : ∀ b, isHard b = true → b ∉ [byte '"', byte '\'', byte '/'] →
            isSpace b = true ∨ ∃ k ∈ [Kind.lparen, .rparen, .comma], k.label = [b] := forall_byte (by decide +kernel)
        rcases hcases b hhard hb with hspace | ⟨k, hk, hlabel⟩
        · rw [List.cons_append, words_space hspace, words_space hspace]
          exact hrest (List.cons_ne_nil b []) hr rfl
        · have hword := words_separator hk
          rw [hlabel] at hword
          rw [List.cons_append, ← List.singleton_append, hword, ← List.singleton_append (l := r), hword,
            List.cons_append]
          exact congrArg _ (hrest (List.cons_ne_nil b []) hr rfl)
      · rw [Bool.not_eq_true] at hhard
        have hscan : scan (b :: (r ++ s)) = scan (b :: r) := by
          rw [← scan_takeWhile hhard (r ++ s), ← List.cons_append, takeWhile_append_of_apart (List.cons_ne_nil b r) h,
            scan_takeWhile hhard]
        obtain ⟨hle, hdrop⟩ : (scan (b :: r)).2 ≤ (b :: r).length ∧ Tame ((b :: r).drop (scan (b :: r)).2) :=
          Tame.drop_scan hhard (.plain hb hr)
        have hne : (b :: r).take (scan (b :: r)).2 ≠ [] := by
          have hlt := length_drop_scan_lt b r
          rw [List.length_drop] at hlt
          rw [← List.length_pos_iff, List.length_take]
          omega
        rw [List.cons_append, words_cons, hscan, ← List.cons_append, List.take_append_of_le_length hle,
          List.drop_append_of_le_length hle, hrest hne hdrop (List.take_append_drop _ _), words_cons b r,
          List.append_assoc]
    | @operator k hk r hr =>
      have hpunctuation : ∀ k ∈ [Kind.slash, .slashAssign], k ∈ Kind.punctuation ∧ k.label ≠ [] ∧
          extendsPunctuation k (byte ' ') = false := by decide +kernel
      obtain ⟨hmem, hne, hblank⟩ := hpunctuation k hk
      have hword (r : Text) : words (k.label ++ byte ' ' :: r) = (k, k.label) :: words r := by
        have hext : ∀ b ∈ (byte ' ' :: r).head?, extendsPunctuation k b = false := by simpa using hblank
        rw [words_punctuation hmem hext, words_space (by decide)]
      rw [List.append_assoc, List.cons_append, hword, hword, List.cons_append, hrest (u := k.label ++ [byte ' ']) _ hr]
      all_goals simp
    | @quoted quote u r hquote hu hr =>
      obtain ⟨k, hk, hscan⟩ := scan_quoted hquote hu
      have hword (r : Text) : words (quote :: (u ++ r)) = (k, quote :: u) :: words r :=
        words_append_of_scan (List.cons_ne_nil quote u) (hscan r) hk
      rw [List.cons_append, List.append_assoc, hword, hword, hrest (List.cons_ne_nil quote u) hr rfl, List.cons_append]

/-! ## Lexemes -/

theorem soft_of_mem_scan {a b : UInt8} (ha : isHard a = false) {t : Text} (h : b ∈ (a :: t).take (scan (a :: t)).2) :
    isHard b = false := by
  have hprefix := List.takeWhile_prefix (fun b => !isHard b) (l := a :: t)
  have hmem := List.take_subset_take_left _ (scan_le_takeWhile ha t) h
  rw [← List.prefix_iff_eq_take.1 hprefix] at hmem
  exact soft_of_mem_takeWhile hmem

theorem tame_scanQuoted {quote : UInt8} (hquote : quote ∈ [byte '"', byte '\'']) {k : Kind} {s : Text}
    (h : (scanQuoted quote k (quote :: s)).1 ≠ .error) :
    Tame ((quote :: s).take (scanQuoted quote k (quote :: s)).2) := by
  unfold scanQuoted at h ⊢
  rw [List.drop_succ_cons, List.drop_zero] at h ⊢
  dsimp only at h ⊢
  cases hclosed : (quotedTail quote s).2 with
  | false => exact absurd (by rw [hclosed]; rfl) h
  | true =>
    have hle := (quotedTail_closed hclosed).2
    have htail := quotedTail_append [] hclosed
    rw [List.append_nil] at htail
    have hlength : (s.take (quotedTail quote s).1).length = (quotedTail quote s).1 := by
      rw [List.length_take, Nat.min_eq_left hle]
    have hquoted := Tame.quoted hquote (htail.trans (Prod.ext hlength.symm hclosed)) .nil
    rwa [List.append_nil] at hquoted

/-- Lexemes are tame, layout, errors and slashes apart. -/
theorem Genuine.tame {k : Kind} {t : Text} (h : Genuine (k, t))
    (hlayout : k ∉ [.lineComment, .comment, .whitespace, .error]) (hslash : k ∉ [.slash, .slashAssign]) : Tame t := by
  obtain ⟨s, hs⟩ := h
  obtain ⟨rfl, rfl⟩ := Prod.mk.inj hs
  cases s with
  | nil =>
    rw [List.take_nil]
    exact .nil
  | cons a s =>
    cases ha : isHard a with
    | false =>
      have hplain : ∀ b, isHard b = false → b ∉ [byte '"', byte '\'', byte '/'] := forall_byte (by decide +kernel)
      exact .of_plain fun b hb => hplain b (soft_of_mem_scan ha hb)
    | true =>
      have hscan := scanned (a :: s)
      generalize scan (a :: s) = r at hlayout hslash hscan ⊢
      cases hscan with
      | layout h => exact absurd h hlayout
      | word h =>
        have hascii : ∀ a, isHard a = true → a < 0x80 := forall_byte (by decide +kernel)
        have hends := continuesName_of_ends (r := s) (hard_classes a ha).2.1
        rw [continuesName, if_pos (hascii a ha), h] at hends
        cases hends
      | number h =>
        have hnumber : ∀ a, isHard a = true → isDigit a = false ∧ a ≠ byte '.' := forall_byte (by decide +kernel)
        simp [peek_cons_zero, hnumber a ha] at h
      | char h =>
        rw [peek_cons_zero] at h
        subst h
        exact tame_scanQuoted (by decide) fun h => hlayout (by rw [h]; decide)
      | string h =>
        rw [peek_cons_zero] at h
        subst h
        exact tame_scanQuoted (by decide) fun h => hlayout (by rw [h]; decide)
      | punctuation =>
        have hlabel : ∀ k ∈ Kind.punctuation, k ∉ [Kind.slash, .slashAssign] →
            ∀ b ∈ k.label, b ∉ [byte '"', byte '\'', byte '/'] := by decide +kernel
        rcases scanPunctuation_kind (a :: s) with h | h
        · rw [take_scanPunctuation h]
          exact .of_plain (hlabel _ h hslash)
        · exact absurd (by rw [h]; decide) hlayout

theorem quotedTail_last {quote : UInt8} {s : Text} (h : (quotedTail quote s).2 = true) :
    ∃ u, s.take (quotedTail quote s).1 = u ++ [quote] := by
  fun_induction quotedTail quote s with
  | case1 | case3 | case4 => cases h
  | case2 b rest hb => exact ⟨[], by simp [eq_of_beq hb]⟩
  | case5 b _ _ _ c rest n closed hn ih =>
    rw [hn] at ih
    obtain ⟨u, hu⟩ := ih h
    exact ⟨b :: c :: u, by simp [hu]⟩
  | case6 b rest _ _ _ n closed hn ih =>
    rw [hn] at ih
    obtain ⟨u, hu⟩ := ih h
    exact ⟨b :: u, by simp [hu]⟩

/-- A quoted literal begins and ends with its quote. -/
theorem Genuine.quotes {k : Kind} {t : Text} (h : Genuine (k, t)) (quote : UInt8) (hk : (k, quote) ∈ quotedKinds) :
    ∃ u, t = quote :: (u ++ [quote]) := by
  obtain ⟨r, hr, rfl⟩ := h.quoted hk
  obtain ⟨u, hu⟩ := quotedTail_last hr
  exact ⟨u, congrArg _ hu⟩

/-- Punctuation between blanks is tame. -/
theorem tame_operator {k : Kind} (hk : k ∈ Kind.punctuation) : Tame (" " ++ k.label ++ " ") := by
  have hlabel : ∀ k ∈ Kind.punctuation, k ∈ [Kind.slash, .slashAssign] ∨
      ∀ b ∈ k.label, b ∉ [byte '"', byte '\'', byte '/'] := by decide +kernel
  rw [List.append_assoc]
  refine .separator (by decide) ?_
  rcases hlabel k hk with h | h
  · exact .operator h .nil
  · exact (Tame.of_plain h).append (.separator (by decide) .nil)

end Token

end KiteCompiler
