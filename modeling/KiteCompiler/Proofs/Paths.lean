import KiteCompiler.Path
import KiteCompiler.Proofs.Pieces

/-!
# Where paths lead

A path is spelled by its elements. Cleaning goes through them with a stack of those that are left (`climb`), on which
`..` is at the bottom only (`settled_foldl`). So a cleaned path goes up a number of times and then down, and its
elements are found again in its spelling (`elements_clean`).

`location` is the place that a path names from a working directory. Whether a path is within a directory is found out
from the spellings; that is the truth about the places if both go up equally often from the same place, and otherwise it
is denied (`isWithin_iff`).
-/

namespace KiteCompiler.Path

abbrev parent : Text := Text.ofString ".."

/-- An element that is left in a cleaned path. -/
structure IsElement (e : Text) : Prop where
  ne_nil : e ≠ []
  ne_dot : e ≠ Text.ofString "."
  separator_not_mem : separator ∉ e

theorem slash_eq : Text.ofString "/" = [separator] := by decide

/-! ## Spellings -/

/-- The path with the given elements. -/
def spell (rooted : Bool) (names : List Text) : Text :=
  let body := Text.join "/" names
  if rooted then "/" ++ body else if body.isEmpty then "." else body

/-- The elements of a cleaned path. -/
def resolved (p : Text) : List Text := resolveUp (isAbsolute p) [] (elements p)

theorem clean_eq (p : Text) : clean p = spell (isAbsolute p) (resolved p) := rfl

theorem isElement_of_mem_elements {e p : Text} (h : e ∈ elements p) : IsElement e := by
  obtain ⟨hsplit, he⟩ := List.mem_filter.1 h
  obtain ⟨hnil, hdot⟩ := of_decide_eq_true he
  exact ⟨hnil, hdot, Text.not_mem_of_mem_split hsplit⟩

theorem elements_join (ts : List Text) : elements (Text.join "/" ts) = ts.flatMap elements := by
  cases ts with
  | nil => rfl
  | cons t ts => rw [elements, slash_eq, Text.split_join (List.cons_ne_nil t ts), List.filter_flatMap]; rfl

section

variable {names : List Text}

theorem split_join (h : ∀ e ∈ names, IsElement e) :
    (Text.split separator (Text.join "/" names)).filter (· ≠ []) = names := by
  cases names with
  | nil => rfl
  | cons e es =>
    rw [slash_eq, Text.split_join (List.cons_ne_nil e es), Text.flatMap_split fun e he => (h e he).separator_not_mem]
    exact List.filter_eq_self.2 fun e he => decide_eq_true (h e he).ne_nil

theorem isAbsolute_join (h : ∀ e ∈ names, IsElement e) : isAbsolute (Text.join "/" names) = false := by
  cases names with
  | nil => rfl
  | cons e es =>
    obtain ⟨hnil, -, hseparator⟩ := h e List.mem_cons_self
    obtain ⟨b, e, rfl⟩ := List.exists_cons_of_ne_nil hnil
    have hb : b ≠ separator := (List.ne_of_not_mem_cons hseparator).symm
    simpa [Text.join_cons, isAbsolute] using hb

theorem isEmpty_join (h : ∀ e ∈ names, IsElement e) : (Text.join "/" names).isEmpty = names.isEmpty := by
  cases names with
  | nil => rfl
  | cons e es =>
    rw [Text.join_cons]
    simp [(h e List.mem_cons_self).ne_nil]

theorem isAbsolute_spell (rooted : Bool) (h : ∀ e ∈ names, IsElement e) : isAbsolute (spell rooted names) = rooted := by
  unfold spell
  cases rooted with
  | true => rfl
  | false =>
    simp only [Bool.false_eq_true, if_false]
    split
    · decide
    · exact isAbsolute_join h

/-- The pieces of a cleaned path between its slashes. -/
theorem pieces_spell (rooted : Bool) (h : ∀ e ∈ names, IsElement e) :
    (Text.split separator (spell rooted names)).filter (· ≠ []) =
      if rooted = false ∧ names = [] then [Text.ofString "."] else names := by
  have hbody := split_join h
  unfold spell
  cases rooted with
  | true =>
    simp only [if_true, slash_eq, List.singleton_append, Text.split_separator_cons] at hbody ⊢
    simpa using hbody
  | false =>
    simp only [Bool.false_eq_true, if_false, isEmpty_join h, true_and]
    cases names with
    | nil => decide
    | cons e es => simpa using hbody

theorem elements_eq (p : Text) :
    elements p = ((Text.split separator p).filter (· ≠ [])).filter (· ≠ Text.ofString ".") := by
  rw [List.filter_filter, elements]
  exact List.filter_congr fun e _ => by simp [Bool.and_comm]

theorem flatMap_elements (h : ∀ e ∈ names, IsElement e) : names.flatMap elements = names := by
  rw [← elements_join, elements_eq, split_join h]
  exact List.filter_eq_self.2 fun e he => decide_eq_true (h e he).ne_dot

theorem elements_spell (rooted : Bool) (h : ∀ e ∈ names, IsElement e) : elements (spell rooted names) = names := by
  rw [elements_eq, pieces_spell rooted h]
  split
  · next hempty => rw [hempty.2]; decide
  · exact List.filter_eq_self.2 fun e he => decide_eq_true (h e he).ne_dot

end

/-! ## Going up and down -/

/-- The stack of the elements that are left, the innermost first, after one more. -/
def climb (rooted : Bool) (above : List Text) (e : Text) : List Text :=
  if e = parent then
    match above with
    | last :: before => if last = parent then e :: above else before
    | [] => if rooted then [] else [e]
  else e :: above

@[simp]
theorem climb_parent_nil (rooted : Bool) : climb rooted [] parent = if rooted then [] else [parent] := if_pos rfl

@[simp]
theorem climb_parent_parent (rooted : Bool) (before : List Text) :
    climb rooted (parent :: before) parent = parent :: parent :: before := by simp [climb]

theorem climb_parent_cons {last : Text} (h : last ≠ parent) (rooted : Bool) (before : List Text) :
    climb rooted (last :: before) parent = before := by simp [climb, h]

theorem climb_of_ne {e : Text} (h : e ≠ parent) (rooted : Bool) (above : List Text) :
    climb rooted above e = e :: above :=
  if_neg h

theorem resolveUp_eq (rooted : Bool) (above es : List Text) :
    resolveUp rooted above es = (es.foldl (climb rooted) above).reverse := by
  induction es generalizing above with
  | nil => rw [resolveUp, List.foldl_nil]
  | cons e es ih =>
    rw [resolveUp.eq_def, List.foldl_cons]
    by_cases he : e = parent
    · subst he
      cases above with
      | nil => cases rooted <;> exact ih _
      | cons last before =>
        by_cases hlast : last = parent
        · subst hlast
          simpa using ih _
        · simpa [climb_parent_cons hlast, hlast] using ih before
    · simpa [climb_of_ne he, he] using ih (e :: above)

/-- Only at the bottom of the stack it goes up, and not at all from the root. -/
def Settled (rooted : Bool) (above : List Text) : Prop :=
  ∃ names k, above = names ++ List.replicate k parent ∧ parent ∉ names ∧ (rooted = true → k = 0)

theorem Settled.climb {rooted : Bool} {above : List Text} (h : Settled rooted above) (e : Text) :
    Settled rooted (climb rooted above e) := by
  obtain ⟨names, k, rfl, hnames, hk⟩ := h
  by_cases he : e = parent
  · subst he
    cases names with
    | cons n names =>
      rw [List.mem_cons, not_or] at hnames
      rw [List.cons_append, climb_parent_cons (Ne.symm hnames.1)]
      exact ⟨names, k, rfl, hnames.2, hk⟩
    | nil =>
      cases k with
      | zero =>
        cases rooted with
        | true => exact ⟨[], 0, rfl, hnames, fun _ => rfl⟩
        | false => exact ⟨[], 1, rfl, hnames, by simp⟩
      | succ k =>
        rw [List.nil_append, List.replicate_succ, climb_parent_parent]
        exact ⟨[], k + 2, rfl, hnames, fun h => absurd (hk h) (Nat.succ_ne_zero k)⟩
  · rw [climb_of_ne he]
    exact ⟨e :: names, k, rfl, List.not_mem_cons_of_ne_of_not_mem (Ne.symm he) hnames, hk⟩

theorem settled_foldl (rooted : Bool) (es : List Text) : Settled rooted (es.foldl (climb rooted) []) :=
  List.foldlRecOn es (climb rooted) ⟨[], 0, rfl, List.not_mem_nil, fun _ => rfl⟩ fun _ h e _ => h.climb e

theorem mem_climb {rooted : Bool} {above : List Text} {e x : Text} (h : x ∈ climb rooted above e) :
    x = e ∨ x ∈ above := by
  unfold climb at h
  split at h
  · cases above with
    | nil => split at h <;> simp_all
    | cons last before => simp only at h; split at h <;> simp_all
  · exact List.mem_cons.1 h

theorem isElement_resolved (p : Text) : ∀ e ∈ resolved p, IsElement e := by
  rw [resolved, resolveUp_eq]
  simp only [List.mem_reverse]
  refine List.foldlRecOn (elements p) (climb (isAbsolute p)) (motive := fun above => ∀ e ∈ above, IsElement e)
    (List.forall_mem_nil _) fun above h e he x hx => ?_
  rcases mem_climb hx with rfl | hx
  · exact isElement_of_mem_elements he
  · exact h x hx

theorem isAbsolute_clean (p : Text) : isAbsolute (clean p) = isAbsolute p := isAbsolute_spell _ (isElement_resolved p)

theorem elements_clean (p : Text) : elements (clean p) = resolved p := elements_spell _ (isElement_resolved p)

theorem foldl_climb {es : List Text} (h : parent ∉ es) (rooted : Bool) (above : List Text) :
    es.foldl (climb rooted) above = es.reverse ++ above := by
  induction es generalizing above with
  | nil => rfl
  | cons e es ih =>
    rw [List.mem_cons, not_or] at h
    rw [List.foldl_cons, climb_of_ne (Ne.symm h.1), ih h.2, List.reverse_cons, List.append_assoc, List.singleton_append]

theorem foldl_climb_parent {above : List Text} (h : parent ∉ above) (k : Nat) :
    (List.replicate k parent).foldl (climb true) above = above.drop k := by
  induction k generalizing above with
  | zero => rfl
  | succ k ih =>
    rw [List.replicate_succ, List.foldl_cons]
    cases above with
    | nil => simpa using ih h
    | cons last before =>
      rw [List.mem_cons, not_or] at h
      rw [climb_parent_cons (Ne.symm h.1), List.drop_succ_cons, ih h.2]

/-- It makes no difference whether a path is cleaned before it is followed. -/
theorem foldl_climb_resolved {rooted : Bool} {start : List Text} (h : rooted = true → start = [])
    (above es : List Text) :
    (es.foldl (climb rooted) above).reverse.foldl (climb true) start = (above.reverse ++ es).foldl
    (climb true) start := by
  induction es generalizing above with
  | nil => rw [List.foldl_nil, List.append_nil]
  | cons e es ih =>
    rw [List.foldl_cons, ih, List.foldl_append, ← List.singleton_append, ← List.append_assoc, List.foldl_append]
    congr 1
    by_cases he : e = parent
    · subst he
      cases above with
      | nil =>
        cases rooted with
        | true => rw [h rfl]; rfl
        | false => rfl
      | cons last before =>
        by_cases hlast : last = parent
        · rw [hlast, climb_parent_parent, List.reverse_cons]
        · simp [climb_parent_cons hlast, climb_of_ne hlast]
    · rw [climb_of_ne he, List.reverse_cons]

/-! ## Places -/

/-- Where a path starts. -/
def origin (directory : List Text) (rooted : Bool) : List Text := if rooted then [] else directory

/-- The names that lead from the root to the place of a path. -/
def location (directory : List Text) (p : Text) : List Text :=
  resolveUp true [] (origin directory (isAbsolute p) ++ elements p)

/-- The place of `p` is in that of `d`, seen from the working directory. -/
def Inside (directory : List Text) (d p : Text) : Prop := location directory d <+: location directory p

/-- Both paths start at the same place and go up equally often. -/
def Comparable (d p : Text) : Prop :=
  isAbsolute d = isAbsolute p ∧ (resolved d).count parent = (resolved p).count parent

/-- The place that a path reaches by going up. -/
def ground (directory : List Text) (rooted : Bool) (k : Nat) : List Text :=
  (((origin directory rooted).foldl (climb true) []).drop k).reverse

/-- The way to a place goes through the elements that are left. -/
theorem location_resolved (directory : List Text) (p : Text) :
    location directory p = resolveUp true [] (origin directory (isAbsolute p) ++ resolved p) := by
  have hstart : isAbsolute p = true → (origin directory (isAbsolute p)).foldl (climb true) [] = [] := by
    intro h
    rw [origin, if_pos h, List.foldl_nil]
  rw [location, resolved, resolveUp_eq, resolveUp_eq, resolveUp_eq, List.foldl_append, List.foldl_append,
    foldl_climb_resolved hstart, List.reverse_nil, List.nil_append]

theorem location_eq (directory : List Text) (p : Text) : ∃ k names, resolved p = List.replicate k parent ++ names ∧
    parent ∉ names ∧ (resolved p).count parent = k ∧ location directory p = ground directory
    (isAbsolute p) k ++ names := by
  obtain ⟨above, k, h, habove, -⟩ := settled_foldl (isAbsolute p) (elements p)
  have hp : resolved p = List.replicate k parent ++ above.reverse := by rw [resolved, resolveUp_eq, h]; simp
  have hnames : parent ∉ above.reverse := by simpa using habove
  refine ⟨k, above.reverse, hp, hnames, ?_, ?_⟩
  · rw [hp, List.count_append, List.count_replicate_self, List.count_eq_zero.2 hnames, Nat.add_zero]
  · obtain ⟨start, n, hstart, hparent, hn⟩ := settled_foldl true (origin directory (isAbsolute p))
    obtain rfl := hn rfl
    rw [List.replicate_zero, List.append_nil] at hstart
    rw [location_resolved, hp, resolveUp_eq, List.foldl_append, List.foldl_append, ground, hstart,
      foldl_climb_parent hparent, foldl_climb hnames, List.reverse_append, List.reverse_reverse]

/-! ## Within a directory -/

theorem diverge_append (as bs : List Text) : diverge as (as ++ bs) = ([], bs) := by
  induction as with
  | nil => cases bs <;> rfl
  | cons a as ih => rw [List.cons_append, diverge, if_pos rfl, ih]

theorem diverge_spec (as bs : List Text) : ∃ common, as = common ++ (diverge as bs).1 ∧
    bs = common ++ (diverge as bs).2 := by
  fun_induction diverge as bs with
  | case1 as a bs ih =>
    obtain ⟨common, has, hbs⟩ := ih
    exact ⟨a :: common, congrArg (a :: ·) has, congrArg (a :: ·) hbs⟩
  | case2 => exact ⟨[], rfl, rfl⟩
  | case3 => exact ⟨[], rfl, rfl⟩

theorem isWithin_eq (d p : Text) :
    isWithin d p = (relative? d p).any fun way => (Text.split separator way).head? ≠ some parent := by
  unfold isWithin
  cases relative? d p <;> rfl

/-- A way leads upwards if something of the start is left, or if the target goes up. -/
theorem way_iff {up down : List Text} (h : ∀ e ∈ down, separator ∉ e) :
    (if up.head? = some parent then none else some (Text.join "/" (up.map (fun _ => parent) ++ down))).any
      (fun way => (Text.split separator way).head? ≠ some parent) = true ↔ up = [] ∧ down.head? ≠ some parent := by
  have hfirst {e : Text} (he : separator ∉ e) (es : List Text) :
      (Text.split separator (Text.join "/" (e :: es))).head? = some e := by
    rw [slash_eq, Text.split_join (List.cons_ne_nil e es), List.flatMap_cons, Text.split_of_not_mem he]
    rfl
  cases up with
  | nil =>
    cases down with
    | nil => decide
    | cons e es => simp [hfirst (h e List.mem_cons_self)]
  | cons e es =>
    split
    · simp
    · simp [hfirst (show separator ∉ parent by decide)]

/-- A path is within a directory if its spelling goes on from that of the directory, and not upwards. -/
theorem isWithin_iff_append (d p : Text) : isWithin d p = true ↔
    isAbsolute d = isAbsolute p ∧ ∃ down, resolved p = resolved d ++ down ∧ down.head? ≠ some parent := by
  rw [isWithin_eq]
  unfold relative?
  dsimp only
  rw [isAbsolute_clean, isAbsolute_clean, elements_clean]
  by_cases heq : clean d = clean p
  · have hrooted : isAbsolute d = isAbsolute p := by rw [← isAbsolute_clean, heq, isAbsolute_clean]
    have hnames : resolved p = resolved d := by rw [← elements_clean, ← heq, elements_clean]
    rw [if_pos heq]
    exact iff_of_true (by decide) ⟨hrooted, [], by rw [hnames, List.append_nil], by simp⟩
  rw [if_neg heq]
  by_cases hrooted : isAbsolute d = isAbsolute p
  swap
  · rw [if_pos hrooted]
    exact iff_of_false (by simp) fun h => hrooted h.1
  rw [if_neg (not_not.2 hrooted), way_iff fun e he => ?_]
  swap
  · obtain ⟨common, -, hpieces⟩ := diverge_spec (resolved d) ((Text.split separator (clean p)).filter (· ≠ []))
    have he := List.mem_append_right common he
    rw [← hpieces] at he
    exact Text.not_mem_of_mem_split (List.mem_filter.1 he).1
  rw [clean_eq p, pieces_spell _ (isElement_resolved p)]
  split
  · next hcurrent =>
    -- nothing is left of `p`, so something is left of `d`
    cases hd : resolved d with
    | nil => exact absurd (by rw [clean_eq, clean_eq, hrooted, hd, hcurrent.2]) heq
    | cons e es =>
      have hdot := (isElement_resolved d e (hd ▸ List.mem_cons_self)).ne_dot
      rw [diverge, if_neg hdot, hcurrent.2]
      exact iff_of_false (by simp) (by simp)
  · constructor
    · rintro ⟨hup, hdown⟩
      obtain ⟨common, hd, hp⟩ := diverge_spec (resolved d) (resolved p)
      rw [hup, List.append_nil] at hd
      rw [← hd] at hp
      exact ⟨hrooted, _, hp, hdown⟩
    · rintro ⟨-, down, hdown, hhead⟩
      rw [hdown, diverge_append]
      exact ⟨rfl, hhead⟩

theorem replicate_parent_append {k m : Nat} {as bs : List Text} (ha : as.head? ≠ some parent)
    (hb : bs.head? ≠ some parent) (h : List.replicate k parent ++ as = List.replicate m parent ++ bs) :
    k = m ∧ as = bs := by
  induction k generalizing m with
  | zero =>
    cases m with
    | zero => exact ⟨rfl, h⟩
    | succ m => exact absurd (congrArg List.head? h) ha
  | succ k ih =>
    cases m with
    | zero => exact absurd (congrArg List.head? h).symm hb
    | succ m =>
      obtain ⟨rfl, hrest⟩ := ih (List.cons.inj h).2
      exact ⟨rfl, hrest⟩

/-- **Within a directory**: what the spellings tell is right about the places, and it is told of comparable paths
only. -/
theorem isWithin_iff (directory : List Text) (d p : Text) :
    isWithin d p = true ↔ Comparable d p ∧ Inside directory d p := by
  rw [isWithin_iff_append, Comparable, Inside, and_assoc]
  refine and_congr_right fun hrooted => ?_
  obtain ⟨k, names, hd, hnames, hk, hplace⟩ := location_eq directory d
  obtain ⟨m, below, hp, hbelow, hm, hplace'⟩ := location_eq directory p
  rw [hk, hm, hplace, hplace', hrooted, hd, hp]
  constructor
  · rintro ⟨down, hdown, hhead⟩
    have hfirst : (names ++ down).head? ≠ some parent := by
      cases names with
      | nil => exact hhead
      | cons n names => exact fun h => hnames (List.mem_of_mem_head? h)
    rw [List.append_assoc] at hdown
    obtain ⟨rfl, rfl⟩ := replicate_parent_append (fun h => hbelow (List.mem_of_mem_head? h)) hfirst hdown
    exact ⟨rfl, (List.prefix_append_right_inj _).2 (List.prefix_append names down)⟩
  · rintro ⟨rfl, hprefix⟩
    obtain ⟨down, rfl⟩ := (List.prefix_append_right_inj _).1 hprefix
    refine ⟨down, by rw [List.append_assoc], fun hhead => hbelow ?_⟩
    exact List.mem_append_right names (List.mem_of_mem_head? hhead)

end KiteCompiler.Path
