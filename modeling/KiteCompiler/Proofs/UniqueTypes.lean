import KiteCompiler.Ast.TypeText
import KiteCompiler.Proofs.Lexing.Borders
import KiteCompiler.Proofs.Lexing.Delimiting
import KiteCompiler.Proofs.Reading.Faults

/-!
# The text of types tells them apart

The text of a type has no delimiters around bounds, scopes and arguments. Still it can be read in one way only, from its
end: the last byte says whether it is an array, has arguments or ends with a name, a name goes back to the mark before
it, and what is left ends where another type can stand (`Regular.unique`). This holds of all types whose names have no
marks in them, are no primitive types, and whose wildcards are arguments (`Regular`). Names that the lexer finds are of
this kind (`Genuine.isName`).
-/

namespace KiteCompiler

/-- The bytes in the text of a type that are in no name. -/
def Token.isMark (b : UInt8) : Bool := (Text.ofString ".<>[]?, ").contains b

/-- A name has no marks in it. -/
structure Token.IsName (n : Text) : Prop where
  ne : n ≠ []
  bytes : ∀ b ∈ n, isMark b = false

namespace Token

open Text (byte)
open Rune (isContinuation)

/-- An identifier is the name in front of a text, and no word. -/
theorem Genuine.identifier {t : Text} (h : Genuine (.identifier, t)) :
    ∃ s, startsName s = true ∧ t = s.take (nameLength 0 s) ∧ Kind.ofWord t = .identifier := by
  obtain ⟨s, hs⟩ := h
  have hscan := scanned s
  generalize scan s = r at hs hscan
  obtain ⟨hk, rfl⟩ := Prod.mk.inj hs
  cases hscan with
  | layout h => exact absurd (Eq.subst (motive := (· ∈ _)) hk.symm h) (by decide)
  | word h => exact ⟨s, h, rfl, hk.symm⟩
  | number => rcases scanNumber_kind s with h | h <;> exact nomatch hk.trans h
  | char h => rcases scanQuoted_kind (byte '\'') .charLiteral s with h | h <;> exact nomatch hk.trans h
  | string h => rcases scanQuoted_kind (byte '"') .stringLiteral s with h | h <;> exact nomatch hk.trans h
  | punctuation =>
    rcases scanPunctuation_kind s with h | h
    · rw [← hk] at h
      exact absurd h (by decide)
    · exact nomatch hk.trans h

/-- There is no mark in a name. -/
theorem isMark_nameLength (s : Text) : ∀ b ∈ s.take (nameLength 0 s), isMark b = false := by
  have hwide : ∀ b : UInt8, ¬b < 0x80 ∨ isContinuation b = true → isMark b = false := forall_byte (by decide +kernel)
  have hascii : ∀ b : UInt8, (isAsciiLetter b || b == byte '_' || b == byte '$') = true ∨ isDigit b = true →
      isMark b = false :=
    forall_byte (by decide +kernel)
  induction s using Rune.induction with
  | nil => simp
  | cons a s ih =>
    rw [nameLength]
    split
    · next hname =>
      obtain ⟨t, r, rfl, hwidth, ht⟩ := Rune.exists_continuations a s
      rw [hwidth, List.drop_succ_cons, List.drop_left] at ih
      rw [hwidth, nameLength_skip (by simp), Nat.add_sub_cancel, List.drop_left, Nat.add_comm, List.take_succ_cons,
        List.take_length_add_append]
      refine List.forall_mem_cons.2 ⟨?_, List.forall_mem_append.2 ⟨fun b hb => hwide b (.inr (ht b hb)), ih⟩⟩
      by_cases ha : a < 0x80
      · rw [continuesName, if_pos ha, startsName_of_lt _ ha, Bool.or_eq_true] at hname
        exact hascii a hname
      · exact hwide a (.inl ha)
    · simp

theorem Genuine.isName {k : Kind} {t : Text} (h : Genuine (k, t)) (hk : k.isName = true) :
    IsName t ∧ ∀ k ∈ Kind.words, k ≠ .kwOf → t ≠ k.label := by
  rcases (Bool.or_eq_true _ _).mp hk with hk | hk
  · obtain rfl := eq_of_beq hk
    obtain ⟨s, hs, rfl, hword⟩ := h.identifier
    have hwords : ∀ k ∈ Kind.words, Kind.ofWord k.label ≠ .identifier := by decide +kernel
    refine ⟨⟨fun hnil => ?_, isMark_nameLength s⟩, fun k hk _ h => hwords k hk (h ▸ hword)⟩
    rcases List.take_eq_nil_iff.1 hnil with h | rfl
    · exact absurd (nameLength_pos hs) (by omega)
    · cases hs
  · obtain rfl := eq_of_beq hk
    rw [h.word (by decide)]
    exact ⟨⟨by decide, by decide +kernel⟩, by decide +kernel⟩

section

variable {r s x y n m : Text} {a b : UInt8}

theorem getLast?_append_of_eq_some (h : x.getLast? = some a) (r : Text) : (r ++ x).getLast? = some a := by
  rw [List.getLast?_append, h, Option.some_or]

theorem last_eq (h : r ++ x = s ++ y) (hx : x.getLast? = some a) (hy : y.getLast? = some b) : a = b := by
  have hlast := congrArg List.getLast? h
  rw [getLast?_append_of_eq_some hx, getLast?_append_of_eq_some hy] at hlast
  exact Option.some.inj hlast

/-- A text behind which a name starts. -/
def Marked (t : Text) : Prop := ∀ b ∈ t.getLast?, isMark b = true

/-- A name goes back to the last mark before it. -/
theorem IsName.unique (hn : IsName n) (hm : IsName m) (hr : Marked r) (hs : Marked s) (h : r ++ n = s ++ m) :
    r = s ∧ n = m := by
  have hnone {t u v : Text} (hu : IsName u) (ht : Marked (v ++ t)) (hsub : t ⊆ u) : t = [] := by
    rcases List.eq_nil_or_concat t with rfl | ⟨t, b, rfl⟩
    · rfl
    · have hmark := ht b (by simp)
      rw [hu.bytes b (hsub (by simp))] at hmark
      cases hmark
  rcases List.append_eq_append_iff.1 h with ⟨t, rfl, rfl⟩ | ⟨t, rfl, rfl⟩
  · obtain rfl := hnone hn hs (List.subset_append_left t m)
    exact ⟨(List.append_nil r).symm, rfl⟩
  · obtain rfl := hnone hm hr (List.subset_append_left t n)
    exact ⟨List.append_nil s, rfl⟩

theorem IsName.last (hn : IsName n) : ∃ b, n.getLast? = some b ∧ isMark b = false :=
  ⟨_, List.getLast?_eq_some_getLast hn.ne, hn.bytes _ (List.getLast_mem hn.ne)⟩

end

end Token

namespace Ast

open Text (byte)
open Token (isMark IsName Marked getLast?_append_of_eq_some last_eq)

/-- The syntax of a type without places and annotations. -/
def skeleton : {c : Category} → Ast c → Ast c
  | _, primitive _ _ n => primitive default nil n
  | _, classRef t => classRef (skeleton t)
  | _, array _ component _ => array default (skeleton component) nil
  | _, wildcard _ _ upper lower => wildcard default nil (skeleton upper) (skeleton lower)
  | _, void _ => void default
  | _, segment _ scope _ n arguments diamond => segment default (skeleton scope) nil n (skeleton arguments) diamond
  | _, cons t ts => cons (skeleton t) (skeleton ts)
  | _, present t => present (skeleton t)
  | _, a => a

/-- The names of primitive types. -/
def primitives : List Text := ["boolean", "byte", "char", "double", "float", "int", "long", "short"]

theorem isName_of_mem_primitives {n : Text} (h : n ∈ primitives) : IsName n := by
  have hprimitives : ∀ n ∈ primitives, n ≠ [] ∧ ∀ b ∈ n, isMark b = false := by decide +kernel
  exact ⟨(hprimitives n h).1, (hprimitives n h).2⟩

/-- The argument of another type is a type, or a wildcard with a bound and its text in front. -/
inductive Introduces : Text → Ast .type → Ast .type → Prop
  | plain {t : Ast .type} : Introduces [] t t
  | upper {p : Place} {as : Ast (.list .annotationUse)} {t : Ast .type} :
      Introduces "? extends " (wildcard p as (.present t) .absent) t
  | lower {p : Place} {as : Ast (.list .annotationUse)} {t : Ast .type} :
      Introduces "? super " (wildcard p as .absent (.present t)) t

/-- Types as they are read off a source without errors, arguments of other types if `wild`. -/
inductive Regular : Bool → {c : Category} → Ast c → Prop
  | primitive {p : Place} {as : Ast (.list .annotationUse)} {n : Text} (hn : n ∈ primitives) :
      Regular false (primitive p as n)
  | classRef {t : Ast .classType} : Regular false t → Regular false (classRef t)
  | array {p : Place} {t : Ast .type} {as : Ast (.list .annotationUse)} : Regular false t → Regular false (array p t as)
  | segment {p : Place} {scope : Ast (.option .classType)} {as : Ast (.list .annotationUse)} {n : Text}
      {arguments : Ast (.list .type)} {diamond : Bool} (hscope : ∀ t ∈ scope.toOption, Regular false t)
      (hname : IsName n) (hn : n ∉ primitives) (hdiamond : diamond = true → arguments = .nil)
      (harguments : ∀ t ∈ arguments.toList, Regular true t) :
      Regular false (segment p scope as n arguments diamond)
  | introduced {i : Text} {a t : Ast .type} (hi : Introduces i a t) : Regular false t → Regular true a
  | wildcard {p : Place} {as : Ast (.list .annotationUse)} : Regular true (wildcard p as .absent .absent)

/-! ## Texts of types -/

/-- The text of the scope of a class type. -/
def lead (scope : Ast (.option .classType)) : Text := (typeTexts scope).flatMap fun t => t ++ Text.ofString "."

/-- The texts of types with commas between them. -/
def listText : List (Ast .type) → Text
  | [] => []
  | t :: ts => typeText t ++ ts.flatMap fun t => (", " : Text) ++ typeText t

/-- The text of the arguments of a class type. -/
def rear (arguments : Ast (.list .type)) (diamond : Bool) : Text :=
  if diamond then "<>" else if arguments.isEmpty then [] else "<" ++ Text.join ", " (typeTexts arguments) ++ ">"

section

variable (p : Place) (as : Ast (.list .annotationUse))

theorem typeTexts_classType (t : Ast .classType) : typeTexts t = [typeText t] := by
  cases t
  exact (congrArg (fun u : Text => [u]) (List.append_nil _)).symm

theorem typeTexts_type (t : Ast .type) : typeTexts t = [typeText t] := by
  cases t with
  | classRef t => exact typeTexts_classType t
  | _ => exact (congrArg (fun u : Text => [u]) (List.append_nil _)).symm

theorem typeTexts_list : (ts : Ast (.list .type)) → typeTexts ts = ts.toList.map typeText
  | nil => by rw [toList]; rfl
  | cons t ts => by
    rw [toList, List.map_cons, ← typeTexts_list ts]
    exact congrArg (· ++ typeTexts ts) (typeTexts_type t)

theorem typeText_segment (scope : Ast (.option .classType)) (n : Text) (arguments : Ast (.list .type))
    (diamond : Bool) :
    typeText (segment p scope as n arguments diamond) = lead scope ++ (n ++ rear arguments diamond) :=
  (List.append_nil _).trans (List.append_assoc ..)

theorem typeText_array (t : Ast .type) : typeText (array p t as) = typeText t ++ "[]" := List.append_nil _

theorem lead_present (t : Ast .classType) : lead (.present t) = typeText t ++ [byte '.'] := by
  change (typeTexts t).flatMap _ = _
  rw [typeTexts_classType]
  exact List.append_nil _

omit p as in
theorem Introduces.text {i : Text} {a t : Ast .type} (h : Introduces i a t) : typeText a = i ++ typeText t := by
  cases h with
  | plain => rfl
  | upper =>
    change ((Text.ofString "?" ++ introduced " extends " [] (typeTexts t)) ++ []) ++ [] = _
    rw [typeTexts_type, List.append_nil, List.append_nil]
    exact congrArg (byte '?' :: ·) (List.append_nil _)
  | lower =>
    change ((Text.ofString "?" ++ []) ++ introduced " super " [] (typeTexts t)) ++ [] = _
    rw [typeTexts_type, List.append_nil, List.append_nil]
    exact congrArg (byte '?' :: ·) (List.append_nil _)

theorem rear_nil : rear .nil false = [] := by rw [rear, if_neg (by decide), isEmpty, toList]; rfl

theorem rear_cons (t : Ast .type) (ts : Ast (.list .type)) :
    rear (.cons t ts) false = [byte '<'] ++ listText (t :: ts.toList) ++ [byte '>'] := by
  rw [rear, if_neg (by decide), if_neg (by simp [isEmpty, toList]), typeTexts_list, toList, List.map_cons,
    Text.join_cons, List.flatMap_map]
  rfl

/-- The arguments of a class type are not there, or between brackets. -/
theorem rear_cases (ts : Ast (.list .type)) {d : Bool} (h : d = true → ts = .nil) :
    rear ts d = [] ∧ ts = .nil ∧ d = false ∨
      rear ts d = [byte '<'] ++ listText ts.toList ++ [byte '>'] ∧ d = ts.toList.isEmpty := by
  cases ts with
  | nil =>
    cases d with
    | false => exact .inl ⟨rear_nil, rfl, rfl⟩
    | true => exact .inr ⟨by rw [toList]; rfl, by rw [toList]; rfl⟩
  | cons t ts =>
    cases d with
    | false => exact .inr ⟨by rw [toList, rear_cons], by rw [toList]; rfl⟩
    | true => cases h rfl

end

/-! ## Reading from the end -/

/-- A text behind which a type can start, an argument of another type if `wild`: no bound can. -/
structure Front (wild : Bool) (r : Text) : Prop where
  last : ∀ b ∈ r.getLast?, b = byte ' ' ∨ b = byte '<'
  bound : wild = true → ∀ x b, r = x ++ [b, byte ' '] → isMark b = true

theorem Front.marked {wild : Bool} {r : Text} (h : Front wild r) : Marked r := by
  intro b hb
  rcases h.last b hb with rfl | rfl
  all_goals rfl

theorem front_space (x : Text) : Front false (x ++ [byte ' ']) := ⟨by simp, nofun⟩

theorem front_angle (x : Text) : Front true (x ++ [byte '<']) := by
  refine ⟨by simp, fun _ y b h => ?_⟩
  exact absurd (last_eq (a := byte '<') (b := byte ' ') h rfl rfl) (by decide)

theorem front_comma (x : Text) : Front true (x ++ (", " : Text)) := by
  refine ⟨by simp [show Text.ofString ", " = [byte ',', byte ' '] from rfl], fun _ y b h => ?_⟩
  obtain ⟨-, hb⟩ := List.append_inj' h rfl
  rw [← (List.cons.inj hb).1]
  rfl

/-- An array type. -/
def isArray : Ast .type → Bool
  | array .. => true
  | _ => false

/-- How the text of a class type ends. -/
theorem Regular.last_classType {t : Ast .classType} (h : Regular false t) :
    ∃ b, (typeText t).getLast? = some b ∧ (isMark b = false ∨ b = byte '>') := by
  cases h with
  | @segment p scope as n arguments diamond hscope hname hn hdiamond harguments =>
    rw [typeText_segment, ← List.append_assoc]
    rcases rear_cases arguments hdiamond with ⟨hrear, -⟩ | ⟨hrear, -⟩
    · obtain ⟨b, hlast, hb⟩ := hname.last
      rw [hrear, List.append_nil]
      exact ⟨b, getLast?_append_of_eq_some hlast _, .inl hb⟩
    · rw [hrear]
      exact ⟨byte '>', getLast?_append_of_eq_some (getLast?_append_of_eq_some rfl _) _, .inr rfl⟩

/-- How the text of a type ends. -/
theorem Regular.last_type {t : Ast .type} (h : Regular false t) :
    ∃ b, (typeText t).getLast? = some b ∧ if t.isArray then b = byte ']' else isMark b = false ∨ b = byte '>' := by
  cases h with
  | @primitive p as n hn =>
    obtain ⟨b, hlast, hb⟩ := (isName_of_mem_primitives hn).last
    exact ⟨b, (congrArg List.getLast? (List.append_nil n)).trans hlast, .inl hb⟩
  | classRef h => exact h.last_classType
  | @array p t as h => exact ⟨byte ']', typeText_array p as t ▸ getLast?_append_of_eq_some rfl _, rfl⟩

theorem Regular.last_argument {t : Ast .type} (h : Regular true t) :
    ∃ b, (typeText t).getLast? = some b ∧ b ≠ byte '<' := by
  cases h with
  | introduced hi h =>
    obtain ⟨b, hlast, hb⟩ := h.last_type
    refine ⟨b, hi.text ▸ getLast?_append_of_eq_some hlast _, ?_⟩
    rintro rfl
    split at hb
    · exact absurd hb (by decide)
    · exact absurd hb (by decide)
  | wildcard => exact ⟨byte '?', rfl, by decide⟩

theorem Introduces.front {i r : Text} {a t : Ast .type} (h : Introduces i a t) (hr : Front true r) :
    Front false (r ++ i) := by
  cases h with
  | plain => exact ⟨(List.append_nil r).symm ▸ hr.last, nofun⟩
  | upper => exact List.append_assoc r (Text.ofString "? extends") _ ▸ front_space _
  | lower => exact List.append_assoc r (Text.ofString "? super") _ ▸ front_space _

/-- Where bounds are alike, so are the arguments. -/
theorem Introduces.unique {i j r s : Text} {a b t u : Ast .type} (hi : Introduces i a t) (hj : Introduces j b u)
    (hr : Front true r) (hs : Front true s) (h : r ++ i = s ++ j) (htu : t.skeleton = u.skeleton) :
    r = s ∧ a.skeleton = b.skeleton := by
  have hbound {r s x : Text} {b : UInt8} (hr : Front true r) (hb : isMark b = false) :
      r ++ [] ≠ s ++ (x ++ [b, byte ' ']) := by
    intro h
    rw [List.append_nil, ← List.append_assoc] at h
    exact absurd (hb.symm.trans (hr.bound rfl _ b h)) (by decide)
  have hwords {r s : Text} : r ++ ("? extends " : Text) ≠ s ++ ("? super " : Text) := by
    intro h
    have hend : r ++ ("? extends" : Text) = s ++ ("? super" : Text) := by
      refine List.append_cancel_right (show _ ++ [byte ' '] = _ ++ [byte ' '] from ?_)
      rw [List.append_assoc, List.append_assoc]
      exact h
    exact absurd (last_eq (a := byte 's') (b := byte 'r') hend rfl rfl) (by decide)
  cases hi with
  | plain =>
    cases hj with
    | plain => exact ⟨List.append_cancel_right h, htu⟩
    | upper => exact absurd h (hbound (x := "? extend") hr (b := byte 's') rfl)
    | lower => exact absurd h (hbound (x := "? supe") hr (b := byte 'r') rfl)
  | upper =>
    cases hj with
    | plain => exact absurd h.symm (hbound (x := "? extend") hs (b := byte 's') rfl)
    | upper => exact ⟨List.append_cancel_right h, congrArg (fun t => Ast.wildcard default nil (.present t) .absent) htu⟩
    | lower => exact absurd h hwords
  | lower =>
    cases hj with
    | plain => exact absurd h.symm (hbound (x := "? supe") hs (b := byte 'r') rfl)
    | upper => exact absurd h.symm hwords
    | lower => exact ⟨List.append_cancel_right h, congrArg (fun t => Ast.wildcard default nil .absent (.present t)) htu⟩

/-- The text of `a` is the end of a text for only one place and one type. -/
def Unique (wild : Bool) {c : Category} (a : Ast c) : Prop :=
  ∀ b : Ast c, Regular wild b → ∀ r s, Front wild r → Front wild s →
  r ++ typeText a = s ++ typeText b → r = s ∧ a.skeleton = b.skeleton

theorem skeleton_list : (ts : Ast (.list .type)) → ts.skeleton = ofList (ts.toList.map skeleton)
  | nil => by rw [toList]; rfl
  | cons t ts => by
    rw [toList, List.map_cons, ofList, ← skeleton_list ts]
    rfl

theorem unique_arguments {t u : Ast .type} {ts us : List (Ast .type)} {r s : Text} (ht : ∀ a ∈ t :: ts, Unique true a)
    (hu : ∀ b ∈ u :: us, Regular true b)
    (h : (r ++ [byte '<']) ++ listText (t :: ts) = (s ++ [byte '<']) ++ listText (u :: us)) :
    r = s ∧ (t :: ts).map skeleton = (u :: us).map skeleton := by
  have hapart {x y : Text} : x ++ [byte '<'] ≠ y ++ (", " : Text) := fun h =>
    absurd (last_eq (a := byte '<') (b := byte ' ') h rfl rfl) (by decide)
  rw [listText, listText] at h
  -- from the last argument to the first
  induction ts using List.reverseRecOn generalizing us with
  | nil =>
    rcases List.eq_nil_or_concat' us with rfl | ⟨us, b, rfl⟩
    · simp only [List.flatMap_nil, List.append_nil] at h
      obtain ⟨hrs, htu⟩ := ht t (.head _) u (hu u (.head _)) _ _ (front_angle r) (front_angle s) h
      exact ⟨List.append_cancel_right hrs, by simp [htu]⟩
    · simp only [List.flatMap_nil, List.append_nil, List.flatMap_append, List.flatMap_singleton,
        ← List.append_assoc] at h
      exact absurd (ht t (.head _) b (hu b (by simp)) _ _ (front_angle r) (front_comma _) h).1 hapart
  | append_singleton ts a ih =>
    have ha := ht a (by simp)
    rcases List.eq_nil_or_concat' us with rfl | ⟨us, b, rfl⟩
    · simp only [List.flatMap_nil, List.append_nil, List.flatMap_append, List.flatMap_singleton,
        ← List.append_assoc] at h
      exact absurd (ha u (hu u (.head _)) _ _ (front_comma _) (front_angle s) h).1.symm hapart
    · simp only [List.flatMap_append, List.flatMap_singleton, ← List.append_assoc] at h
      obtain ⟨hrs, hab⟩ := ha b (hu b (by simp)) _ _ (front_comma _) (front_comma _) h
      obtain ⟨hrs, hrest⟩ := @ih us (fun a ha => ht a (by simp only [List.mem_cons, List.mem_append] at ha ⊢; tauto))
        (fun b hb => hu b (by simp only [List.mem_cons, List.mem_append] at hb ⊢; tauto))
        (by simpa only [List.append_assoc] using List.append_cancel_right hrs)
      refine ⟨hrs, ?_⟩
      rw [← List.cons_append, ← List.cons_append, List.map_append, List.map_append, hrest, List.map_singleton,
        List.map_singleton, hab]

theorem last_listText {t : Ast .type} {ts : List (Ast .type)} (h : ∀ a ∈ t :: ts, Regular true a) :
    ∃ b, (listText (t :: ts)).getLast? = some b ∧ b ≠ byte '<' := by
  rw [listText]
  rcases List.eq_nil_or_concat' ts with rfl | ⟨ts, a, rfl⟩
  · rw [List.flatMap_nil, List.append_nil]
    exact (h t (.head _)).last_argument
  · obtain ⟨b, hlast, hb⟩ := (h a (by simp)).last_argument
    rw [List.flatMap_append, List.flatMap_singleton]
    exact ⟨b, getLast?_append_of_eq_some (getLast?_append_of_eq_some (getLast?_append_of_eq_some hlast _) _) _, hb⟩

theorem unique_listText {ts us : List (Ast .type)} {r s : Text} (ht : ∀ a ∈ ts, Regular true a ∧ Unique true a)
    (hu : ∀ b ∈ us, Regular true b) (h : (r ++ [byte '<']) ++ listText ts = (s ++ [byte '<']) ++ listText us) :
    r = s ∧ ts.map skeleton = us.map skeleton := by
  have hsome {t : Ast .type} {ts : List (Ast .type)} (hts : ∀ a ∈ t :: ts, Regular true a) {x y : Text} :
      (x ++ [byte '<']) ++ listText [] ≠ y ++ listText (t :: ts) := by
    intro h
    rw [listText, List.append_nil] at h
    obtain ⟨b, hlast, hb⟩ := last_listText hts
    exact hb (last_eq (a := byte '<') h rfl hlast).symm
  cases ts with
  | nil =>
    cases us with
    | nil => exact ⟨List.append_cancel_right (List.append_cancel_right h), rfl⟩
    | cons u us => exact absurd h (hsome hu)
  | cons t ts =>
    cases us with
    | nil => exact absurd h.symm (hsome fun a ha => (ht a ha).1)
    | cons u us => exact unique_arguments (fun a ha => (ht a ha).2) hu h

/-- The arguments of a class type behind its name. -/
theorem unique_rear {ts us : Ast (.list .type)} {d e : Bool} {r s n m : Text} (hn : IsName n) (hm : IsName m)
    (hd : d = true → ts = .nil) (he : e = true → us = .nil) (hts : ∀ t ∈ ts.toList, Regular true t ∧ Unique true t)
    (hus : ∀ u ∈ us.toList, Regular true u) (h : r ++ (n ++ rear ts d) = s ++ (m ++ rear us e)) :
    r ++ n = s ++ m ∧ ts.skeleton = us.skeleton ∧ d = e := by
  have hname {r s n x y : Text} (hn : IsName n) : r ++ (n ++ []) ≠ s ++ (y ++ (x ++ [byte '>'])) := by
    intro h
    obtain ⟨b, hlast, hb⟩ := hn.last
    rw [List.append_nil] at h
    obtain rfl := last_eq (b := byte '>') h hlast (getLast?_append_of_eq_some (getLast?_append_of_eq_some rfl _) _)
    exact absurd hb (by decide)
  rcases rear_cases ts hd with ⟨hrear, rfl, rfl⟩ | ⟨hrear, rfl⟩
  all_goals
    rw [hrear] at h
    rcases rear_cases us he with ⟨hrear', rfl, rfl⟩ | ⟨hrear', rfl⟩
    all_goals rw [hrear'] at h
  · rw [List.append_nil, List.append_nil] at h
    exact ⟨h, rfl, rfl⟩
  · exact absurd h (hname hn)
  · exact absurd h.symm (hname hm)
  · simp only [← List.append_assoc] at h
    obtain ⟨hrs, hlists⟩ := unique_listText hts hus (List.append_cancel_right h)
    refine ⟨hrs, ?_, ?_⟩
    · rw [skeleton_list, skeleton_list, hlists]
    · have hlength := congrArg List.length hlists
      rw [List.length_map, List.length_map] at hlength
      rw [Bool.eq_iff_iff, List.isEmpty_iff_length_eq_zero, List.isEmpty_iff_length_eq_zero, hlength]

theorem marked_lead {r : Text} (hr : Marked r) (scope : Ast (.option .classType)) : Marked (r ++ lead scope) := by
  cases scope with
  | absent =>
    rw [show lead .absent = [] from rfl, List.append_nil]
    exact hr
  | present t =>
    rw [lead_present, ← List.append_assoc]
    intro b hb
    rw [List.getLast?_concat] at hb
    exact Option.some.inj hb ▸ rfl

/-- A primitive type is no class type. -/
theorem primitive_ne {r s n : Text} (hr : Front false r) (hs : Front false s) (hn : n ∈ primitives)
    {t : Ast .classType} (ht : Regular false t) : r ++ n ≠ s ++ typeText t := by
  intro h
  have hname := isName_of_mem_primitives hn
  cases ht with
  | @segment p scope as m ts d hscope hm hprimitive hd hts =>
    rw [typeText_segment, ← List.append_assoc] at h
    have hrear : r ++ (n ++ rear .nil false) = (s ++ lead scope) ++ (m ++ rear ts d) := by
      rwa [rear_nil, List.append_nil]
    obtain ⟨hrs, -⟩ := unique_rear hname hm (fun _ => rfl) hd (by rw [toList]; exact List.forall_mem_nil _) hts hrear
    exact hprimitive ((hname.unique hm hr.marked (marked_lead hs.marked scope) hrs).2 ▸ hn)

theorem isArray_eq {r s : Text} {a b : Ast .type} (ha : Regular false a) (hb : Regular false b)
    (h : r ++ typeText a = s ++ typeText b) : a.isArray = b.isArray := by
  obtain ⟨x, hx, hlast⟩ := ha.last_type
  obtain ⟨y, hy, hlast'⟩ := hb.last_type
  obtain rfl := last_eq h hx hy
  have hmark : ¬(isMark (byte ']') = false ∨ byte ']' = byte '>') := by decide
  cases hisArray : a.isArray <;> cases hisArray' : b.isArray <;> simp_all

theorem typeText_primitive (p : Place) (as : Ast (.list .annotationUse)) (n : Text) : typeText (primitive p as n) = n :=
  List.append_nil n

theorem unique_classType {p : Place} {scope : Ast (.option .classType)} {as : Ast (.list .annotationUse)} {n : Text}
    {ts : Ast (.list .type)} {d : Bool} (hscope : ∀ t ∈ scope.toOption, Unique false t) (hname : IsName n)
    (hd : d = true → ts = .nil) (hts : ∀ t ∈ ts.toList, Regular true t ∧ Unique true t) :
    Unique false (segment p scope as n ts d) := by
  intro b hb r s hr hs h
  cases hb with
  | @segment q scope' bs m us e hscope' hm _ he hus =>
    rw [typeText_segment, typeText_segment, ← List.append_assoc, ← List.append_assoc s] at h
    obtain ⟨hnames, hargs, rfl⟩ := unique_rear hname hm hd he hts hus h
    obtain ⟨hleads, rfl⟩ := hname.unique hm (marked_lead hr.marked scope) (marked_lead hs.marked scope') hnames
    have hlead : r = s ∧ scope.skeleton = scope'.skeleton := by
      have hapart {r s x : Text} (hr : Front false r) : r ++ [] ≠ s ++ (x ++ [byte '.']) := by
        intro h
        have hdot := hr.last (byte '.') (by rw [← List.append_nil r, h, ← List.append_assoc, List.getLast?_concat]; rfl)
        exact absurd hdot (by decide)
      cases scope with
      | absent =>
        cases scope' with
        | absent => exact ⟨List.append_cancel_right hleads, rfl⟩
        | present u => exact absurd (lead_present u ▸ hleads) (hapart hr)
      | present t =>
        cases scope' with
        | absent => exact absurd (lead_present t ▸ hleads).symm (hapart hs)
        | present u =>
          rw [lead_present, lead_present, ← List.append_assoc, ← List.append_assoc] at hleads
          obtain ⟨hrs, htu⟩ := hscope t rfl u (hscope' u rfl) r s hr hs (List.append_cancel_right hleads)
          exact ⟨hrs, congrArg Ast.present htu⟩
    refine ⟨hlead.1, ?_⟩
    change Ast.segment default scope.skeleton nil n ts.skeleton d =
      Ast.segment default scope'.skeleton nil n us.skeleton d
    rw [hlead.2, hargs]

theorem Regular.unique {wild : Bool} {c : Category} {a : Ast c} (ha : Regular wild a) : Unique wild a := by
  have hquestion {t : Ast .type} (ht : Regular false t) {r s i : Text} :
      r ++ (i ++ typeText t) ≠ s ++ ("?" : Text) := by
    intro h
    obtain ⟨b, hlast, hb⟩ := ht.last_type
    obtain rfl := last_eq (b := byte '?') h (getLast?_append_of_eq_some hlast i) rfl
    split at hb
    · exact absurd hb (by decide)
    · exact absurd hb (by decide)
  induction ha with
  | @primitive p as n hn =>
    intro b hb r s hr hs h
    cases hb with
    | @primitive q bs m hm =>
      rw [typeText_primitive, typeText_primitive] at h
      obtain ⟨hrs, rfl⟩ := (isName_of_mem_primitives hn).unique (isName_of_mem_primitives hm) hr.marked hs.marked h
      exact ⟨hrs, rfl⟩
    | classRef hb => exact absurd (typeText_primitive p as n ▸ h) (primitive_ne hr hs hn hb)
    | array hb => exact nomatch isArray_eq (.primitive hn) (.array hb) h
  | classRef ht ih =>
    intro b hb r s hr hs h
    cases hb with
    | @primitive q bs m hm => exact absurd (typeText_primitive q bs m ▸ h).symm (primitive_ne hs hr hm ht)
    | classRef hb =>
      obtain ⟨hrs, htu⟩ := ih _ hb r s hr hs h
      exact ⟨hrs, congrArg Ast.classRef htu⟩
    | array hb => exact nomatch isArray_eq (.classRef ht) (.array hb) h
  | @array p t as ht ih =>
    intro b hb r s hr hs h
    cases hb with
    | primitive hm => exact nomatch isArray_eq (.array ht) (.primitive hm) h
    | classRef hb => exact nomatch isArray_eq (.array ht) (.classRef hb) h
    | array hb =>
      rw [typeText_array, typeText_array, ← List.append_assoc, ← List.append_assoc] at h
      obtain ⟨hrs, htu⟩ := ih _ hb r s hr hs (List.append_cancel_right h)
      exact ⟨hrs, congrArg (fun t => Ast.array default t nil) htu⟩
  | segment _ hname _ hd hts ihscope ihts =>
    exact unique_classType ihscope hname hd fun t ht => ⟨hts t ht, ihts t ht⟩
  | introduced hi ht ih =>
    intro b hb r s hr hs h
    rw [hi.text] at h
    cases hb with
    | introduced hj hu =>
      rw [hj.text, ← List.append_assoc, ← List.append_assoc] at h
      obtain ⟨hrs, htu⟩ := ih _ hu _ _ (hi.front hr) (hj.front hs) h
      exact hi.unique hj hr hs hrs htu
    | wildcard => exact absurd h (hquestion ht)
  | wildcard =>
    intro b hb r s hr hs h
    cases hb with
    | introduced hj hu => exact absurd (hj.text ▸ h).symm (hquestion hu)
    | wildcard => exact ⟨List.append_cancel_right h, rfl⟩

/-- Types with the same text are alike, up to places and annotations. -/
theorem skeleton_eq_of_typeText {a b : Ast .type} (ha : Regular true a) (hb : Regular true b)
    (h : typeText a = typeText b) : a.skeleton = b.skeleton := by
  have hfront : Front true [] := ⟨nofun, fun _ x b h => by simp at h⟩
  exact (ha.unique b hb [] [] hfront hfront h).2

end Ast

end KiteCompiler
