import KiteCompiler.ClassFile
import Mathlib.Algebra.Order.Ring.Nat
import Mathlib.Data.List.Forall2
import Mathlib.Data.List.Nodup

/-!
# Reading class files back

`Opening` is the beginning of a class file as data: the constants of the pool with all their fields, and the indices
that name the class, its superclass and its interfaces. `Opening.bytes` writes it in the class file format. From what is
written, whatever follows it, the header is read that the opening describes, and from no part of it is any header read
(`read_bytes`).

What a reader gives depends on what it consumes only (`Consumes`). So a header that was read from a part of the bytes
would be read from all of them, with something left over.
-/

namespace KiteCompiler

namespace ClassFile

/-! ## The written form -/

/-- The last `k` digits of a number to the base 256, most significant first. -/
def digits : (k n : Nat) → Text
  | 0, _ => []
  | k + 1, n => digits k (n / 256) ++ [UInt8.ofNat n]

/-- A constant of the pool with all its fields. -/
inductive Entry where
  | utf8 (text : Text)
  | integer (bits : UInt32)
  | float (bits : UInt32)
  | long (bits : UInt64)
  | double (bits : UInt64)
  | classRef (name : UInt16)
  | string (text : UInt16)
  | field (owner member : UInt16)
  | method (owner member : UInt16)
  | interfaceMethod (owner member : UInt16)
  | nameAndType (name descriptor : UInt16)
  | methodHandle (use : UInt8) (member : UInt16)
  | methodType (descriptor : UInt16)
  | dynamic (bootstrap member : UInt16)
  | invokeDynamic (bootstrap member : UInt16)
  | moduleName (name : UInt16)
  | packageName (name : UInt16)
  deriving DecidableEq, Repr

namespace Entry

/-- The number of a kind of constants. -/
def tag : Entry → UInt8
  | utf8 _ => 1
  | integer _ => 3
  | float _ => 4
  | long _ => 5
  | double _ => 6
  | classRef _ => 7
  | string _ => 8
  | field .. => 9
  | method .. => 10
  | interfaceMethod .. => 11
  | nameAndType .. => 12
  | methodHandle .. => 15
  | methodType _ => 16
  | dynamic .. => 17
  | invokeDynamic .. => 18
  | moduleName _ => 19
  | packageName _ => 20

/-- The fields of a constant; a text is written behind its length. -/
def fields : Entry → Text
  | utf8 text => digits 2 text.length ++ text
  | integer bits | float bits => digits 4 bits.toNat
  | long bits | double bits => digits 8 bits.toNat
  | classRef i | string i | methodType i | moduleName i | packageName i => digits 2 i.toNat
  | field i j | method i j | interfaceMethod i j | nameAndType i j | dynamic i j | invokeDynamic i j =>
    digits 2 i.toNat ++ digits 2 j.toNat
  | methodHandle use i => digits 1 use.toNat ++ digits 2 i.toNat

/-- A constant as it is written. -/
def bytes (e : Entry) : Text := e.tag :: e.fields

/-- The number of indices that a constant takes: a number of eight bytes takes two. -/
def width : Entry → Nat
  | long _ | double _ => 2
  | _ => 1

/-- The length of a text fits into its two bytes. -/
def Fits : Entry → Prop
  | utf8 text => text.length ≤ 65535
  | _ => True

end Entry

/-- The number of indices that constants take. -/
def span (es : List Entry) : Nat := (es.map Entry.width).sum

/-- The constant has that index: indices count from one. -/
def HasIndex (es : List Entry) (i : UInt16) (e : Entry) : Prop :=
  ∃ before after, es = before ++ e :: after ∧ i.toNat = 1 + span before

/-- The index is that of a class, and its name is that text with dots in place of slashes. -/
def Designates (es : List Entry) (i : UInt16) (name : Text) : Prop :=
  ∃ (j : UInt16) (text : Text), HasIndex es i (.classRef j) ∧ HasIndex es j (.utf8 text) ∧ text ≠ [] ∧
    name = Text.replace (Text.byte '/') (Text.byte '.') text

/-- The beginning of a class file. -/
structure Opening where
  minor : UInt16
  major : UInt16
  constants : List Entry
  access : UInt16
  this : UInt16
  super : UInt16
  interfaces : List UInt16

namespace Opening

/-- The class file up to its interfaces. -/
def bytes (o : Opening) : Text :=
  digits 4 0xCAFEBABE ++ digits 2 o.minor.toNat ++ digits 2 o.major.toNat ++
    digits 2 (1 + span o.constants) ++ o.constants.flatMap Entry.bytes ++
    digits 2 o.access.toNat ++ digits 2 o.this.toNat ++ digits 2 o.super.toNat ++
    digits 2 o.interfaces.length ++ o.interfaces.flatMap fun i => digits 2 i.toNat

/-- The opening is well formed, and this is its header. -/
structure Describes (o : Opening) (h : Header) : Prop where
  fits : ∀ e ∈ o.constants, e.Fits
  count_le : 1 + span o.constants ≤ 65535
  interfaces_le : o.interfaces.length ≤ 65535
  minor : h.minor = o.minor
  major : h.major = o.major
  access : h.access = o.access
  name : Designates o.constants o.this h.name
  super : o.super = 0 ∧ h.super = [] ∨ Designates o.constants o.super h.super
  interfaces : List.Forall₂ (Designates o.constants) o.interfaces h.interfaces

end Opening

/-! ## Numbers -/

@[simp]
theorem length_digits (k n : Nat) : (digits k n).length = k := by
  induction k generalizing n with
  | zero => rfl
  | succ k ih => simp [digits, ih]

theorem bigEndian_digits (k n : Nat) : bigEndian (digits k n) = n % 256 ^ k := by
  induction k generalizing n with
  | zero => simp [digits, bigEndian, Nat.mod_one]
  | succ k ih =>
    have hlast : bigEndian (digits (k + 1) n) = 256 * bigEndian (digits k (n / 256)) + n % 256 := by
      simp [digits, bigEndian]
    rw [hlast, ih, Nat.pow_succ', Nat.mod_mul]
    omega

/-! ## What readers give -/

section Readers

variable {α β : Type} {r : Reader α} {f : α → Reader β} {written more : Text} {a : α} {b : β}

/-- The reader gives the value for the written text and leaves what follows it. -/
def Gives (r : Reader α) (written : Text) (a : α) : Prop := ∀ rest, r (written ++ rest) = .ok (a, rest)

/-- What a reader gives, it gives for what it consumed, whatever follows. -/
def Consumes (r : Reader α) : Prop :=
  ∀ input a rest, r input = .ok (a, rest) → ∃ written, input = written ++ rest ∧ Gives r written a

theorem bind_eq_ok {input rest : Text} :
    (r >>= f) input = .ok (b, rest) ↔ ∃ a between, r input = .ok (a, between) ∧ f a between = .ok (b, rest) := by
  change Except.bind (r input) (fun p => f p.1 p.2) = _ ↔ _
  cases r input with
  | error shortage => simp [Except.bind]
  | ok p => simp [Except.bind, Prod.ext_iff, and_assoc]

theorem Gives.bind (hr : Gives r written a) (hf : Gives (f a) more b) : Gives (r >>= f) (written ++ more) b := by
  intro rest
  rw [List.append_assoc]
  exact bind_eq_ok.2 ⟨a, more ++ rest, hr _, hf rest⟩

theorem Gives.pure (a : α) : Gives (pure a) [] a := fun _ => rfl

theorem Gives.map (hr : Gives r written a) (g : α → β) : Gives (r >>= fun a => Pure.pure (g a)) written (g a) := by
  have := hr.bind (f := fun a => Pure.pure (g a)) (.pure (g a))
  rwa [List.append_nil] at this

theorem Consumes.bind (hr : Consumes r) (hf : ∀ a, Consumes (f a)) : Consumes (r >>= f) := by
  intro input b rest h
  obtain ⟨a, between, ha, hb⟩ := bind_eq_ok.1 h
  obtain ⟨written, rfl, hwritten⟩ := hr _ _ _ ha
  obtain ⟨more, rfl, hmore⟩ := hf a _ _ _ hb
  exact ⟨written ++ more, by simp, hwritten.bind hmore⟩

theorem Consumes.pure (a : α) : Consumes (pure a) := by
  intro input b rest h
  cases h
  exact ⟨[], rfl, .pure a⟩

theorem gives_bytes (t : Text) : Gives (bytes t.length) t t := by
  intro rest
  simp [bytes]

theorem consumes_bytes (n : Nat) : Consumes (bytes n) := by
  intro input a rest h
  unfold bytes at h
  split at h
  · cases h
    have hgives := gives_bytes (input.take n)
    rw [‹(input.take n).length = n›] at hgives
    exact ⟨input.take n, (List.take_append_drop n input).symm, hgives⟩
  · cases h

theorem gives_skip (t : Text) : Gives (skip t.length) t () := by
  intro rest
  simp [skip]

theorem consumes_skip (n : Nat) : Consumes (skip n) := by
  intro input a rest h
  unfold skip at h
  split at h
  · cases h
    have hgives := gives_skip (input.take n)
    rw [‹(input.take n).length = n›] at hgives
    exact ⟨input.take n, (List.take_append_drop n input).symm, hgives⟩
  · cases h

theorem gives_word {n : Nat} (hn : n ≤ 65535) : Gives word (digits 2 n) (UInt16.ofNat n) := by
  have hvalue : (bigEndian (digits 2 n)).toUInt16 = UInt16.ofNat n := by
    rw [bigEndian_digits, Nat.mod_eq_of_lt (by omega)]
  have hbytes := gives_bytes (digits 2 n)
  rw [length_digits] at hbytes
  rw [← hvalue]
  exact hbytes.map fun t => (bigEndian t).toUInt16

theorem gives_index (i : UInt16) : Gives word (digits 2 i.toNat) i := by
  have h := gives_word (n := i.toNat) (by have := i.toNat_lt; omega)
  rwa [UInt16.ofNat_toNat] at h

theorem consumes_word : Consumes word := (consumes_bytes 2).bind fun _ => .pure _

theorem gives_words (is : List UInt16) : Gives (words is.length) (is.flatMap fun i => digits 2 i.toNat) is := by
  induction is with
  | nil => exact .pure []
  | cons i is ih => exact (gives_index i).bind (ih.map (i :: ·))

theorem consumes_words (n : Nat) : Consumes (words n) := by
  induction n with
  | zero => exact .pure []
  | succ n ih => exact consumes_word.bind fun i => ih.bind fun is => .pure (i :: is)

end Readers

/-! ## The constant pool -/

/-- What is kept of a constant. -/
def Entry.constant : Entry → Constant
  | utf8 text => .utf8 text
  | classRef name => .classRef name
  | e => .other e.tag

theorem Entry.constant_width (e : Entry) : e.constant.width = UInt16.ofNat e.width := by
  cases e <;> rfl

theorem Entry.width_pos (e : Entry) : 0 < e.width := by
  cases e <;> simp [width]

/-- Every constant is read as what is kept of it. -/
theorem Entry.gives_constant {e : Entry} (h : e.Fits) :
    ∃ r, constant? e.tag = some r ∧ Gives r e.fields e.constant := by
  have hother (e : Entry) (hconstant : e.constant = .other e.tag)
      (hread : constant? e.tag = some (skip e.fields.length >>= fun _ => pure (.other e.tag))) :
      ∃ r, constant? e.tag = some r ∧ Gives r e.fields e.constant := by
    rw [hconstant]
    exact ⟨_, hread, (gives_skip e.fields).map fun _ => Constant.other e.tag⟩
  cases e with
  | utf8 text =>
    refine ⟨_, rfl, (gives_word h).bind ?_⟩
    have htext := gives_bytes text
    rw [← UInt16.toNat_ofNat_of_lt' (n := text.length) (Nat.lt_of_le_of_lt h (by decide))] at htext
    exact htext.map Constant.utf8
  | classRef name => exact ⟨_, rfl, (gives_index name).map Constant.classRef⟩
  | _ => exact hother _ rfl rfl

theorem consumes_constant {tag : UInt8} {r : Reader Constant} (h : constant? tag = some r) : Consumes r := by
  unfold constant? at h
  split at h
  · cases h
    exact consumes_word.bind fun n => (consumes_bytes _).bind fun t => .pure _
  · split at h
    · cases h
      exact consumes_word.bind fun i => .pure _
    · obtain ⟨n, -, rfl⟩ := Option.map_eq_some_iff.1 h
      exact (consumes_skip n).bind fun _ => .pure _

/-- The constants from an index on, as they are kept. -/
def indexed : Nat → List Entry → List (UInt16 × Constant)
  | _, [] => []
  | i, e :: es => (UInt16.ofNat i, e.constant) :: indexed (i + e.width) es

/-- The constants that are read from index `i` on, and how it ends: with a failure or with the bytes behind them. -/
def passes (count : UInt16) : (turns : Nat) → (i : UInt16) → Text → List (UInt16 × Constant) × Except Failure Text
  | 0, _, input => ([], .ok input)
  | turns + 1, i, input =>
    if i < count then
      let tag := input.head?.getD 0
      match constant? tag with
      | none => ([], .error (.unknownTag i tag))
      | some read =>
        match read input.tail with
        | .error shortage => ([], .error (.short .pool shortage))
        | .ok (c, rest) =>
          let later := passes count turns (i + c.width) rest
          ((i, c) :: later.1, later.2)
    else ([], .ok input)

theorem poolFrom_eq (count : UInt16) (turns : Nat) (i : UInt16) (input : Text) :
    poolFrom count turns i input = (passes count turns i input).2.map fun rest =>
    ((passes count turns i input).1, rest) := by
  induction turns generalizing i input with
  | zero => rfl
  | succ turns ih =>
    rw [poolFrom, passes]
    by_cases hlt : i < count
    · simp only [if_pos hlt]
      cases constant? (input.head?.getD 0) with
      | none => rfl
      | some read =>
        dsimp only
        rcases read input.tail with _ | ⟨c, rest⟩
        · rfl
        · dsimp only
          rw [ih]
          cases (passes count turns (i + c.width) rest).2 <;> rfl
    · simp only [if_neg hlt]
      rfl

theorem passes_flatMap_bytes {es : List Entry} (hfits : ∀ e ∈ es, e.Fits) {count : UInt16} {i : Nat}
    (hcount : i + span es ≤ count.toNat) (turns : Nat) (rest : Text) :
    passes count (es.length + turns) (UInt16.ofNat i) (es.flatMap Entry.bytes ++ rest) =
      (indexed i es ++ (passes count turns (UInt16.ofNat (i + span es)) rest).1,
        (passes count turns (UInt16.ofNat (i + span es)) rest).2) := by
  induction es generalizing i with
  | nil => simp [indexed, span]
  | cons e es ih =>
    have hspan : i + span (e :: es) = i + e.width + span es := by simp [span, Nat.add_assoc]
    rw [hspan] at hcount ⊢
    have hlt : UInt16.ofNat i < count := by
      have := e.width_pos
      have := count.toNat_lt
      rw [UInt16.lt_iff_toNat_lt, UInt16.toNat_ofNat_of_lt' (by simp [UInt16.size]; omega)]
      omega
    obtain ⟨r, hr, hgives⟩ := Entry.gives_constant (hfits e (by simp))
    have hindex : UInt16.ofNat i + e.constant.width = UInt16.ofNat (i + e.width) := by
      rw [e.constant_width, UInt16.ofNat_add]
    rw [List.length_cons, Nat.add_right_comm]
    simp only [List.flatMap_cons, Entry.bytes, List.cons_append, List.append_assoc, passes, hlt, if_true,
      List.head?_cons, Option.getD_some, hr, List.tail_cons, hgives (es.flatMap Entry.bytes ++ rest), hindex, indexed,
      ih (fun e he => hfits e (by simp [he])) hcount]

theorem poolFrom_flatMap_bytes {es : List Entry} (hfits : ∀ e ∈ es, e.Fits) {count i turns : Nat}
    (hcount : i + span es = count) (hle : count ≤ 65535) (hturns : es.length ≤ turns) (rest : Text) :
    poolFrom (UInt16.ofNat count) turns (UInt16.ofNat i) (es.flatMap Entry.bytes ++ rest) = .ok
    (indexed i es, rest) := by
  obtain ⟨turns, rfl⟩ := Nat.exists_eq_add_of_le hturns
  have hend : passes (UInt16.ofNat count) turns (UInt16.ofNat count) rest = ([], .ok rest) := by
    cases turns <;> simp [passes]
  have hnat : (UInt16.ofNat count).toNat = count := UInt16.toNat_ofNat_of_lt' (by simp [UInt16.size]; omega)
  rw [poolFrom_eq, passes_flatMap_bytes hfits (hcount.trans hnat.symm).le, hcount, hend, List.append_nil]
  rfl

/-- A pool is read from what it consumes, whatever follows, if there are turns enough. -/
theorem consumes_poolFrom {count i : UInt16} {turns : Nat} {input rest : Text} {cs : List (UInt16 × Constant)}
    (h : poolFrom count turns i input = .ok (cs, rest)) (hturns : input.length < turns) :
    ∃ written, input = written ++ rest ∧ ∀ more turns, (written ++ more).length < turns →
      poolFrom count turns i (written ++ more) = .ok (cs, more) := by
  induction turns generalizing i input cs with
  | zero => omega
  | succ turns ih =>
    rw [poolFrom] at h
    split at h
    · next hlt =>
      dsimp only at h
      split at h
      · cases h
      · next r hconstant =>
        split at h
        · cases h
        · next c between hread =>
          split at h
          · cases h
          · next later rest hpool =>
            cases h
            -- there is a tag, since no constant has the tag zero
            obtain ⟨tag, input, rfl⟩ : ∃ tag tail, input = tag :: tail := by
              cases input with
              | nil => simp [constant?, payload?] at hconstant
              | cons tag tail => exact ⟨tag, tail, rfl⟩
            obtain ⟨written, rfl, hgives⟩ := consumes_constant hconstant input _ _ hread
            obtain ⟨following, rfl, hfollowing⟩ := ih hpool (by simp at hturns; omega)
            refine ⟨tag :: (written ++ following), by simp, fun more turns hmore => ?_⟩
            obtain ⟨turns, rfl⟩ : ∃ n, turns = n + 1 := Nat.exists_eq_succ_of_ne_zero (by omega)
            have hrest := hfollowing more turns (by simp at hmore ⊢; omega)
            rw [List.head?_cons, Option.getD_some] at hconstant
            simp only [List.cons_append, List.append_assoc, poolFrom, hlt, if_true, List.head?_cons, Option.getD_some,
              hconstant, List.tail_cons, hgives (following ++ more), hrest]
    · next hlt =>
      cases h
      refine ⟨[], rfl, fun more turns hmore => ?_⟩
      obtain ⟨turns, rfl⟩ : ∃ n, turns = n + 1 := Nat.exists_eq_succ_of_ne_zero (by omega)
      simp [poolFrom, hlt]

/-! ## Names -/

/-- The indices of constants grow. -/
theorem indexed_bounds {es : List Entry} {i : Nat} (hle : i + span es ≤ 65535) :
    (∀ p ∈ indexed i es, i ≤ p.1.toNat) ∧ ((indexed i es).map Prod.fst).Nodup := by
  induction es generalizing i with
  | nil => simp [indexed]
  | cons e es ih =>
    have hspan : i + e.width + span es ≤ 65535 := by simpa [span, Nat.add_assoc] using hle
    obtain ⟨hlower, hdistinct⟩ := ih hspan
    have hi : (UInt16.ofNat i).toNat = i := UInt16.toNat_ofNat_of_lt' (by simp [UInt16.size]; omega)
    have hpos := e.width_pos
    rw [indexed]
    refine ⟨List.forall_mem_cons.2 ⟨hi.ge, fun p hp => ?_⟩, List.nodup_cons.2 ⟨fun hmem => ?_, hdistinct⟩⟩
    · have := hlower p hp
      omega
    · obtain ⟨p, hp, heq⟩ := List.mem_map.1 hmem
      have := hlower p hp
      rw [heq, hi] at this
      omega

theorem indexed_append (i : Nat) (es fs : List Entry) :
    indexed i (es ++ fs) = indexed i es ++ indexed (i + span es) fs := by
  induction es generalizing i with
  | nil => simp [indexed, span]
  | cons e es ih => simp [indexed, span, ih, Nat.add_assoc]

theorem HasIndex.mem_indexed {es : List Entry} {i : UInt16} {e : Entry} (h : HasIndex es i e) :
    (i, e.constant) ∈ indexed 1 es := by
  obtain ⟨before, after, rfl, hi⟩ := h
  rw [indexed_append, ← hi, indexed, UInt16.ofNat_toNat]
  simp

/-- A look-up for one index finds what the only constant with that index gives. -/
theorem findSome?_reverse {α : Type} {pool : List (UInt16 × Constant)} {g : UInt16 × Constant → Option α} {i : UInt16}
    {c : Constant} {a : α} (hdistinct : (pool.map Prod.fst).Nodup) (hmem : (i, c) ∈ pool) (hg : g (i, c) = some a)
    (hother : ∀ p b, g p = some b → p.1 = i) : pool.reverse.findSome? g = some a := by
  cases hfind : pool.reverse.findSome? g with
  | none =>
    have := List.findSome?_eq_none_iff.1 hfind (i, c) (by simpa using hmem)
    rw [hg] at this
    cases this
  | some b =>
    obtain ⟨before, p, after, hpool, hp, -⟩ := List.findSome?_eq_some_iff.1 hfind
    have hpmem : p ∈ pool := List.mem_reverse.1 (hpool ▸ by simp)
    have heq : p = (i, c) := List.inj_on_of_nodup_map hdistinct hpmem hmem (hother p b hp)
    rw [heq, hg] at hp
    exact hp.symm

theorem classNameAt_of_designates {es : List Entry} (hle : 1 + span es ≤ 65535) {i : UInt16} {name : Text}
    (h : Designates es i name) : classNameAt (indexed 1 es) i = name := by
  obtain ⟨j, text, hi, hj, -, rfl⟩ := h
  obtain ⟨-, hdistinct⟩ := indexed_bounds hle
  have hne : i ≠ 0 := by
    rintro rfl
    obtain ⟨before, after, -, h⟩ := hi
    simp only [UInt16.toNat_zero] at h
    omega
  have hindex : nameIndexAt (indexed 1 es) i = j := by
    rw [nameIndexAt, findSome?_reverse hdistinct hi.mem_indexed]
    · rfl
    · simp [Entry.constant]
    · rintro ⟨k, _ | _ | _⟩ b hb <;> simp_all
  have htext : utf8At (indexed 1 es) j = text := by
    rw [utf8At, findSome?_reverse hdistinct hj.mem_indexed]
    · rfl
    · simp [Entry.constant]
    · rintro ⟨k, _ | _ | _⟩ b hb <;> simp_all
  rw [classNameAt, if_neg hne, hindex, htext]

/-! ## The header -/

/-- The versions, and the number of indices of the constant pool and one more. -/
def versions : Reader (UInt16 × UInt16 × UInt16) := do return (← word, ← word, ← word)

/-- The header is read from the input, and the rest is behind it. -/
def ReadsTo (input : Text) (h : Header) (rest : Text) : Prop :=
  ∃ magic afterMagic count afterCount constants afterPool this super interfaces,
    bytes 4 input = .ok (magic, afterMagic) ∧ bigEndian magic = magicNumber ∧
    versions afterMagic = .ok ((h.minor, h.major, count), afterCount) ∧
    pool count afterCount = .ok (constants, afterPool) ∧
    classInfo afterPool = .ok ((h.access, this, super, interfaces), rest) ∧
    h.name = classNameAt constants this ∧ h.name ≠ [] ∧ h.super = classNameAt constants super ∧
    h.interfaces = interfaces.map (classNameAt constants)

theorem reading_eq_ok {α : Type} {part : Part} {r : Reader α} {input : Text} {p : α × Text} :
    reading part r input = .ok p ↔ r input = .ok p := by
  unfold reading
  split <;> simp_all

theorem read_eq_ok_iff {input : Text} {h : Header} : read input = .ok h ↔ ∃ rest, ReadsTo input h rest := by
  unfold read
  change (reading .magic (bytes 4) input >>= fun p => ite _ _ (reading .pool versions p.2 >>= _)) = _ ↔ _
  dsimp only [bind, Except.bind, pure, Except.pure, throw, throwThe, MonadExceptOf.throw]
  constructor
  · intro hread
    split at hread
    · cases hread
    · rename_i hmagic
      split at hread
      · cases hread
      · rename_i hnumber
        split at hread
        · cases hread
        · rename_i hversions
          split at hread
          · cases hread
          · rename_i hpool
            split at hread
            · cases hread
            · rename_i hinfo
              split at hread
              · cases hread
              · rename_i hname
                cases hread
                exact ⟨_, _, _, _, _, _, _, _, _, _, reading_eq_ok.1 hmagic, not_not.1 hnumber,
                  reading_eq_ok.1 hversions, hpool, reading_eq_ok.1 hinfo, rfl, by simpa using hname, rfl, rfl⟩
  · rintro ⟨rest, magic, afterMagic, count, afterCount, constants, afterPool, this, super, interfaces, hmagic, hnumber,
      hversions, hpool, hinfo, hname, hne, hsuper, hinterfaces⟩
    have hnamed : (classNameAt constants this).isEmpty = false := by simpa [← hname] using hne
    simp only [reading_eq_ok.2 hmagic, hnumber, ne_eq, not_true_eq_false, if_false, reading_eq_ok.2 hversions, hpool,
      reading_eq_ok.2 hinfo, hnamed, Bool.false_eq_true]
    cases h
    simp_all

/-- The rest behind a header does not depend on the header. -/
theorem ReadsTo.unique {input rest rest' : Text} {h h' : Header} (hr : ReadsTo input h rest)
    (hr' : ReadsTo input h' rest') : rest = rest' := by
  obtain ⟨magic, afterMagic, count, afterCount, constants, afterPool, this, super, interfaces, hmagic, -, hversions,
    hpool, hinfo, -⟩ := hr
  obtain ⟨magic', afterMagic', count', afterCount', constants', afterPool', this', super', interfaces', hmagic', -,
    hversions', hpool', hinfo', -⟩ := hr'
  cases hmagic.symm.trans hmagic'
  have hv := hversions.symm.trans hversions'
  simp only [Except.ok.injEq, Prod.mk.injEq] at hv
  obtain ⟨⟨-, -, rfl⟩, rfl⟩ := hv
  cases hpool.symm.trans hpool'
  have hi := hinfo.symm.trans hinfo'
  simp only [Except.ok.injEq, Prod.mk.injEq] at hi
  exact hi.2

theorem consumes_versions : Consumes versions :=
  consumes_word.bind fun _ => consumes_word.bind fun _ => consumes_word.bind fun _ => .pure _

theorem consumes_classInfo : Consumes classInfo :=
  consumes_word.bind fun _ => consumes_word.bind fun _ => consumes_word.bind fun _ => consumes_word.bind fun count =>
    (consumes_words count.toNat).bind fun _ => .pure _

/-- A header is read from what is before the rest, whatever follows. -/
theorem ReadsTo.append {input rest : Text} {h : Header} (hr : ReadsTo input h rest) (more : Text) :
    ReadsTo (input ++ more) h (rest ++ more) := by
  obtain ⟨magic, afterMagic, count, afterCount, constants, afterPool, this, super, interfaces, hmagic, hnumber,
    hversions, hpool, hinfo, hnames⟩ := hr
  obtain ⟨first, rfl, hfirst⟩ := consumes_bytes 4 _ _ _ hmagic
  obtain ⟨second, rfl, hsecond⟩ := consumes_versions _ _ _ hversions
  obtain ⟨third, rfl, hthird⟩ := consumes_poolFrom hpool (Nat.lt_succ_self _)
  obtain ⟨fourth, rfl, hfourth⟩ := consumes_classInfo _ _ _ hinfo
  simp only [List.append_assoc]
  exact ⟨magic, _, count, _, constants, _, this, super, interfaces, hfirst _, hnumber, hsecond _,
    hthird _ _ (Nat.lt_succ_self _), hfourth _, hnames⟩

theorem gives_versions (minor major : UInt16) {count : Nat} (hcount : count ≤ 65535) :
    Gives versions (digits 2 minor.toNat ++ (digits 2 major.toNat ++ digits 2 count))
    (minor, major, UInt16.ofNat count) :=
  (gives_index minor).bind ((gives_index major).bind ((gives_word hcount).map fun n => (minor, major, n)))

theorem gives_classInfo (access this super : UInt16) {interfaces : List UInt16} (hle : interfaces.length ≤ 65535) :
    Gives classInfo (digits 2 access.toNat ++ (digits 2 this.toNat ++ (digits 2 super.toNat ++
      (digits 2 interfaces.length ++ interfaces.flatMap fun i => digits 2 i.toNat))))
      (access, this, super, interfaces) := by
  have hwords := gives_words interfaces
  rw [← UInt16.toNat_ofNat_of_lt' (n := interfaces.length) (Nat.lt_of_le_of_lt hle (by decide))] at hwords
  exact (gives_index access).bind ((gives_index this).bind ((gives_index super).bind ((gives_word hle).bind
    (hwords.map fun is => (access, this, super, is)))))

theorem length_le_flatMap_bytes (es : List Entry) : es.length ≤ (es.flatMap Entry.bytes).length := by
  induction es with
  | nil => simp
  | cons e es ih =>
    rw [List.flatMap_cons, List.length_append, List.length_cons, Entry.bytes, List.length_cons]
    omega

/-- The header that an opening describes is read from its bytes, and nothing more is consumed. -/
theorem readsTo_bytes {o : Opening} {h : Header} (hd : o.Describes h) (rest : Text) :
    ReadsTo (o.bytes ++ rest) h rest := by
  have hversions := gives_versions o.minor o.major hd.count_le
  have hpool (more : Text) : pool (UInt16.ofNat (1 + span o.constants)) (o.constants.flatMap Entry.bytes ++ more) =
      .ok (indexed 1 o.constants, more) := by
    have hturns := length_le_flatMap_bytes o.constants
    exact poolFrom_flatMap_bytes hd.fits rfl hd.count_le (by rw [List.length_append]; omega) more
  have hinfo := gives_classInfo o.access o.this o.super hd.interfaces_le
  have hname := (classNameAt_of_designates hd.count_le hd.name).symm
  have hne : h.name ≠ [] := by
    obtain ⟨j, text, -, -, hne, hname⟩ := hd.name
    simpa [hname, Text.replace] using hne
  have hsuper : h.super = classNameAt (indexed 1 o.constants) o.super := by
    rcases hd.super with ⟨hzero, hsuper⟩ | hsuper
    · simp [classNameAt, hzero, hsuper]
    · exact (classNameAt_of_designates hd.count_le hsuper).symm
  have hinterfaces : h.interfaces = o.interfaces.map (classNameAt (indexed 1 o.constants)) := by
    have hnames := hd.interfaces.imp fun _ _ => classNameAt_of_designates hd.count_le
    exact (List.forall₂_eq_eq_eq ▸ List.forall₂_map_left_iff.2 hnames).symm
  rw [← hd.minor, ← hd.major] at hversions
  rw [← hd.access] at hinfo
  have hmagic : bigEndian (digits 4 0xCAFEBABE) = magicNumber := by
    rw [bigEndian_digits]
    rfl
  refine ⟨digits 4 0xCAFEBABE, _, UInt16.ofNat (1 + span o.constants), _, indexed 1 o.constants, _, o.this, o.super,
    o.interfaces, ?_, hmagic, hversions _, hpool _, hinfo rest, hname, hne, hsuper, hinterfaces⟩
  rw [hd.minor, hd.major, hd.access, Opening.bytes]
  simp only [List.append_assoc]
  exact gives_bytes (digits 4 0xCAFEBABE) _

/-- **Class headers are read back.** From a written opening, whatever follows it, the header is read that it describes,
and from no strict part of its bytes is any header read. -/
theorem read_bytes (o : Opening) (h : Header) (hd : o.Describes h) :
    (∀ rest, read (o.bytes ++ rest) = .ok h) ∧
    ∀ part, part <+: o.bytes → part ≠ o.bytes → ∃ failure, read part = .error failure := by
  refine ⟨fun rest => read_eq_ok_iff.2 ⟨rest, readsTo_bytes hd rest⟩, fun part hpart hne => ?_⟩
  obtain ⟨missing, hmissing⟩ := hpart
  cases hread : read part with
  | error failure => exact ⟨failure, rfl⟩
  | ok h' =>
    -- with the missing bytes, the same header is read and they are left over
    obtain ⟨rest, hrest⟩ := read_eq_ok_iff.1 hread
    have hall := hrest.append missing
    rw [hmissing, ← List.append_nil o.bytes] at hall
    have hnil : rest ++ missing = [] := hall.unique (readsTo_bytes hd [])
    rw [(List.append_eq_nil_iff.1 hnil).2, List.append_nil] at hmissing
    exact absurd hmissing hne

/-- The class `a/B` with an interface `I`: its name follows the reference to it, and a number of eight bytes comes
before both. -/
theorem read_bytes_forward :
    let constants : List Entry := [.long 7, .classRef 5, .classRef 6, .utf8 "a/B", .utf8 "I"]
    let o : Opening := ⟨0, 61, constants, 0x21, 3, 0, [4]⟩
    let h : Header := ⟨0, 61, 0x21, "a.B", [], [Text.ofString "I"]⟩
    o.Describes h ∧ read (o.bytes ++ [1, 2, 3]) = .ok h ∧ ∃ failure, read (o.bytes.take 30) = .error failure := by
  intro constants o h
  have hclass : Designates constants 3 "a.B" :=
    ⟨5, "a/B", ⟨[.long 7], [.classRef 6, .utf8 "a/B", .utf8 "I"], rfl, rfl⟩,
      ⟨[.long 7, .classRef 5, .classRef 6], [.utf8 "I"], rfl, rfl⟩, by decide, by decide⟩
  have hinterface : Designates constants 4 "I" :=
    ⟨6, "I", ⟨[.long 7, .classRef 5], [.utf8 "a/B", .utf8 "I"], rfl, rfl⟩,
      ⟨[.long 7, .classRef 5, .classRef 6, .utf8 "a/B"], [], rfl, rfl⟩, by decide, by decide⟩
  have hd : o.Describes h :=
    { fits := by simp [o, constants, Entry.Fits]; decide
      count_le := by decide
      interfaces_le := by decide
      minor := rfl
      major := rfl
      access := rfl
      name := hclass
      super := .inl ⟨rfl, rfl⟩
      interfaces := .cons hinterface .nil }
  obtain ⟨hwhole, hpart⟩ := read_bytes o h hd
  exact ⟨hd, hwhole [1, 2, 3], hpart _ (List.take_prefix 30 _) (by decide +kernel)⟩

end ClassFile

end KiteCompiler
