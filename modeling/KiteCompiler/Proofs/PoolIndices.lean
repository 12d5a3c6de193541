import KiteCompiler.Proofs.ClassHeader

/-!
# The indices of a constant pool

An index is a 16 bit word, and a constant of eight bytes goes on by two. Behind such a constant at index 65534 the next
index is zero, and with the largest count the pool is read on from there. This is the only way in which the indices do
not ascend or constants are read that the count does not allow (`pool_indices_iff`).
-/

namespace KiteCompiler.ClassFile

/-- Constants one after another from index `i` on, each at an index below the count. -/
def Consecutive (count : UInt16) : (i : UInt16) → List (UInt16 × Constant) → Prop
  | _, [] => True
  | i, (j, c) :: cs => j = i ∧ i < count ∧ Consecutive count (i + c.width) cs

/-- A constant that takes the last two indices, and one more behind it. -/
def Wraps (cs : List (UInt16 × Constant)) : Prop :=
  ∃ before c next after, cs = before ++ (65534, c) :: next :: after ∧ c.width = 2

variable {count i : UInt16} {cs : List (UInt16 × Constant)}

theorem consecutive_passes (count : UInt16) (turns : Nat) (i : UInt16) (input : Text) :
    Consecutive count i (passes count turns i input).1 := by
  induction turns generalizing i input with
  | zero => trivial
  | succ turns ih =>
    rw [passes]
    split
    · next hlt =>
      dsimp only
      split
      · trivial
      · split
        · trivial
        · exact ⟨rfl, hlt, ih _ _⟩
    · trivial

theorem Consecutive.of_append {before : List (UInt16 × Constant)} (h : Consecutive count i (before ++ cs)) :
    ∃ j, Consecutive count j cs := by
  induction before generalizing i with
  | nil => exact ⟨i, h⟩
  | cons p before ih => exact ih h.2.2

theorem Constant.width_eq (c : Constant) : c.width = 1 ∨ c.width = 2 := by
  cases c with
  | utf8 text => exact .inl rfl
  | classRef name => exact .inl rfl
  | other tag =>
    rw [width]
    split
    · exact .inr rfl
    · exact .inl rfl

/-- The next index is larger unless the last two were taken. -/
theorem toNat_add_width (hlt : i < count) (c : Constant) (h : ¬(i = 65534 ∧ c.width = 2)) :
    (i + c.width).toNat = i.toNat + c.width.toNat := by
  have := UInt16.lt_iff_toNat_lt.1 hlt
  have := count.toNat_lt
  rw [UInt16.toNat_add, Nat.mod_eq_of_lt]
  rcases c.width_eq with hwidth | hwidth <;> rw [hwidth] at h ⊢
  · change i.toNat + 1 < 2 ^ 16
    omega
  · have : i.toNat ≠ 65534 := fun hi => h ⟨UInt16.toNat_inj.1 hi, rfl⟩
    change i.toNat + 2 < 2 ^ 16
    omega

theorem Consecutive.ascending (h : Consecutive count i cs) (hwraps : ¬Wraps cs) :
    (∀ p ∈ cs, i ≤ p.1) ∧ (cs.map Prod.fst).Pairwise (· < ·) ∧ cs.length ≤ count.toNat - i.toNat := by
  induction cs generalizing i with
  | nil => simp
  | cons p cs ih =>
    obtain ⟨j, c⟩ := p
    obtain ⟨rfl, hlt, hcs⟩ := h
    obtain ⟨hle, hpairwise, hlength⟩ := ih hcs fun ⟨before, d, next, after, heq, hd⟩ =>
      hwraps ⟨(j, c) :: before, d, next, after, by rw [heq]; rfl, hd⟩
    have hlt' := UInt16.lt_iff_toNat_lt.1 hlt
    cases cs with
    | nil => exact ⟨by simp, by simp, by simp; omega⟩
    | cons next cs =>
      have hstep := toNat_add_width hlt c fun ⟨hj, hc⟩ => hwraps ⟨[], c, next, cs, by rw [hj]; rfl, hc⟩
      have hpos : 0 < c.width.toNat := by rcases c.width_eq with h | h <;> rw [h] <;> decide
      have hnext := UInt16.lt_iff_toNat_lt.1 hcs.2.1
      have hfirst : ∀ p ∈ next :: cs, j < p.1 := fun p hp => by
        have := UInt16.le_iff_toNat_le.1 (hle p hp)
        exact UInt16.lt_iff_toNat_lt.2 (by omega)
      refine ⟨List.forall_mem_cons.2 ⟨UInt16.le_refl j, fun p hp => UInt16.le_of_lt (hfirst p hp)⟩, ?_, ?_⟩
      · rw [List.map_cons, List.pairwise_cons, List.forall_mem_map]
        exact ⟨hfirst, hpairwise⟩
      · rw [List.length_cons]
        omega

/-- Behind the last two indices comes index zero. -/
theorem Consecutive.wraps (h : Consecutive count i cs) (hwraps : Wraps cs) :
    count = 65535 ∧ ¬(cs.map Prod.fst).Pairwise (· < ·) := by
  obtain ⟨before, c, next, after, rfl, hwidth⟩ := hwraps
  obtain ⟨j, rfl, hlt, hnext, -⟩ := h.of_append
  rw [hwidth] at hnext
  constructor
  · have := UInt16.lt_iff_toNat_lt.1 hlt
    have := count.toNat_lt
    refine UInt16.toNat_inj.1 (?_ : count.toNat = 65535)
    change 65534 < count.toNat at *
    omega
  · intro hpairwise
    rw [List.map_append] at hpairwise
    have hlt := (List.pairwise_cons.1 (List.pairwise_append.1 hpairwise).2.1).1 next.1 (by simp)
    rw [hnext] at hlt
    have hzero : (65534 : UInt16) < 65534 + 2 := hlt
    exact absurd hzero (by decide)

/-- **The indices of a constant pool**, for every count and all bytes, whether or not reading fails in the end: they
ascend and there are fewer constants than the count, unless a constant of eight bytes takes the last two indices and one
more is read. For that the count has to be the largest one. -/
theorem pool_indices_iff (count : UInt16) (input : Text) :
    let run := passes count (input.length + 1) 1 input
    pool count input = run.2.map (fun rest => (run.1, rest)) ∧
    ((run.1.map Prod.fst).Pairwise (· < ·) ∧ run.1.length ≤ count.toNat - 1 ↔ ¬Wraps run.1) ∧
    (Wraps run.1 → count = 65535) := by
  intro run
  have hconsecutive : Consecutive count 1 run.1 := consecutive_passes count (input.length + 1) 1 input
  refine ⟨poolFrom_eq count _ 1 input, ⟨fun h hwraps => (hconsecutive.wraps hwraps).2 h.1, fun hwraps => ?_⟩,
    fun hwraps => (hconsecutive.wraps hwraps).1⟩
  exact (hconsecutive.ascending hwraps).2

theorem length_indexed (i : Nat) (es : List Entry) : (indexed i es).length = es.length := by
  induction es generalizing i with
  | nil => rfl
  | cons e es ih => simp [indexed, ih]

/-- With the largest count: constants up to index 65533, one of eight bytes, and one more, which gets index zero. -/
theorem pool_index_wraps :
    let input : Text :=
      (List.replicate 65533 (Entry.string 0)).flatMap Entry.bytes ++ [5, 0, 0, 0, 0, 0, 0, 0, 0, 8, 0, 0]
    let cs := (passes 65535 (input.length + 1) 1 input).1
    ¬(cs.map Prod.fst).Pairwise (· < ·) ∧ (65535 : UInt16).toNat - 1 < cs.length := by
  intro input cs
  have hspan (n : Nat) : span (List.replicate n (Entry.string 0)) = n := by simp [span, Entry.width]
  have hlength (n : Nat) : ((List.replicate n (Entry.string 0)).flatMap Entry.bytes).length = n * 3 := by
    simp [Entry.bytes, Entry.fields]
  have hturns : input.length + 1 = (List.replicate 65533 (Entry.string 0)).length + (131076 + 3) := by
    rw [List.length_append, hlength, List.length_replicate]
    rfl
  have hlast (turns : Nat) : (passes 65535 (turns + 3) 65534 [5, 0, 0, 0, 0, 0, 0, 0, 0, 8, 0, 0]).1 =
      [(65534, .other 5), (0, .other 8)] := rfl
  have hcs : cs = indexed 1 (List.replicate 65533 (Entry.string 0)) ++ [(65534, .other 5), (0, .other 8)] := by
    have hfits : ∀ e ∈ List.replicate 65533 (Entry.string 0), e.Fits :=
      fun e he => by rw [List.eq_of_mem_replicate he]; trivial
    have hcount : 1 + span (List.replicate 65533 (Entry.string 0)) ≤ (65535 : UInt16).toNat := by rw [hspan]; decide
    have hpasses := passes_flatMap_bytes hfits hcount (131076 + 3) [5, 0, 0, 0, 0, 0, 0, 0, 0, 8, 0, 0]
    rw [hspan] at hpasses
    rw [← hlast 131076]
    simp only [cs, hturns]
    exact congrArg Prod.fst hpasses
  rw [hcs]
  constructor
  · intro hpairwise
    rw [List.map_append] at hpairwise
    exact absurd (List.pairwise_append.1 hpairwise).2.1 (by decide)
  · rw [List.length_append, length_indexed, List.length_replicate]
    decide

end KiteCompiler.ClassFile
