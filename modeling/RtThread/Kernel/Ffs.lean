import Mathlib.Data.Nat.Bitwise

/-!
# Finding the first set bit

`__rt_ffs` of `kservice.c` looks up the lowest non-zero byte of a word in a table of 256 entries.

* `rtFfs`, `LowestSet`;
* **`rtFfs_spec`**: for a non-zero word, `rtFfs v - 1` is its lowest set bit.
-/

namespace RtThread

/-- `__lowest_bit_bitmap`. -/
def lowestBitBitmap : List ℕ :=
  [0, 0, 1, 0, 2, 0, 1, 0, 3, 0, 1, 0, 2, 0, 1, 0,
   4, 0, 1, 0, 2, 0, 1, 0, 3, 0, 1, 0, 2, 0, 1, 0,
   5, 0, 1, 0, 2, 0, 1, 0, 3, 0, 1, 0, 2, 0, 1, 0,
   4, 0, 1, 0, 2, 0, 1, 0, 3, 0, 1, 0, 2, 0, 1, 0,
   6, 0, 1, 0, 2, 0, 1, 0, 3, 0, 1, 0, 2, 0, 1, 0,
   4, 0, 1, 0, 2, 0, 1, 0, 3, 0, 1, 0, 2, 0, 1, 0,
   5, 0, 1, 0, 2, 0, 1, 0, 3, 0, 1, 0, 2, 0, 1, 0,
   4, 0, 1, 0, 2, 0, 1, 0, 3, 0, 1, 0, 2, 0, 1, 0,
   7, 0, 1, 0, 2, 0, 1, 0, 3, 0, 1, 0, 2, 0, 1, 0,
   4, 0, 1, 0, 2, 0, 1, 0, 3, 0, 1, 0, 2, 0, 1, 0,
   5, 0, 1, 0, 2, 0, 1, 0, 3, 0, 1, 0, 2, 0, 1, 0,
   4, 0, 1, 0, 2, 0, 1, 0, 3, 0, 1, 0, 2, 0, 1, 0,
   6, 0, 1, 0, 2, 0, 1, 0, 3, 0, 1, 0, 2, 0, 1, 0,
   4, 0, 1, 0, 2, 0, 1, 0, 3, 0, 1, 0, 2, 0, 1, 0,
   5, 0, 1, 0, 2, 0, 1, 0, 3, 0, 1, 0, 2, 0, 1, 0,
   4, 0, 1, 0, 2, 0, 1, 0, 3, 0, 1, 0, 2, 0, 1, 0]

/-- An entry of the table. -/
def lowestBit (v : BitVec 32) : ℕ := lowestBitBitmap.getD v.toNat 0

/-- `__rt_ffs`. -/
def rtFfs (value : BitVec 32) : ℕ :=
  if value = 0#32 then 0
  else if value &&& 0xff#32 ≠ 0#32 then lowestBit (value &&& 0xff#32) + 1
  else if value &&& 0xff00#32 ≠ 0#32 then lowestBit ((value &&& 0xff00#32) >>> 8) + 9
  else if value &&& 0xff0000#32 ≠ 0#32 then lowestBit ((value &&& 0xff0000#32) >>> 16) + 17
  else lowestBit ((value &&& 0xff000000#32) >>> 24) + 25

/-- `n` is the lowest set bit of `v`. -/
def LowestSet (v : BitVec 32) (n : ℕ) : Prop :=
  n < 32 ∧ v.getLsbD n = true ∧ ∀ j < n, v.getLsbD j = false

set_option maxRecDepth 8000 in
/-- Every entry `n` of a non-zero byte `b` is a set bit of `b`, and `2 ^ n` divides `b`. -/
theorem lowestBitBitmap_entries : lowestBitBitmap.zipIdx.all (fun e => e.2 == 0 ||
    (decide (e.1 < 8) && e.2 / 2 ^ e.1 % 2 == 1 && e.2 % 2 ^ e.1 == 0)) = true := by
  decide

set_option maxRecDepth 4000 in
theorem lowestBitBitmap_length : lowestBitBitmap.length = 256 := rfl

/-- The table gives the lowest set bit of a byte. -/
theorem lowestBitBitmap_spec {b : ℕ} (hb : b < 256) (h0 : b ≠ 0) :
    lowestBitBitmap.getD b 0 < 8 ∧ b.testBit (lowestBitBitmap.getD b 0) = true ∧
      ∀ j < lowestBitBitmap.getD b 0, b.testBit j = false := by
  have hlen : b < lowestBitBitmap.length := hb.trans_eq lowestBitBitmap_length.symm
  have hmem : (lowestBitBitmap.getD b 0, b) ∈ lowestBitBitmap.zipIdx := by
    rw [List.mem_zipIdx_iff_getElem?, List.getElem?_eq_getElem hlen, List.getD_eq_getElem _ _ hlen]
  generalize lowestBitBitmap.getD b 0 = n at hmem
  have h := List.all_eq_true.mp lowestBitBitmap_entries _ hmem
  simp only [Bool.or_eq_true, Bool.and_eq_true, beq_iff_eq, decide_eq_true_eq, h0, false_or] at h
  obtain ⟨⟨hn, hbit⟩, hmod⟩ := h
  refine ⟨hn, by rw [Nat.testBit_eq_decide_div_mod_eq, hbit]; rfl, fun j hj => ?_⟩
  have := Nat.testBit_mod_two_pow b n j
  rw [hmod, Nat.zero_testBit, decide_eq_true hj, Bool.true_and] at this
  exact this.symm

variable {v m w : BitVec 32} {i : ℕ}

theorem lowestBit_spec (hi : i ≤ 24)
    (hw : ∀ j, w.getLsbD j = (decide (j < 8) && v.getLsbD (i + j))) (h0 : w ≠ 0#32)
    (hlow : ∀ j < i, v.getLsbD j = false) : LowestSet v (lowestBit w + i) := by
  have hlt : w.toNat < 2 ^ 8 := by
    refine Nat.lt_pow_two_of_testBit _ fun j hj => ?_
    have h := hw j
    rw [decide_eq_false (by omega), Bool.false_and] at h
    exact h
  have hne : w.toNat ≠ 0 := fun h => h0 (BitVec.eq_of_toNat_eq h)
  obtain ⟨h8, hset, hlow'⟩ := lowestBitBitmap_spec hlt hne
  have hbit : ∀ j < 8, w.toNat.testBit j = v.getLsbD (i + j) := fun j hj => by
    have h := hw j
    rwa [decide_eq_true hj, Bool.true_and] at h
  have hl : lowestBit w < 8 := h8
  refine ⟨by omega, ?_, fun j hj => ?_⟩
  · rw [Nat.add_comm, ← hbit _ hl]; exact hset
  · by_cases hji : j < i
    · exact hlow j hji
    · rw [show j = i + (j - i) by omega, ← hbit _ (by omega)]
      exact hlow' _ (by change _ < lowestBit w; omega)

/-- A byte of `v`, moved to the low end. -/
theorem getLsbD_byte (hm : ∀ j < 32, m.getLsbD j = decide (i ≤ j ∧ j < i + 8)) (j : ℕ) :
    ((v &&& m) >>> i).getLsbD j = (decide (j < 8) && v.getLsbD (i + j)) := by
  rw [BitVec.getLsbD_ushiftRight, BitVec.getLsbD_and]
  by_cases hj : i + j < 32
  · rw [hm _ hj, Bool.and_comm]
    congr 1
    exact decide_eq_decide.mpr (by omega)
  · rw [BitVec.getLsbD_of_ge _ _ (by omega), Bool.false_and, Bool.and_false]

theorem getLsbD_of_byte_eq_zero (hm : ∀ j < 32, m.getLsbD j = decide (i ≤ j ∧ j < i + 8))
    (h : v &&& m = 0#32) {j : ℕ} (h1 : i ≤ j) (h2 : j < i + 8) : v.getLsbD j = false := by
  by_cases hj : j < 32
  · have hz := congrArg (BitVec.getLsbD · j) h
    simp only [BitVec.getLsbD_and, hm j hj, BitVec.getLsbD_zero] at hz
    simpa [h1, h2] using hz
  · exact BitVec.getLsbD_of_ge _ _ (by omega)

theorem byte_ne_zero (hm : ∀ j < 32, m.getLsbD j = decide (i ≤ j ∧ j < i + 8))
    (h : v &&& m ≠ 0#32) : (v &&& m) >>> i ≠ 0#32 := by
  intro h'
  refine h (BitVec.eq_of_getLsbD_eq fun j hj => ?_)
  rw [BitVec.getLsbD_and, hm j hj, BitVec.getLsbD_zero]
  by_cases hb : i ≤ j ∧ j < i + 8
  · have hz := getLsbD_byte (v := v) hm (j - i)
    rw [h', decide_eq_true (by omega), show i + (j - i) = j by omega, BitVec.getLsbD_zero,
      Bool.true_and] at hz
    rw [← hz, Bool.false_and]
  · rw [decide_eq_false hb, Bool.and_false]

/-- **`__rt_ffs` finds the lowest set bit.** -/
theorem rtFfs_spec (hv : v ≠ 0#32) : LowestSet v (rtFfs v - 1) := by
  have m0 : ∀ j < 32, (0xff#32).getLsbD j = decide (0 ≤ j ∧ j < 0 + 8) := by decide
  have m1 : ∀ j < 32, (0xff00#32).getLsbD j = decide (8 ≤ j ∧ j < 8 + 8) := by decide
  have m2 : ∀ j < 32, (0xff0000#32).getLsbD j = decide (16 ≤ j ∧ j < 16 + 8) := by decide
  have m3 : ∀ j < 32, (0xff000000#32).getLsbD j = decide (24 ≤ j ∧ j < 24 + 8) := by decide
  unfold rtFfs
  rw [if_neg hv]
  split_ifs with h0 h1 h2
  · exact lowestBit_spec (i := 0) (by omega)
      (fun j => by simpa using getLsbD_byte (v := v) m0 j) h0 (by omega)
  · have z0 := not_not.mp h0
    exact lowestBit_spec (by omega) (getLsbD_byte m1) (byte_ne_zero m1 h1)
      fun j hj => getLsbD_of_byte_eq_zero m0 z0 (by omega) (by omega)
  · have z0 := not_not.mp h0
    have z1 := not_not.mp h1
    refine lowestBit_spec (by omega) (getLsbD_byte m2) (byte_ne_zero m2 h2)
      fun j hj => ?_
    by_cases hj8 : j < 8
    · exact getLsbD_of_byte_eq_zero m0 z0 (by omega) (by omega)
    · exact getLsbD_of_byte_eq_zero m1 z1 (by omega) (by omega)
  · have z0 := not_not.mp h0
    have z1 := not_not.mp h1
    have z2 := not_not.mp h2
    have low : ∀ j < 24, v.getLsbD j = false := fun j hj => by
      by_cases hj8 : j < 8
      · exact getLsbD_of_byte_eq_zero m0 z0 (by omega) (by omega)
      · by_cases hj16 : j < 16
        · exact getLsbD_of_byte_eq_zero m1 z1 (by omega) (by omega)
        · exact getLsbD_of_byte_eq_zero m2 z2 (by omega) (by omega)
    refine lowestBit_spec le_rfl (getLsbD_byte m3) (byte_ne_zero m3 fun h => hv ?_) low
    refine BitVec.eq_of_getLsbD_eq fun j hj => ?_
    by_cases hj24 : j < 24
    · rw [low j hj24, BitVec.getLsbD_zero]
    · rw [getLsbD_of_byte_eq_zero m3 h (by omega) (by omega), BitVec.getLsbD_zero]

end RtThread
