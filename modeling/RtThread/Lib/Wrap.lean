import Mathlib.Data.BitVec

/-!
# Counters that wrap

Times are read off a counter of `w` bits. Differences are taken modulo `2 ^ w` and compared with half the
range; that is an order as long as all times lie in a window behind a **base**.

* `offset`: how far a time is behind the base;
* `toNat_sub_eq_offset`: a difference of times by their offsets;
* **`notAfter_iff`**, **`reached_iff`**: the two comparisons with half the range;
* `offset_add`, `offset_rebase`: a later time, and a later base;
* `toNat_ofNat_sub_of_le`, `toNat_ofNat_sub_of_lt`: the difference of two numbers read modulo the range.
-/

namespace RtThread

variable {w : ℕ} {b c x y : BitVec w}

/-- How far a time is behind the base. -/
def offset (b x : BitVec w) : ℕ := (x - b).toNat

/-- Half the range: the largest value divided by two. -/
def halfRange (w : ℕ) : ℕ := (2 ^ w - 1) / 2

theorem halfRange_lt : halfRange w < 2 ^ w := by
  have hpos := Nat.two_pow_pos w
  unfold halfRange
  omega

theorem two_pow_eq_halfRange (hw : 0 < w) : 2 ^ w = 2 * halfRange w + 2 := by
  obtain ⟨v, rfl⟩ : ∃ v, w = v + 1 := ⟨w - 1, by omega⟩
  have hpos := Nat.two_pow_pos v
  unfold halfRange
  rw [Nat.pow_succ]
  omega

/-- Half the range, twice, is less than the range. -/
theorem two_mul_halfRange : 2 * halfRange w < 2 ^ w := by
  have hpos := Nat.two_pow_pos w
  unfold halfRange
  omega

@[simp] theorem offset_self : offset b b = 0 := by
  unfold offset
  rw [sub_self]
  rfl

theorem toNat_sub_cases (x y : BitVec w) : (x - y).toNat =
    if y.toNat ≤ x.toNat then x.toNat - y.toNat else 2 ^ w - (y.toNat - x.toNat) := by
  have hx := x.isLt
  have hy := y.isLt
  rw [BitVec.toNat_sub]
  split_ifs with h
  · have hsum : 2 ^ w - y.toNat + x.toNat = (x.toNat - y.toNat) + 2 ^ w := by omega
    rw [hsum, Nat.add_mod_right]
    exact Nat.mod_eq_of_lt (by omega)
  · rw [Nat.mod_eq_of_lt (by omega)]
    omega

/-- **A difference of times** by their offsets. -/
theorem toNat_sub_eq_offset (b x y : BitVec w) : (x - y).toNat =
    if offset b y ≤ offset b x then offset b x - offset b y
    else 2 ^ w - (offset b y - offset b x) := by
  rw [← sub_sub_sub_cancel_right x y b]
  exact toNat_sub_cases (x - b) (y - b)

theorem offset_inj (h : offset b x = offset b y) : x = y :=
  sub_left_injective (BitVec.eq_of_toNat_eq h)

/-- A later time. -/
theorem offset_add (h : offset b x + y.toNat < 2 ^ w) : offset b (x + y) = offset b x + y.toNat := by
  unfold offset at *
  rw [add_sub_right_comm, BitVec.toNat_add]
  exact Nat.mod_eq_of_lt h

/-- A later base. -/
theorem offset_rebase (h : offset b c ≤ offset b x) : offset c x = offset b x - offset b c := by
  have hsub := toNat_sub_eq_offset b x c
  rw [if_pos h] at hsub
  exact hsub

/-- **Whether a time is not after another one**: the difference is zero or at least half the range. -/
theorem notAfter_iff (hup : offset b x < offset b y + halfRange w)
    (hlow : offset b y + halfRange w ≤ offset b x + 2 ^ w) :
    (x - y = 0 ∨ ¬(x - y).toNat < halfRange w) ↔ offset b x ≤ offset b y := by
  have hsub := toNat_sub_eq_offset b x y
  have hzero : x - y = 0 ↔ offset b x = offset b y := by
    rw [sub_eq_zero]
    exact ⟨congrArg _, offset_inj⟩
  rw [hzero]
  split_ifs at hsub with h
  · omega
  · omega

/-- **Whether a time has been reached**: it is less than half the range back. -/
theorem reached_iff (hlate : offset b y < offset b x + halfRange w)
    (hnear : offset b x + halfRange w ≤ offset b y + 2 ^ w) :
    (y - x).toNat < halfRange w ↔ offset b x ≤ offset b y := by
  have hsub := toNat_sub_eq_offset b y x
  split_ifs at hsub with h
  · omega
  · omega

/-- **The difference** of a number and one that is not greater. -/
theorem toNat_ofNat_sub_of_le {m n : ℕ} (h : n ≤ m) (hlt : m - n < 2 ^ w) :
    (BitVec.ofNat w m - BitVec.ofNat w n).toNat = m - n := by
  have hsum : BitVec.ofNat w m = BitVec.ofNat w (m - n) + BitVec.ofNat w n := by
    rw [← BitVec.ofNat_add, Nat.sub_add_cancel h]
  rw [hsum, add_sub_cancel_right, BitVec.toNat_ofNat, Nat.mod_eq_of_lt hlt]

/-- **The difference** of a number and a greater one. -/
theorem toNat_ofNat_sub_of_lt {m n : ℕ} (h : m < n) (hlt : n - m < 2 ^ w) :
    (BitVec.ofNat w m - BitVec.ofNat w n).toNat = 2 ^ w - (n - m) := by
  rw [← neg_sub, BitVec.toNat_neg, toNat_ofNat_sub_of_le h.le hlt]
  exact Nat.mod_eq_of_lt (by omega)

end RtThread
