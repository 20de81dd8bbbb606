import Mathlib.Algebra.Ring.Nat
import Mathlib.Tactic.Common

/-!
# Alignment

* `rtAlignDown`, `rtAlign`: the macros `RT_ALIGN_DOWN` and `RT_ALIGN` of `rtdef.h`, for
  `RT_ALIGN_SIZE`; `alignDownTo`, `alignTo`: for another power of two;
* `le_rtAlign`: the latter rounds up;
* `sizeSub`: the difference of two `rt_size_t`;
* `cachelineSize`: the lines of the data cache.
-/

namespace RtThread

/-- `RT_ALIGN_SIZE`. -/
abbrev rtAlignSize : ℕ := 8

/-- `HPM_L1C_CACHELINE_SIZE`. -/
def cachelineSize : ℕ := 64

/-- `RT_ALIGN_DOWN(size, RT_ALIGN_SIZE)`. -/
def rtAlignDown (size : ℕ) : ℕ := size - size % rtAlignSize

/-- `RT_ALIGN(size, RT_ALIGN_SIZE)`, in 32 bits. -/
def rtAlign (size : ℕ) : ℕ := rtAlignDown ((size + (rtAlignSize - 1)) % 2 ^ 32)

theorem rtAlignDown_mod (size : ℕ) : rtAlignDown size % rtAlignSize = 0 := by
  change (size - size % 8) % 8 = 0
  omega

theorem rtAlign_mod (size : ℕ) : rtAlign size % rtAlignSize = 0 := rtAlignDown_mod _

theorem rtAlign_rtAlign (size : ℕ) : rtAlign (rtAlign size) = rtAlign size := by
  have h : rtAlign size = (size + 7) % 2 ^ 32 - (size + 7) % 2 ^ 32 % 8 := rfl
  change (rtAlign size + 7) % 2 ^ 32 - (rtAlign size + 7) % 2 ^ 32 % 8 = rtAlign size
  rw [h]
  omega

/-- `RT_ALIGN_DOWN(size, align)` for a power of two. -/
def alignDownTo (size align : ℕ) : ℕ := size / align * align

/-- `RT_ALIGN(size, align)` for a power of two, in 32 bits. -/
def alignTo (size align : ℕ) : ℕ := alignDownTo ((size + (align - 1)) % 2 ^ 32) align

theorem alignTo_eq {size align : ℕ} (h : size + (align - 1) < 2 ^ 32) :
    alignTo size align = (size + (align - 1)) / align * align := by
  rw [alignTo, Nat.mod_eq_of_lt h, alignDownTo]

/-- `RT_ALIGN` rounds up, where it does not wrap. -/
theorem le_rtAlign {size : ℕ} (h : size ≤ 2 ^ 32 - rtAlignSize) : size ≤ rtAlign size := by
  have h' : size ≤ 2 ^ 32 - 8 := h
  change size ≤ (size + 7) % 2 ^ 32 - (size + 7) % 2 ^ 32 % 8
  omega

/-- `a - b` for two `rt_size_t`, in 32 bits. -/
def sizeSub (a b : ℕ) : ℕ := (a + (2 ^ 32 - b % 2 ^ 32)) % 2 ^ 32

theorem sizeSub_of_le {a b : ℕ} (h : b ≤ a) (ha : a < 2 ^ 32) : sizeSub a b = a - b := by
  rw [sizeSub, Nat.mod_eq_of_lt (Nat.lt_of_le_of_lt h ha)]
  omega

end RtThread
