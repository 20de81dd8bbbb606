import Mathlib.Tactic.Common

/-!
# Bytes by their addresses

* `copyBytes`: what `memcpy` leaves, between areas that do not overlap;
* `copyBytes_in`, `copyBytes_out`: the bytes inside and outside of the destination.
-/

namespace RtThread

/-- `n` bytes are copied from `src` to `dst`. -/
def copyBytes (data : ℕ → UInt8) (dst src n : ℕ) : ℕ → UInt8 := fun a =>
  if dst ≤ a ∧ a < dst + n then data (src + (a - dst)) else data a

variable {data : ℕ → UInt8} {dst src n a i : ℕ}

theorem copyBytes_in (hi : i < n) : copyBytes data dst src n (dst + i) = data (src + i) := by
  rw [copyBytes, if_pos ⟨Nat.le_add_right _ _, Nat.add_lt_add_left hi _⟩, Nat.add_sub_cancel_left]

theorem copyBytes_out (h : a < dst ∨ dst + n ≤ a) : copyBytes data dst src n a = data a := by
  rw [copyBytes, if_neg]
  omega

end RtThread
