import Mathlib.Data.Finset.Card
import Mathlib.Tactic.Linarith

/-!
# Walks that hand a value on

A walk goes from node to node of a finite set, gives each the value it carries, which never grows, and
stops at a node that has the value already.

* `handBound`: how many nodes such a walk can still change;
* **`handBound_lt`**: it drops whenever a node is changed, so that the walk ends, on cycles too.
-/

namespace RtThread

variable {α : Type} [DecidableEq α]

/-- The number of nodes that may still be changed when `v` is handed on: each smaller value may go round
once. -/
def handBound (S : Finset α) (f : α → ℕ) (v : ℕ) : ℕ :=
  v * (S.card + 1) + (S.filter fun a => f a ≠ v).card

/-- **A node gets a value that is not larger, and that it did not have.** -/
theorem handBound_lt {S : Finset α} {f g : α → ℕ} {a : α} {v w : ℕ} (ha : a ∈ S) (hle : w ≤ v)
    (hf : f a ≠ w) (hg : ∀ b, g b = if b = a then w else f b) : handBound S g w < handBound S f v := by
  unfold handBound
  rcases Nat.lt_or_eq_of_le hle with hlt | rfl
  · have hcard : (S.filter fun b => g b ≠ w).card ≤ S.card := Finset.card_filter_le _ _
    have hmul : (w + 1) * (S.card + 1) ≤ v * (S.card + 1) := Nat.mul_le_mul_right _ hlt
    linarith
  · have hsub : (S.filter fun b => g b ≠ w) ⊂ S.filter fun b => f b ≠ w := by
      refine Finset.ssubset_iff_of_subset (fun b hb => ?_) |>.mpr ⟨a, ?_, fun hmem => ?_⟩
      · rw [Finset.mem_filter, hg] at hb
        by_cases hba : b = a
        · rw [if_pos hba] at hb
          exact absurd rfl hb.2
        · rw [if_neg hba] at hb
          exact Finset.mem_filter.mpr hb
      · exact Finset.mem_filter.mpr ⟨ha, hf⟩
      · rw [Finset.mem_filter, hg, if_pos rfl] at hmem
        exact hmem.2 rfl
    have hcard := Finset.card_lt_card hsub
    omega

end RtThread
