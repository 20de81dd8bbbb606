import Mathlib.Algebra.BigOperators.Pi
import Mathlib.Algebra.Order.BigOperators.Group.Finset
import Mathlib.Order.Interval.Finset.Nat

/-!
# Extents

A block that begins at `p` takes up `f p` places; where no block begins, `f p` is zero.

* `extentSum`: the places that the blocks below a bound take up;
* `extentSum_update`: a block comes or goes;
* **`extentSum_le`**: blocks that lie apart take up no more places than there are;
* `Extents`: which blocks there are, with `Extents.take` and `Extents.drop`.
-/

namespace RtThread

/-- The places of all blocks that begin below `bound`. -/
def extentSum (bound : ℕ) (f : ℕ → ℕ) : ℕ := ∑ p ∈ Finset.range bound, f p

section

variable {bound p n : ℕ} {f f' : ℕ → ℕ} {block block' : ℕ → ℕ → Prop}

/-- One block gets another size. -/
theorem extentSum_update (hp : p < bound) :
    extentSum bound (Function.update f p n) + f p = extentSum bound f + n := by
  have hmem : p ∈ Finset.range bound := Finset.mem_range.mpr hp
  have hsum := Finset.add_sum_erase (Finset.range bound) f hmem
  unfold extentSum
  rw [Finset.sum_update_of_mem hmem, Finset.sdiff_singleton_eq_erase, ← hsum]
  omega

/-- Without a block there is nothing. -/
theorem extentSum_zero (h : ∀ p, f p = 0) : extentSum bound f = 0 :=
  Finset.sum_eq_zero fun p _ => h p

/-- **Blocks that lie apart** below `n` take up no more than it. -/
theorem extentSum_le (hin : ∀ p, f p ≠ 0 → p + f p ≤ n)
    (hapart : ∀ p q, p ≠ q → f p ≠ 0 → f q ≠ 0 → p + f p ≤ q ∨ q + f q ≤ p) :
    extentSum bound f ≤ n := by
  have hsum : extentSum bound f =
      ((Finset.range bound).biUnion fun p => Finset.Ico p (p + f p)).card := by
    rw [Finset.card_biUnion]
    · refine Finset.sum_congr rfl fun p _ => ?_
      rw [Nat.card_Ico]
      omega
    · intro p _ q _ hpq
      refine Finset.disjoint_left.mpr ?_
      intro i hi hi'
      have hi := Finset.mem_Ico.mp hi
      have hi' := Finset.mem_Ico.mp hi'
      have := hapart p q hpq (by omega) (by omega)
      omega
  have hsub : ((Finset.range bound).biUnion fun p => Finset.Ico p (p + f p)) ⊆ Finset.range n := by
    intro i hi
    obtain ⟨p, -, hp⟩ := Finset.mem_biUnion.mp hi
    have hp := Finset.mem_Ico.mp hp
    have := hin p (by omega)
    exact Finset.mem_range.mpr (by omega)
  rw [hsum]
  exact (Finset.card_le_card hsub).trans_eq (Finset.card_range n)

/-- The blocks are those that `f` has: at `p` there is a block of `n` places. -/
def Extents (f : ℕ → ℕ) (block : ℕ → ℕ → Prop) : Prop := ∀ p n, block p n ↔ f p = n ∧ 0 < n

namespace Extents

theorem congr (h : Extents f block) (hb : ∀ q k, block' q k ↔ block q k) : Extents f block' :=
  fun q k => (hb q k).trans (h q k)

theorem eq_zero (h : Extents f block) (hp : ∀ k, ¬ block p k) : f p = 0 := by
  by_contra hne
  exact hp (f p) ((h p (f p)).mpr ⟨rfl, Nat.pos_of_ne_zero hne⟩)

/-- The blocks determine their sizes. -/
theorem unique (h : Extents f block) (h' : Extents f' block) : f = f' := by
  funext p
  by_cases hp : f' p = 0
  · rw [hp]
    refine h.eq_zero fun k hk => ?_
    have := (h' p k).mp hk
    omega
  · exact ((h p (f' p)).mp ((h' p (f' p)).mpr ⟨rfl, Nat.pos_of_ne_zero hp⟩)).1

/-- A block comes. -/
theorem take (h : Extents f block) (hn : 0 < n) (hp : ∀ k, ¬ block p k)
    (hb : ∀ q k, block' q k ↔ block q k ∨ q = p ∧ k = n) :
    Extents (Function.update f p n) block' := by
  intro q k
  rw [hb]
  by_cases hq : q = p
  · subst hq
    rw [Function.update_self]
    constructor
    · rintro (hk | ⟨-, rfl⟩)
      · exact absurd hk (hp k)
      · exact ⟨rfl, hn⟩
    · rintro ⟨rfl, -⟩
      exact .inr ⟨rfl, rfl⟩
  · rw [Function.update_of_ne hq, h]
    exact or_iff_left fun hc => hq hc.1

/-- A block goes. -/
theorem drop (h : Extents f block) (hb : ∀ q k, block' q k ↔ block q k ∧ q ≠ p) :
    Extents (Function.update f p 0) block' := by
  intro q k
  rw [hb]
  by_cases hq : q = p
  · rw [hq, Function.update_self]
    refine iff_of_false (fun hc => hc.2 rfl) fun hc => ?_
    omega
  · rw [Function.update_of_ne hq, h]
    exact and_iff_left hq

end Extents

end

end RtThread
