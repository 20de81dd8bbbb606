import Mathlib.Tactic.Common

/-!
# Circular arrays

A circular array of `n` cells is a function on positions; only the positions below `n` matter.

* `ringIndex`: the cell `i` steps behind a cell, for at most one turn;
* `window`: the contents of consecutive cells; `window_append`, `window_take`, `window_drop`;
* `blit`: a block copy; `window_blit`, `window_blit_two`: writing a block in one or in two pieces,
  **`window_blit_other`**: a block behind a window leaves the window alone.
-/

namespace RtThread

variable {α : Type} {n p i j k : ℕ}

/-- The cell `i` steps behind cell `p` of `n`. -/
def ringIndex (n p i : ℕ) : ℕ := if p + i < n then p + i else p + i - n

theorem ringIndex_lt (hp : p < n) (hi : i ≤ n) : ringIndex n p i < n := by
  unfold ringIndex; split_ifs <;> omega

@[simp] theorem ringIndex_zero (hp : p < n) : ringIndex n p 0 = p := by
  unfold ringIndex; rw [if_pos (by omega)]; rfl

theorem ringIndex_self (hp : p < n) : ringIndex n p n = p := by
  unfold ringIndex; rw [if_neg (by omega)]; omega

theorem ringIndex_add (hp : p < n) (h : i + j ≤ n) :
    ringIndex n (ringIndex n p i) j = ringIndex n p (i + j) := by
  unfold ringIndex; split_ifs <;> omega

theorem ringIndex_inj (hi : i < n) (hj : j < n) (h : ringIndex n p i = ringIndex n p j) :
    i = j := by
  unfold ringIndex at h; split_ifs at h <;> omega

theorem ringIndex_eq_mod (hp : p < n) (hi : i ≤ n) : ringIndex n p i = (p + i) % n := by
  unfold ringIndex
  split_ifs with h
  · exact (Nat.mod_eq_of_lt h).symm
  · rw [Nat.mod_eq_sub_mod (by omega), Nat.mod_eq_of_lt (by omega)]

/-- The contents of the `k` cells from `p` on. -/
def window (n : ℕ) (f : ℕ → α) (p k : ℕ) : List α :=
  (List.range k).map fun i => f (ringIndex n p i)

variable {f g : ℕ → α}

@[simp] theorem length_window : (window n f p k).length = k := by simp [window]

@[simp] theorem getElem_window (h : i < (window n f p k).length) :
    (window n f p k)[i] = f (ringIndex n p i) := by simp [window]

theorem window_congr (h : ∀ i < k, g (ringIndex n p i) = f (ringIndex n p i)) :
    window n g p k = window n f p k :=
  List.map_congr_left fun i hi => h i (List.mem_range.mp hi)

theorem window_append (hp : p < n) (h : j + k ≤ n) :
    window n f p (j + k) = window n f p j ++ window n f (ringIndex n p j) k := by
  apply List.ext_getElem (by simp)
  intro i h1 h2
  rw [getElem_window, List.getElem_append]
  split_ifs with hij
  · rw [getElem_window]
  · rw [length_window] at h1 hij
    rw [getElem_window, length_window, ringIndex_add hp (by omega)]
    congr 2
    omega

theorem window_take (h : j ≤ k) : (window n f p k).take j = window n f p j := by
  rw [window, ← List.map_take, List.take_range, Nat.min_eq_left h]
  rfl

theorem window_drop (hp : p < n) (h : j ≤ k) (hk : k ≤ n) :
    (window n f p k).drop j = window n f (ringIndex n p j) (k - j) := by
  obtain ⟨m, rfl⟩ := Nat.exists_eq_add_of_le h
  rw [window_append hp hk, List.drop_left' length_window, Nat.add_sub_cancel_left]

theorem window_one (hp : p < n) : window n f p 1 = [f p] := by
  simp [window, ringIndex_zero hp]

/-- A block copied to position `a`. -/
def blit (f : ℕ → α) (a : ℕ) (xs : List α) : ℕ → α := fun i =>
  if h : a ≤ i ∧ i - a < xs.length then xs.get ⟨i - a, h.2⟩ else f i

theorem blit_of_mem {a : ℕ} {xs : List α} (h1 : a ≤ i) (h2 : i - a < xs.length) :
    blit f a xs i = xs.get ⟨i - a, h2⟩ := dif_pos ⟨h1, h2⟩

theorem blit_of_not {a : ℕ} {xs : List α} (h : i < a ∨ a + xs.length ≤ i) :
    blit f a xs i = f i := dif_neg (by omega)

@[simp] theorem blit_nil {a : ℕ} : blit f a [] = f := by
  funext i; exact dif_neg (by simp)

theorem blit_singleton {a : ℕ} (x : α) : blit f a [x] = Function.update f a x := by
  funext i
  by_cases h : i = a
  · subst h; rw [Function.update_self, blit_of_mem (Nat.le_refl _) (by simp)]; simp
  · rw [Function.update_of_ne h, blit_of_not (by rw [List.length_singleton]; omega)]

/-- A block that does not reach the end of the array. -/
theorem window_blit {xs : List α} (h : p + xs.length ≤ n) :
    window n (blit f p xs) p xs.length = xs := by
  apply List.ext_getElem (by simp)
  intro i h1 h2
  rw [getElem_window, ringIndex, if_pos (by omega), blit_of_mem (by omega) (by omega)]
  simp

/-- A block that is copied in two pieces, to the end of the array and to its start. -/
theorem window_blit_two {xs : List α} (hp : p < n) (hl : n - p ≤ xs.length) (hn : xs.length ≤ n) :
    window n (blit (blit f p (xs.take (n - p))) 0 (xs.drop (n - p))) p xs.length = xs := by
  apply List.ext_getElem (by simp)
  intro i h1 h2
  rw [getElem_window, ringIndex]
  split_ifs with hi
  · rw [blit_of_not (.inr (by rw [List.length_drop]; omega)),
      blit_of_mem (by omega) (by rw [List.length_take]; omega)]
    simp
  · rw [blit_of_mem (by omega) (by rw [List.length_drop]; omega)]
    simp only [List.get_eq_getElem, List.getElem_drop]
    congr 1
    omega

/-- **A block behind a window leaves it alone.** -/
theorem window_blit_other {xs : List α} (hp : p < n) (h : k + xs.length ≤ n)
    (hg : ∀ i, (∀ j < xs.length, i ≠ ringIndex n (ringIndex n p k) j) → i < n → g i = f i) :
    window n g p k = window n f p k := by
  apply window_congr
  intro i hi
  refine hg _ (fun j hj he => ?_) (ringIndex_lt hp (by omega))
  rw [ringIndex_add hp (by omega)] at he
  have := ringIndex_inj (by omega) (by omega) he
  omega

theorem blit_other {xs : List α} (h : p + xs.length ≤ n)
    (hi : ∀ j < xs.length, i ≠ ringIndex n p j) : blit f p xs i = f i := by
  apply blit_of_not
  by_contra hc
  refine hi (i - p) (by omega) ?_
  rw [ringIndex, if_pos (by omega)]
  omega

theorem blit_two_other {xs : List α} (hp : p < n) (hl : n - p ≤ xs.length)
    (hi : ∀ j < xs.length, i ≠ ringIndex n p j) (hin : i < n) :
    blit (blit f p (xs.take (n - p))) 0 (xs.drop (n - p)) i = f i := by
  have h1 : i < p := by
    by_contra hc
    refine hi (i - p) (by omega) ?_
    rw [ringIndex, if_pos (by omega)]
    omega
  have h2 : xs.length - (n - p) ≤ i := by
    by_contra hc
    refine hi (i + (n - p)) (by omega) ?_
    rw [ringIndex, if_neg (by omega)]
    omega
  rw [blit_of_not (.inr (by rw [List.length_drop]; omega)), blit_of_not (.inl h1)]

end RtThread
