import Mathlib.Order.MinMax
import Mathlib.Tactic.Common

/-!
# The least of a base value and of the values of a list

* `leastOver i f l`: the least of `i` and `f x` for `x ∈ l`;
* `le_leastOver_iff`: its characterisation, from which all else follows;
* `foldl_least`: the loop that computes it;
* `leastOver_cons`, `leastOver_of_erase`, `leastOver_lower`: adding, taking out, lowering a value;
* `firstLeast`: the loop that also keeps the element; `firstLeast_spec`.
-/

namespace RtThread

variable {α β : Type} [LinearOrder α] {i a : α} {f g : β → α} {l l' : List β}

/-- The least of `i` and the values of `f` on `l`. -/
def leastOver (i : α) (f : β → α) (l : List β) : α := (l.map f).foldr min i

theorem le_leastOver_iff : a ≤ leastOver i f l ↔ a ≤ i ∧ ∀ x ∈ l, a ≤ f x := by
  induction l with
  | nil => simp [leastOver]
  | cons x l ih =>
    have hstep : leastOver i f (x :: l) = min (f x) (leastOver i f l) := rfl
    rw [hstep, le_min_iff, ih, List.forall_mem_cons]
    tauto

theorem leastOver_le : leastOver i f l ≤ i := (le_leastOver_iff.mp le_rfl).1

theorem leastOver_le_of_mem {x : β} (hx : x ∈ l) : leastOver i f l ≤ f x :=
  (le_leastOver_iff.mp le_rfl).2 x hx

/-- A loop that keeps the smaller value computes it. -/
theorem foldl_least :
    l.foldl (fun p x => if f x < p then f x else p) i = leastOver i f l := by
  refine eq_of_forall_le_iff fun a => ?_
  rw [le_leastOver_iff]
  induction l generalizing i with
  | nil => simp
  | cons x l ih =>
    rw [List.foldl_cons, ih, List.forall_mem_cons]
    have : a ≤ (if f x < i then f x else i) ↔ a ≤ i ∧ a ≤ f x := by
      split_ifs with h
      · exact ⟨fun ha => ⟨ha.trans h.le, ha⟩, And.right⟩
      · exact ⟨fun ha => ⟨ha, ha.trans (not_lt.mp h)⟩, And.left⟩
    rw [this, and_assoc]

/-- Adding a value. -/
theorem leastOver_cons (x : β) : leastOver i f (x :: l) = min (f x) (leastOver i f l) := rfl

/-- Only the values on the list matter. -/
theorem leastOver_congr (h : ∀ x ∈ l, f x = g x) : leastOver i f l = leastOver i g l := by
  rw [leastOver, leastOver, List.map_congr_left h]

/-- Taking out a value that does not attain the least. -/
theorem leastOver_of_erase [DecidableEq β] {x : β} (hx : x ∈ l) :
    leastOver i f l = min (f x) (leastOver i f (l.erase x)) := by
  refine eq_of_forall_le_iff fun a => ?_
  rw [le_min_iff, le_leastOver_iff, le_leastOver_iff]
  have hmem : (∀ y ∈ l, a ≤ f y) ↔ a ≤ f x ∧ ∀ y ∈ l.erase x, a ≤ f y := by
    refine ⟨fun h => ⟨h x hx, fun y hy => h y (List.mem_of_mem_erase hy)⟩, fun h y hy => ?_⟩
    by_cases hyx : y = x
    · rw [hyx]; exact h.1
    · exact h.2 y ((List.mem_erase_of_ne hyx).mpr hy)
  rw [hmem]
  tauto

/-- Lowering one value. -/
theorem leastOver_lower {x : β} {p : α} (hx : x ∈ l) (hf : g x = min p (f x))
    (ho : ∀ y ∈ l, y ≠ x → g y = f y) : leastOver i g l = min p (leastOver i f l) := by
  refine eq_of_forall_le_iff fun a => ?_
  rw [le_min_iff, le_leastOver_iff, le_leastOver_iff]
  constructor
  · rintro ⟨hi, h⟩
    have hax : a ≤ p ∧ a ≤ f x := le_min_iff.mp (hf ▸ h x hx)
    refine ⟨hax.1, hi, fun y hy => ?_⟩
    by_cases hyx : y = x
    · rw [hyx]; exact hax.2
    · rw [← ho y hy hyx]; exact h y hy
  · rintro ⟨hp, hi, h⟩
    refine ⟨hi, fun y hy => ?_⟩
    by_cases hyx : y = x
    · rw [hyx, hf]; exact le_min hp (h x hx)
    · rw [ho y hy hyx]; exact h y hy

/-- The loop that keeps the smallest value below a bound, and the first element that has it. -/
def firstLeast (f : β → α) (p : α × Option β) (l : List β) : α × Option β :=
  l.foldl (fun p x => if f x < p.1 then (f x, some x) else p) p

/-- What the loop has kept: nothing is below the bound, or an element with the smallest value is. -/
theorem firstLeast_spec (p : α × Option β) (l : List β) :
    (firstLeast f p l = p ∧ ∀ x ∈ l, p.1 ≤ f x) ∨
    ∃ x ∈ l, firstLeast f p l = (f x, some x) ∧ f x < p.1 ∧ ∀ y ∈ l, f x ≤ f y := by
  induction l generalizing p with
  | nil => exact Or.inl ⟨rfl, fun x hx => absurd hx List.not_mem_nil⟩
  | cons a l ih =>
    have hcons : firstLeast f p (a :: l) =
        firstLeast f (if f a < p.1 then (f a, some a) else p) l := rfl
    rw [hcons]
    by_cases ha : f a < p.1
    · rw [if_pos ha]
      refine Or.inr ?_
      rcases ih (f a, some a) with ⟨he, hle⟩ | ⟨x, hx, he, hlt, hle⟩
      · exact ⟨a, List.mem_cons_self, he, ha, List.forall_mem_cons.mpr ⟨le_rfl, hle⟩⟩
      · exact ⟨x, List.mem_cons_of_mem a hx, he, hlt.trans ha,
          List.forall_mem_cons.mpr ⟨hlt.le, hle⟩⟩
    · rw [if_neg ha]
      rcases ih p with ⟨he, hle⟩ | ⟨x, hx, he, hlt, hle⟩
      · exact Or.inl ⟨he, List.forall_mem_cons.mpr ⟨not_lt.mp ha, hle⟩⟩
      · exact Or.inr ⟨x, List.mem_cons_of_mem a hx, he, hlt,
          List.forall_mem_cons.mpr ⟨hlt.le.trans (not_lt.mp ha), hle⟩⟩

end RtThread
