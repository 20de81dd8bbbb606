import Mathlib.Data.Finset.Card
import Mathlib.Tactic.Linarith

/-!
# Counted references

A finite set of **holders**, each with a pointer that is NULL or names an object, and a set of live
objects, each with a count.

* `refs`: the number of holders whose pointer is a given object;
* `Counted`: pointers name live objects and every live object's count is its number of references;
* `Counted.acquire`, `Counted.create`, `Counted.release`, `Counted.last`: a pointer set to a live
  object, to a new one, cleared while others are left, and cleared as the last one;
* **`Counted.eq_of_one`**: an object with count one has one holder.
-/

set_option linter.unusedSectionVars false

namespace RtThread

section

variable {H O : Type} [DecidableEq H] [DecidableEq O]

/-- The number of holders whose pointer is the object. -/
def refs (s : Finset H) (ptr : H → Option O) (o : O) : ℕ := (s.filter fun h => ptr h = some o).card

variable {s s' : Finset H} {ptr ptr' : H → Option O} {o o' : O} {h : H}

theorem refs_congr (he : ∀ h ∈ s, ptr' h = ptr h) : refs s ptr' o = refs s ptr o := by
  unfold refs
  rw [Finset.filter_congr fun h hh => by rw [he h hh]]

theorem refs_holders (he : ∀ h, ptr h ≠ none → (h ∈ s' ↔ h ∈ s)) : refs s' ptr o = refs s ptr o := by
  unfold refs
  congr 1
  ext h
  rw [Finset.mem_filter, Finset.mem_filter]
  constructor
  · rintro ⟨hm, hp⟩
    exact ⟨(he h (by simp [hp])).mp hm, hp⟩
  · rintro ⟨hm, hp⟩
    exact ⟨(he h (by simp [hp])).mpr hm, hp⟩

/-- A NULL pointer set to an object adds one reference to it. -/
theorem refs_set (o' : O) (hs : h ∈ s) (hp : ptr h = none) :
    refs s (Function.update ptr h (some o)) o' = refs s ptr o' + if o' = o then 1 else 0 := by
  unfold refs
  by_cases ho : o' = o
  · rw [if_pos ho, ← Finset.card_insert_of_notMem (a := h) (by simp [hp])]
    congr 1
    ext x
    by_cases hx : x = h
    · simp [hx, hs, ho]
    · simp [hx]
  · rw [if_neg ho, Nat.add_zero]
    congr 1
    ext x
    by_cases hx : x = h
    · simp [hx, hp, Ne.symm ho]
    · simp [Function.update_of_ne hx]

/-- A pointer that is cleared takes one reference from its object. -/
theorem refs_clear (o' : O) (hs : h ∈ s) (hp : ptr h = some o) :
    refs s (Function.update ptr h none) o' + (if o' = o then 1 else 0) = refs s ptr o' := by
  have hnone : Function.update ptr h none h = none := Function.update_self h none ptr
  have hset := refs_set (o := o) o' hs hnone
  rw [Function.update_idem, ← hp, Function.update_eq_self] at hset
  exact hset.symm

/-- **Pointers name live objects, and counts count them.** -/
structure Counted (s : Finset H) (ptr : H → Option O) (live : Finset O) (count : O → ℤ) : Prop where
  mem : ∀ h ∈ s, ∀ o, ptr h = some o → o ∈ live
  eq : ∀ o ∈ live, count o = refs s ptr o
  pos : ∀ o ∈ live, 0 < count o

namespace Counted

variable {live : Finset O} {count count' : O → ℤ}

theorem empty : Counted (∅ : Finset H) ptr (∅ : Finset O) count where
  mem _ hm := absurd hm (Finset.notMem_empty _)
  eq _ hm := absurd hm (Finset.notMem_empty _)
  pos _ hm := absurd hm (Finset.notMem_empty _)

theorem congr (hc : Counted s ptr live count) (hp : ∀ h ∈ s, ptr' h = ptr h)
    (hn : ∀ o ∈ live, count' o = count o) : Counted s ptr' live count' where
  mem h hm o ho := hc.mem h hm o (hp h hm ▸ ho)
  eq o ho := by rw [hn o ho, hc.eq o ho, refs_congr hp]
  pos o ho := by rw [hn o ho]; exact hc.pos o ho

/-- Holders with NULL pointers come and go. -/
theorem holders (hc : Counted s ptr live count) (he : ∀ h, ptr h ≠ none → (h ∈ s' ↔ h ∈ s)) :
    Counted s' ptr live count where
  mem h hm o ho := hc.mem h ((he h (by simp [ho])).mp hm) o ho
  eq o ho := by rw [hc.eq o ho, refs_holders he]
  pos := hc.pos

theorem acquire (hc : Counted s ptr live count) (hs : h ∈ s) (hp : ptr h = none) (ho : o ∈ live) :
    Counted s (Function.update ptr h (some o)) live (Function.update count o (count o + 1)) where
  mem x hm o' hx := by
    by_cases hxh : x = h
    · rw [hxh, Function.update_self] at hx
      exact Option.some.inj hx ▸ ho
    · exact hc.mem x hm o' (Function.update_of_ne hxh _ ptr ▸ hx)
  eq o' ho' := by
    rw [refs_set _ hs hp]
    by_cases he : o' = o
    · rw [he, Function.update_self, hc.eq o ho, if_pos rfl]
      norm_cast
    · rw [Function.update_of_ne he, hc.eq o' ho', if_neg he, Nat.add_zero]
  pos o' ho' := by
    by_cases he : o' = o
    · rw [he, Function.update_self]
      have := hc.pos o ho
      omega
    · rw [Function.update_of_ne he]
      exact hc.pos o' ho'

theorem create (hc : Counted s ptr live count) (hs : h ∈ s) (hp : ptr h = none) (ho : o ∉ live) :
    Counted s (Function.update ptr h (some o)) (insert o live) (Function.update count o 1) where
  mem x hm o' hx := by
    by_cases hxh : x = h
    · rw [hxh, Function.update_self] at hx
      exact Option.some.inj hx ▸ Finset.mem_insert_self o live
    · exact Finset.mem_insert_of_mem (hc.mem x hm o' (Function.update_of_ne hxh _ ptr ▸ hx))
  eq o' ho' := by
    rw [refs_set _ hs hp]
    by_cases he : o' = o
    · have h0 : refs s ptr o = 0 := by
        refine Finset.card_eq_zero.mpr (Finset.filter_eq_empty_iff.mpr ?_)
        intro x hx hxo
        exact ho (hc.mem x hx o hxo)
      rw [he, Function.update_self, if_pos rfl, h0]
      norm_num
    · rw [Function.update_of_ne he, hc.eq o' (Finset.mem_of_mem_insert_of_ne ho' he), if_neg he,
        Nat.add_zero]
  pos o' ho' := by
    by_cases he : o' = o
    · rw [he, Function.update_self]
      exact one_pos
    · rw [Function.update_of_ne he]
      exact hc.pos o' (Finset.mem_of_mem_insert_of_ne ho' he)

theorem mem_clear (hc : Counted s ptr live count) (x : H) (hm : x ∈ s)
    (hx : Function.update ptr h none x = some o') : x ≠ h ∧ ptr x = some o' ∧ o' ∈ live := by
  by_cases hxh : x = h
  · rw [hxh, Function.update_self] at hx
    cases hx
  · rw [Function.update_of_ne hxh] at hx
    exact ⟨hxh, hx, hc.mem x hm o' hx⟩

theorem release (hc : Counted s ptr live count) (hs : h ∈ s) (hp : ptr h = some o)
    (h2 : 2 ≤ count o) :
    Counted s (Function.update ptr h none) live (Function.update count o (count o - 1)) where
  mem x hm _ hx := (hc.mem_clear x hm hx).2.2
  eq o' ho' := by
    have hr := refs_clear o' hs hp
    have he' := hc.eq o' ho'
    by_cases he : o' = o
    · rw [if_pos he] at hr
      rw [he] at hr he' ⊢
      rw [Function.update_self]
      omega
    · rw [if_neg he, Nat.add_zero] at hr
      rw [Function.update_of_ne he, he', hr]
  pos o' ho' := by
    by_cases he : o' = o
    · rw [he, Function.update_self]
      omega
    · rw [Function.update_of_ne he]
      exact hc.pos o' ho'

/-- **An object with count one has one holder.** -/
theorem eq_of_one (hc : Counted s ptr live count) (h1 : count o = 1) {x y : H} (hx : x ∈ s)
    (hy : y ∈ s) (hxo : ptr x = some o) (hyo : ptr y = some o) : x = y := by
  have hcard := hc.eq o (hc.mem x hx o hxo)
  rw [h1] at hcard
  have hle : (s.filter fun h => ptr h = some o).card ≤ 1 := by
    unfold refs at hcard
    omega
  exact Finset.card_le_one.mp hle x (Finset.mem_filter.mpr ⟨hx, hxo⟩) y
    (Finset.mem_filter.mpr ⟨hy, hyo⟩)

theorem last (hc : Counted s ptr live count) (hs : h ∈ s) (hp : ptr h = some o)
    (h1 : count o = 1) : Counted s (Function.update ptr h none) (live.erase o) count where
  mem x hm o' hx := by
    obtain ⟨hne, hx', hl⟩ := hc.mem_clear x hm hx
    refine Finset.mem_erase.mpr ⟨?_, hl⟩
    rintro rfl
    exact hne (hc.eq_of_one h1 hm hs hx' hp)
  eq o' ho' := by
    obtain ⟨hne, hl⟩ := Finset.mem_erase.mp ho'
    have hr := refs_clear o' hs hp
    rw [if_neg hne, Nat.add_zero] at hr
    rw [hc.eq o' hl, hr]
  pos o' ho' := hc.pos o' (Finset.mem_of_mem_erase ho')

end Counted

end

end RtThread
