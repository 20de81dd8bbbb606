import Mathlib.Tactic.Common

/-!
# Objects scattered over places

Places hold lists of objects; every object of a pool is at one place, once.

* `Scattered`: the pool is scattered over the places;
* **`Scattered.move`**: an object taken from one place and put at another.
-/

namespace RtThread

/-- Every object of the pool, and no other, is in the list of one place, once. -/
structure Scattered {P α : Type} (pool : α → Prop) (box : P → List α) : Prop where
  nodup : ∀ p, (box p).Nodup
  unique : ∀ {p q a}, a ∈ box p → a ∈ box q → p = q
  mem_iff : ∀ a, pool a ↔ ∃ p, a ∈ box p

section

variable {P α : Type} {pool : α → Prop} {box box' : P → List α} {p q : P} {a : α}

/-- **An object moves from one place to another.** -/
theorem Scattered.move (h : Scattered pool box) (hpq : p ≠ q) (hp : (box p).Perm (a :: box' p))
    (hq : (box' q).Perm (a :: box q)) (hr : ∀ r, r ≠ p → r ≠ q → box' r = box r) :
    Scattered pool box' := by
  have hap : a ∈ box p := hp.mem_iff.mpr List.mem_cons_self
  have hnd : (a :: box' p).Nodup := hp.nodup_iff.mp (h.nodup p)
  have haq : a ∉ box q := fun hmem => hpq (h.unique hap hmem)
  have hself : ∀ r, a ∈ box' r ↔ r = q := by
    intro r
    by_cases hrq : r = q
    · rw [hrq]
      exact iff_of_true (hq.mem_iff.mpr List.mem_cons_self) rfl
    · refine iff_of_false (fun hmem => ?_) hrq
      by_cases hrp : r = p
      · exact (List.nodup_cons.mp hnd).1 (hrp ▸ hmem)
      · rw [hr r hrp hrq] at hmem
        exact hrp (h.unique hmem hap)
  have hother : ∀ b, b ≠ a → ∀ r, b ∈ box' r ↔ b ∈ box r := by
    intro b hb r
    by_cases hrp : r = p
    · rw [hrp, hp.mem_iff, List.mem_cons, or_iff_right hb]
    · by_cases hrq : r = q
      · rw [hrq, hq.mem_iff, List.mem_cons, or_iff_right hb]
      · rw [hr r hrp hrq]
  refine ⟨fun r => ?_, fun {r r' b} hb hb' => ?_, fun b => ?_⟩
  · by_cases hrp : r = p
    · exact hrp ▸ (List.nodup_cons.mp hnd).2
    · by_cases hrq : r = q
      · rw [hrq, hq.nodup_iff]
        exact List.nodup_cons.mpr ⟨haq, h.nodup q⟩
      · rw [hr r hrp hrq]
        exact h.nodup r
  · by_cases hba : b = a
    · rw [hba, hself] at hb hb'
      exact hb.trans hb'.symm
    · rw [hother b hba] at hb hb'
      exact h.unique hb hb'
  · by_cases hba : b = a
    · rw [hba]
      exact iff_of_true ((h.mem_iff a).mpr ⟨p, hap⟩) ⟨q, (hself q).mpr rfl⟩
    · rw [h.mem_iff b]
      exact exists_congr fun r => (hother b hba r).symm

end

end RtThread
