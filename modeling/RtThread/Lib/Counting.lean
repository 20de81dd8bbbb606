import Mathlib.Data.Set.Card

/-!
# A number that counts, and a list that follows

`Counts p f n`: exactly `n` of the indices have a value with `p`. `Tracks p f l`: the list holds these indices, each
once. Both follow when one value changes.

* `Counts.update_in`, `Counts.update_out`, `Counts.update_same`, `Counts.update`: one value changes;
* `Counts.pos`, `Counts.exists_of_pos`: what the number says;
* `Tracks.update_in`, `Tracks.update_out`, `Tracks.update_same`: the list.
-/

namespace RtThread

variable {ι α : Type}

/-- `n` of the values have `p`. -/
def Counts (p : α → Bool) (f : ι → α) (n : ℕ) : Prop := {i | p (f i) = true}.encard = n

namespace Counts

variable {p : α → Bool} {f : ι → α} {n : ℕ}

theorem zero (h : ∀ i, p (f i) = false) : Counts p f 0 := by
  have hempty : {i | p (f i) = true} = ∅ := by
    ext i
    exact ⟨fun hi => absurd ((h i).symm.trans hi) Bool.false_ne_true, fun hi => absurd hi id⟩
  unfold Counts
  rw [hempty]
  exact Set.encard_empty

theorem pos (h : Counts p f n) {i : ι} (hi : p (f i) = true) : 0 < n := by
  refine Nat.pos_of_ne_zero fun hn => ?_
  subst hn
  have hempty : {i | p (f i) = true} = ∅ := Set.encard_eq_zero.mp h
  exact absurd hi (Set.eq_empty_iff_forall_notMem.mp hempty i)

theorem none (h : Counts p f 0) (i : ι) : p (f i) = false :=
  (Bool.not_eq_true _).mp fun hi => Nat.lt_irrefl 0 (h.pos hi)

theorem exists_of_pos (h : Counts p f n) (hn : 0 < n) : ∃ i, p (f i) = true := by
  by_contra hno
  have hempty : {i | p (f i) = true} = ∅ := Set.eq_empty_iff_forall_notMem.mpr fun i hi => hno ⟨i, hi⟩
  unfold Counts at h
  rw [hempty, Set.encard_empty] at h
  exact absurd (Nat.cast_injective (R := ℕ∞) h) (Nat.ne_of_lt hn)

variable [DecidableEq ι] {i : ι} {a : α}

theorem update_same (h : Counts p f n) (ha : p a = p (f i)) : Counts p (Function.update f i a) n := by
  have hset : {j | p (Function.update f i a j) = true} = {j | p (f j) = true} := by
    ext j
    by_cases hj : j = i
    · subst hj
      rw [Set.mem_ofPred_eq, Set.mem_ofPred_eq, Function.update_self, ha]
    · rw [Set.mem_ofPred_eq, Set.mem_ofPred_eq, Function.update_of_ne hj]
  unfold Counts
  rw [hset]
  exact h

/-- **One value more.** -/
theorem update_in (h : Counts p f n) (hi : p (f i) = false) (ha : p a = true) :
    Counts p (Function.update f i a) (n + 1) := by
  have hset : {j | p (Function.update f i a j) = true} = insert i {j | p (f j) = true} := by
    ext j
    rw [Set.mem_insert_iff]
    by_cases hj : j = i
    · subst hj
      rw [Set.mem_ofPred_eq, Function.update_self]
      exact ⟨fun _ => .inl rfl, fun _ => ha⟩
    · rw [Set.mem_ofPred_eq, Set.mem_ofPred_eq, Function.update_of_ne hj]
      exact ⟨.inr, fun hc => hc.resolve_left hj⟩
  have hnot : i ∉ {j | p (f j) = true} := fun hc => absurd (hi.symm.trans hc) Bool.false_ne_true
  unfold Counts
  rw [hset, Set.encard_insert_of_notMem hnot, h]
  rfl

/-- **One value less.** -/
theorem update_out (h : Counts p f n) (hi : p (f i) = true) (ha : p a = false) :
    Counts p (Function.update f i a) (n - 1) := by
  have hset : {j | p (Function.update f i a j) = true} = {j | p (f j) = true} \ {i} := by
    ext j
    rw [Set.mem_sdiff, Set.mem_singleton_iff]
    by_cases hj : j = i
    · subst hj
      rw [Set.mem_ofPred_eq, Function.update_self, ha]
      exact ⟨fun hc => absurd hc Bool.false_ne_true, fun hc => absurd rfl hc.2⟩
    · rw [Set.mem_ofPred_eq, Set.mem_ofPred_eq, Function.update_of_ne hj]
      exact ⟨fun hc => ⟨hc, hj⟩, fun hc => hc.1⟩
  obtain ⟨m, rfl⟩ : ∃ m, n = m + 1 := ⟨n - 1, (Nat.sub_add_cancel (h.pos hi)).symm⟩
  have hone := Set.encard_sdiff_singleton_add_one (s := {j | p (f j) = true}) hi
  unfold Counts at h ⊢
  rw [hset]
  rw [h] at hone
  exact WithTop.add_right_cancel WithTop.one_ne_top hone

/-- Whatever the value is. -/
theorem update (h : Counts p f n) :
    Counts p (Function.update f i a) (n + (if p a then 1 else 0) - (if p (f i) then 1 else 0)) := by
  cases hi : p (f i) <;> cases ha : p a
  · exact h.update_same (ha.trans hi.symm)
  · exact h.update_in hi ha
  · exact h.update_out hi ha
  · have hn : n + 1 - 1 = n := Nat.add_sub_cancel n 1
    have hcount := h.update_same (ha.trans hi.symm)
    rw [← hn] at hcount
    exact hcount

end Counts

/-- The list holds the indices whose values have `p`, each once. -/
structure Tracks (p : α → Bool) (f : ι → α) (l : List ι) : Prop where
  nodup : l.Nodup
  mem : ∀ i, i ∈ l ↔ p (f i) = true

namespace Tracks

variable {p : α → Bool} {f : ι → α} {l : List ι} {i : ι} {a : α}

theorem nil (h : ∀ i, p (f i) = false) : Tracks p f [] :=
  ⟨List.nodup_nil, fun i => ⟨fun hc => absurd hc List.not_mem_nil, fun hc =>
    absurd ((h i).symm.trans hc) Bool.false_ne_true⟩⟩

theorem not_mem (h : Tracks p f l) (hi : p (f i) = false) : i ∉ l := fun hm =>
  absurd (hi.symm.trans ((h.mem i).mp hm)) Bool.false_ne_true

variable [DecidableEq ι]

theorem update_same (h : Tracks p f l) (ha : p a = p (f i)) : Tracks p (Function.update f i a) l := by
  refine ⟨h.nodup, fun j => ?_⟩
  rw [h.mem j]
  by_cases hj : j = i
  · subst hj
    rw [Function.update_self, ha]
  · rw [Function.update_of_ne hj]

/-- **One index more**, at the end. -/
theorem update_in (h : Tracks p f l) (hi : p (f i) = false) (ha : p a = true) :
    Tracks p (Function.update f i a) (l ++ [i]) := by
  refine ⟨List.nodup_append_comm.mp (List.nodup_cons.mpr ⟨h.not_mem hi, h.nodup⟩), fun j => ?_⟩
  rw [List.mem_append, List.mem_singleton]
  by_cases hj : j = i
  · subst hj
    rw [Function.update_self]
    exact ⟨fun _ => ha, fun _ => .inr rfl⟩
  · rw [Function.update_of_ne hj, ← h.mem j]
    exact ⟨fun hm => hm.resolve_right hj, .inl⟩

/-- **One index less.** -/
theorem update_out (h : Tracks p f l) (ha : p a = false) : Tracks p (Function.update f i a) (l.erase i) := by
  refine ⟨h.nodup.erase i, fun j => ?_⟩
  rw [h.nodup.mem_erase_iff]
  by_cases hj : j = i
  · subst hj
    rw [Function.update_self, ha]
    exact ⟨fun hc => absurd rfl hc.1, fun hc => absurd hc Bool.false_ne_true⟩
  · rw [Function.update_of_ne hj, ← h.mem j]
    exact ⟨fun hm => hm.2, fun hm => ⟨hj, hm⟩⟩

end Tracks

end RtThread
