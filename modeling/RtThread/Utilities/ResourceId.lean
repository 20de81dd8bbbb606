import RtThread.Lib.Chain

/-!
# Resource identifiers

`components/utilities/resource/resource_id.c`: the identifiers that were handed out and put back form a
singly linked list through the cells of `_res`; the cells from `noused` on were never handed out.

* `ResourceId`, `resourceIdGet`, `resourceIdPut`;
* `IdsOk`: the identifiers below `noused` are the free ones and the used ones;
* **`IdsOk.get`**, **`IdsOk.put`**: an identifier that is handed out was not in use.
-/

namespace RtThread

/-- `resource_id_t`; a pointer to a cell is the number of the cell. -/
structure ResourceId where
  size : ℕ
  res : ℕ → Option ℕ
  noused : ℕ
  free : Option ℕ

/-- `resource_id_get`, with `none` for `-1`. -/
def resourceIdGet (m : ResourceId) : Option (ℕ × ResourceId) :=
  match m.free with
  | some cur => some (cur, { m with free := m.res cur })
  | none => if m.noused < m.size then some (m.noused, { m with noused := m.noused + 1 }) else none

/-- `resource_id_put`. -/
def resourceIdPut (m : ResourceId) (no : ℕ) : ResourceId :=
  if no < m.size then { m with res := Function.update m.res no m.free, free := some no } else m

/-- **The identifiers below `noused`** are those of the free list and those in use. -/
structure IdsOk (m : ResourceId) (free used : List ℕ) : Prop where
  chain : NextChain m.res m.free free
  perm : (free ++ used).Perm (List.range m.noused)
  bound : m.noused ≤ m.size

namespace IdsOk

variable {m m' : ResourceId} {free used : List ℕ} {k : ℕ} (h : IdsOk m free used)
include h

theorem nodup : (free ++ used).Nodup := h.perm.nodup_iff.mpr List.nodup_range

theorem lt_noused (hk : k ∈ used) : k < m.noused :=
  List.mem_range.mp (h.perm.subset (List.mem_append_right _ hk))

/-- **An identifier that is handed out was not in use.** -/
theorem get (hget : resourceIdGet m = some (k, m')) :
    k ∉ used ∧ m'.size = m.size ∧ ∃ free', IdsOk m' free' (k :: used) := by
  unfold resourceIdGet at hget
  cases hfree : m.free with
  | some cur =>
    rw [hfree] at hget
    obtain ⟨rfl, rfl⟩ := Prod.mk.inj (Option.some.inj hget)
    obtain ⟨chain, perm, bound⟩ := h
    rw [hfree] at chain
    obtain ⟨free', rfl, hchain⟩ := chain.pop
    have hnd : (cur :: free' ++ used).Nodup := perm.nodup_iff.mpr List.nodup_range
    have hnot : cur ∉ free' ++ used := (List.nodup_cons.mp hnd).1
    refine ⟨fun hm => hnot (List.mem_append_right _ hm), rfl, free', hchain, ?_, bound⟩
    exact List.perm_middle.trans perm
  | none =>
    rw [hfree] at hget
    dsimp only at hget
    by_cases hlt : m.noused < m.size
    · rw [if_pos hlt] at hget
      obtain ⟨rfl, rfl⟩ := Prod.mk.inj (Option.some.inj hget)
      refine ⟨fun hm => Nat.lt_irrefl _ (h.lt_noused hm), rfl, free, hfree ▸ h.chain, ?_, hlt⟩
      have hnew : (free ++ m.noused :: used).Perm (List.range m.noused ++ [m.noused]) :=
        (List.perm_middle.trans (h.perm.cons _)).trans (List.perm_append_singleton _ _).symm
      rw [← List.range_succ] at hnew
      exact hnew
    · rw [if_neg hlt] at hget
      cases hget

/-- **An identifier that is put back.** -/
theorem put (hk : k ∈ used) : IdsOk (resourceIdPut m k) (k :: free) (used.erase k) := by
  have hlt : k < m.size := Nat.lt_of_lt_of_le (h.lt_noused hk) h.bound
  have hnot : k ∉ free := fun hm => (List.disjoint_of_nodup_append h.nodup) hm hk
  unfold resourceIdPut
  rw [if_pos hlt]
  refine ⟨h.chain.push hnot, ?_, h.bound⟩
  exact (List.perm_middle.symm.trans ((List.perm_cons_erase hk).symm.append_left free)).trans h.perm

end IdsOk

end RtThread
