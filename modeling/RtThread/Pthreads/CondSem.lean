import RtThread.Ipc.Semaphore

/-!
# The semaphore of a condition variable

`rt_sem_trytake` and `rt_sem_release` on the semaphore `cond->sem`, whose threads are suspended by
`_pthread_cond_timedwait` in FIFO order.

* `CondSem.trytake`, `CondSem.release`, `CondSem.suspend`, `CondSem.remove`: the operations;
* `CondSem.Settled`: a value is left only when no thread is suspended; every operation keeps it.
-/

set_option linter.unusedSectionVars false

namespace RtThread

/-- `cond->sem`: its value and the threads on its list. -/
structure CondSem (W : Type) where
  value : ℕ
  suspended : List W
  deriving DecidableEq

namespace CondSem

variable {W : Type} [DecidableEq W] (c : CondSem W)

/-- `pthread_cond_init`. -/
def fresh : CondSem W := ⟨0, []⟩

/-- `rt_sem_trytake`; none is `-RT_ETIMEOUT`. -/
def trytake : Option (CondSem W) := if 0 < c.value then some { c with value := c.value - 1 } else none

/-- The value of `rt_sem_release` when no thread is suspended. -/
def raise : CondSem W := if c.value < semValueMax then { c with value := c.value + 1 } else c

/-- A thread is suspended. -/
def suspend (w : W) : CondSem W := { c with suspended := c.suspended ++ [w] }

/-- A thread is taken off the list. -/
def remove (w : W) : CondSem W := { c with suspended := c.suspended.erase w }

/-- A value is left only when no thread is suspended, and no thread is on the list twice. -/
structure Settled : Prop where
  value : 0 < c.value → c.suspended = []
  nodup : c.suspended.Nodup

variable {c} {c' : CondSem W} {w : W}

theorem Settled.fresh : Settled (fresh : CondSem W) := ⟨fun _ => rfl, List.nodup_nil⟩

theorem suspended_trytake (hc : c.trytake = some c') : c'.suspended = c.suspended ∧ 0 < c.value := by
  unfold trytake at hc
  by_cases hv : 0 < c.value
  · rw [if_pos hv] at hc
    obtain rfl := Option.some.inj hc
    exact ⟨rfl, hv⟩
  · rw [if_neg hv] at hc
    cases hc

theorem Settled.trytake (h : c.Settled) (hc : c.trytake = some c') : c'.Settled ∧ c'.suspended = [] := by
  obtain ⟨hs, hv⟩ := suspended_trytake hc
  have hnil : c'.suspended = [] := hs.trans (h.value hv)
  refine ⟨⟨fun _ => hnil, ?_⟩, hnil⟩
  rw [hnil]
  exact List.nodup_nil

theorem suspended_raise : c.raise.suspended = c.suspended := by
  unfold raise
  split_ifs <;> rfl

theorem Settled.raise (hs : c.suspended = []) : c.raise.Settled := by
  have hnil : c.raise.suspended = [] := suspended_raise.trans hs
  refine ⟨fun _ => hnil, ?_⟩
  rw [hnil]
  exact List.nodup_nil

theorem Settled.suspend (h : c.Settled) (hv : c.value = 0) (hw : w ∉ c.suspended) : (c.suspend w).Settled := by
  refine ⟨fun hpos => absurd hpos ?_, List.nodup_append_comm.mp (List.nodup_cons.mpr ⟨hw, h.nodup⟩)⟩
  show ¬ 0 < c.value
  omega

theorem Settled.remove (h : c.Settled) : (c.remove w).Settled := by
  refine ⟨fun hv => ?_, h.nodup.erase w⟩
  show c.suspended.erase w = []
  rw [h.value hv]
  rfl

theorem Settled.mem_remove (h : c.Settled) {w' : W} : w' ∈ (c.remove w).suspended ↔ w' ≠ w ∧ w' ∈ c.suspended :=
  h.nodup.mem_erase_iff

theorem mem_suspend {w' : W} : w' ∈ (c.suspend w).suspended ↔ w' = w ∨ w' ∈ c.suspended := by
  show w' ∈ c.suspended ++ [w] ↔ _
  rw [List.mem_append, List.mem_singleton, or_comm]

/-- The first thread goes on. -/
theorem remove_head {l : List W} (hl : c.suspended = w :: l) : c.remove w = { c with suspended := l } := by
  unfold remove
  rw [hl, List.erase_cons_head]

end CondSem

end RtThread
