import RtThread.Mutex.Propagate

/-!
# The order of a suspend list

* `OrderedBut k y o`: the list of `o` is sorted by priority, but for the place of `y`;
* `OrderedBut.changePriority`: a new priority puts the thread out of its place;
* **`OrderedBut.reinsert`**: re-insertion puts it back.
-/

set_option linter.unusedSectionVars false

namespace RtThread

namespace Kernel

open Queues

variable {T O : Type} [DecidableEq T] [DecidableEq O] {k k' : Kernel T O} {t u : T} {m o : O}

/-- The suspend list is sorted, but for the place of `y`. -/
def OrderedBut (k : Kernel T O) (y : Option T) (o : O) : Prop :=
  (k.waiters o).Pairwise fun a b => y = some a ∨ y = some b ∨ k.prioOf a ≤ k.prioOf b

theorem orderedBut_none : OrderedBut k none o ↔ SortedBy k.prioOf (k.waiters o) :=
  ⟨fun h => h.imp fun hab => by simpa using hab, fun h => h.imp fun hab => .inr (.inr hab)⟩

/-- A thread that is not in the list is not out of its place. -/
theorem OrderedBut.stop (h : OrderedBut k (some t) o) (ht : t ∉ k.waiters o) :
    OrderedBut k none o := by
  refine List.Pairwise.imp_of_mem (fun {a b} ha hb hab => ?_) h
  rcases hab with e | e | hab
  · exact absurd ha (Option.some.inj e ▸ ht)
  · exact absurd hb (Option.some.inj e ▸ ht)
  · exact .inr (.inr hab)

theorem OrderedBut.changePriority (hk : Linked k) (h : OrderedBut k none o) (p : ℕ) :
    OrderedBut (k.threadChangePriority u p) (some u) o := by
  unfold OrderedBut
  rw [changePriority_waiters hk]
  refine List.Pairwise.imp (fun {a b} hab => ?_) h
  by_cases hau : a = u
  · exact .inl (by rw [hau])
  by_cases hbu : b = u
  · exact .inr (.inl (by rw [hbu]))
  refine .inr (.inr ?_)
  rw [changePriority_prioOf hk, changePriority_prioOf hk, if_neg hau, if_neg hbu]
  simpa using hab

/-! ## Re-insertion -/

theorem erase_of_ne (hk : Linked k) (ht : t ∈ k.waiters m) (hne : o ≠ m) :
    (k.waiters o).erase t = k.waiters o :=
  List.erase_of_not_mem fun h => hne (Head.suspend.inj (hk.unique h ht))

theorem reinsert_waiters (hk : Linked k) (ht : t ∈ k.waiters m)
    (hf : (k.object m).flag = .prio) (o : O) : (k.reinsert m t).waiters o =
      if o = m then insertByKey k.prioOf t ((k.waiters m).erase t) else k.waiters o := by
  change ((k.listRemove t).ipcListInsert m t).waiters o = _
  rw [ipcListInsert_waiters]
  split_ifs with ho
  · rw [listRemove_object, hf]; rfl
  · exact erase_of_ne hk ht ho

theorem reinsert_object (m o : O) (t : T) : (k.reinsert m t).object o =
    if o = m then { k.object m with priority := (k.reinsert m t).headPriority m }
    else k.object o := by
  unfold reinsert
  rw [mutexUpdatePriority_object]
  rfl

/-- **Re-insertion puts the thread in its place.** -/
theorem OrderedBut.reinsert (hk : Linked k) (ht : t ∈ k.waiters m)
    (hf : (k.object m).flag = .prio) (h : OrderedBut k (some t) o) :
    OrderedBut (k.reinsert m t) none o := by
  unfold OrderedBut
  rw [reinsert_waiters hk ht hf]
  change (ite _ _ _ : List T).Pairwise fun a b => _ ∨ _ ∨ k.prioOf a ≤ k.prioOf b
  by_cases hom : o = m
  · -- without the thread the list is sorted, and the insertion keeps that
    subst hom
    rw [if_pos rfl]
    have hsort : SortedBy k.prioOf ((k.waiters o).erase t) := by
      refine List.Pairwise.imp_of_mem (fun {a b} ha hb hab => ?_)
        (List.Pairwise.sublist List.erase_sublist h)
      have hnd := hk.nodup (.suspend o)
      rcases hab with e | e | hab
      · exact absurd (Option.some.inj e).symm ((hnd.mem_erase_iff).mp ha).1
      · exact absurd (Option.some.inj e).symm ((hnd.mem_erase_iff).mp hb).1
      · exact hab
    exact (insertByKey_sorted hsort).imp fun hab => .inr (.inr hab)
  · rw [if_neg hom]
    exact h.stop fun hto => hom (Head.suspend.inj (hk.unique hto ht))

end Kernel

end RtThread
