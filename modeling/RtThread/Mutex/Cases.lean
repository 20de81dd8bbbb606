import RtThread.Mutex.Propagate

/-!
# What the mutex functions can do

For each function the kernel it leaves, in terms of the operations of `Linked` and `Propagate`, when
the calling thread is the running one.

* `suspendOn`: the running thread goes to a suspend list;
* `mutexTake_cases`, `mutexTakeFree_eq`, `mutexTakeWait_cases`, `mutexTakeResume_cases`;
* `releaseTaken`, `mutexRelease_cases`, `handOver_thread`, `handOver_object`, `handOver_waiters`;
* `resumeAll`: the waiters of a mutex are woken one by one;
* `threadDetach_cases`.
-/

set_option linter.unusedSectionVars false

namespace RtThread

namespace Kernel

variable {T O : Type} [DecidableEq T] [DecidableEq O] {k k' : Kernel T O} {c t u : T} {m o : O}

/-! ## Suspension of the running thread -/

/-- The running thread leaves the scheduler. -/
def suspendSelf (k : Kernel T O) (c : T) (flag : SuspendFlag) : Kernel T O :=
  (k.scheduleRemoveThread c).setThread c fun th =>
    { th with stat := .suspend flag, threadTimer := false }

/-- The running thread goes to a suspend list. -/
def suspendOn (k : Kernel T O) (o : O) (c : T) (flag : SuspendFlag) : Kernel T O :=
  (k.suspendSelf c flag).ipcListInsert o c

theorem threadSuspend_eq (hc : (k.thread c).stat = .running) (flag : SuspendFlag) :
    k.threadSuspendWithFlag c flag = (.eok, k.suspendSelf c flag) := by
  unfold threadSuspendWithFlag; rw [if_pos (.inr hc)]; rfl

theorem ipcListSuspend_eq (hc : (k.thread c).stat = .running) (o : O) (flag : SuspendFlag) :
    k.ipcListSuspend o c flag = (.eok, k.suspendOn o c flag) := by
  unfold ipcListSuspend
  rw [if_neg (by rw [hc]; simp [Stat.isSuspend]), threadSuspend_eq hc]
  rfl

theorem suspendSelf_waiters (hk : Linked k) (hc : (k.thread c).stat = .running)
    (flag : SuspendFlag) (o : O) : (k.suspendSelf c flag).waiters o = k.waiters o :=
  List.erase_of_not_mem (hk.unlinked (.inl hc) _)

theorem Linked.suspendSelf (hk : Linked k) (c : T) (flag : SuspendFlag) :
    Linked (k.suspendSelf c flag) :=
  (hk.remove c).write (hk.unlinked_listRemove c) _ fun _ => by simp

theorem Linked.suspendOn (hk : Linked k) (o : O) (c : T) (flag : SuspendFlag) :
    Linked (k.suspendOn o c flag) :=
  (hk.suspendSelf c flag).ipcListInsert (hk.unlinked_listRemove c)
    (by simp [Kernel.suspendSelf, Stat.isSuspend]) o

theorem suspendOn_thread (o : O) (c : T) (flag : SuspendFlag) : (k.suspendOn o c flag).thread =
    (k.setThread c fun th => { th with stat := .suspend flag, threadTimer := false }).thread := rfl

theorem mem_suspendOn_waiters (hk : Linked k) (hc : (k.thread c).stat = .running) {x : O}
    {flag : SuspendFlag} :
    u ∈ (k.suspendOn o c flag).waiters x ↔ (x = o ∧ u = c) ∨ u ∈ k.waiters x := by
  rw [suspendOn, mem_ipcListInsert_waiters, suspendSelf_waiters hk hc]

/-! ## `_rt_mutex_take` -/

/-- The cases of `_rt_mutex_take` before the suspension. -/
theorem mutexTake_cases {fuel : ℕ} {timeout : ℤ} {flag : SuspendFlag} {r : TakeResult}
    (h : k.mutexTake fuel c m timeout flag = some (r, k')) {k₀ : Kernel T O}
    (hk₀ : k₀ = k.setThread c fun th => { th with error := .eok }) :
    ((k.object m).owner = none ∧ r = .ret .eok ∧ k₀.mutexTakeFree fuel c m flag = some k') ∨
    ((k.object m).owner = some c ∧ r = .ret .eok ∧
      k' = k₀.setObject m fun x => { x with hold := x.hold + 1 }) ∨
    ((k.object m).owner = some c ∧ r = .ret .efull ∧ k' = k₀) ∨
    ∃ o, (k.object m).owner = some o ∧ o ≠ c ∧
      ((r = .ret .etimeout ∧ k' = k₀.setThread c fun th => { th with error := .etimeout }) ∨
        (timeout ≠ 0 ∧ k₀.mutexTakeWait fuel c o m timeout flag = some (r, k'))) := by
  have hobj : k.object = k₀.object := by rw [hk₀]; rfl
  unfold mutexTake at h
  dsimp only at h
  rw [← hk₀] at h
  rw [hobj]
  cases ho : (k₀.object m).owner with
  | none =>
    simp only [ho] at h
    obtain ⟨k₁, hk₁, he⟩ := Option.map_eq_some_iff.mp h
    obtain ⟨rfl, rfl⟩ := Prod.mk.inj he
    exact .inl ⟨rfl, rfl, hk₁⟩
  | some o =>
    simp only [ho] at h
    by_cases h1 : o = c
    · rw [if_pos h1] at h
      split_ifs at h
      · obtain ⟨rfl, rfl⟩ := Prod.mk.inj (Option.some.inj h)
        exact .inr (.inl ⟨by rw [h1], rfl, rfl⟩)
      · obtain ⟨rfl, rfl⟩ := Prod.mk.inj (Option.some.inj h)
        exact .inr (.inr (.inl ⟨by rw [h1], rfl, rfl⟩))
    · rw [if_neg h1] at h
      refine .inr (.inr (.inr ⟨o, rfl, h1, ?_⟩))
      split_ifs at h with hto
      · obtain ⟨rfl, rfl⟩ := Prod.mk.inj (Option.some.inj h)
        exact .inl ⟨rfl, rfl⟩
      · exact .inr ⟨hto, h⟩

/-- The mutex after a take that found it free. -/
def takeObject (k : Kernel T O) (c : T) (m : O) : Kernel T O :=
  k.setObject m fun x => { x with owner := some c, priority := 0xff, hold := 1 }

/-- A running thread is at the end of its chain: its priority is set and nothing else happens. -/
theorem updatePriority_running {fuel p : ℕ} {flag : SuspendFlag} (hk : Linked k)
    (hc : (k.thread c).stat = .running) (h : k.threadUpdatePriority fuel c p flag = some k') :
    k' = k.threadChangePriority c p := by
  cases fuel with
  | zero => cases h
  | succ fuel =>
    rcases updateLoop_cases h with ⟨-, h⟩ | ⟨_, _, hs, -⟩
    · exact h
    · rw [changePriority_thread hk, setThread_self] at hs
      simp [Thread.writePriority, hc, Stat.isSuspend] at hs

theorem mutexTakeFree_eq {fuel : ℕ} {flag : SuspendFlag} (hk : Linked k)
    (hc : (k.thread c).stat = .running) (h : k.mutexTakeFree fuel c m flag = some k') :
    k' = (if (k.object m).ceilingPriority ≠ 0xff ∧ (k.object m).ceilingPriority < k.prioOf c then
        (k.takeObject c m).threadChangePriority c (k.object m).ceilingPriority
      else k.takeObject c m).takenInsert c m := by
  obtain ⟨k₁, hk₁⟩ : ∃ k₁, k₁ = k.takeObject c m := ⟨_, rfl⟩
  have hce : (k₁.object m).ceilingPriority = (k.object m).ceilingPriority := by
    rw [hk₁, takeObject, setObject_self]
  have hpr : k₁.prioOf c = k.prioOf c := by rw [hk₁]; rfl
  unfold mutexTakeFree at h
  dsimp only at h
  rw [← takeObject, ← hk₁] at h
  rw [← hk₁, ← hce, ← hpr]
  split_ifs at h ⊢
  · obtain ⟨k₂, hk₂, h⟩ := Option.bind_eq_some_iff.mp h
    rw [updatePriority_running (hk₁ ▸ hk.setObject m _) (by rw [hk₁]; exact hc) hk₂] at h
    exact (Option.some.inj h).symm
  · exact (Option.some.inj h).symm

/-- The calling thread waits for `m`. -/
def waitFor (k : Kernel T O) (c : T) (m : O) (flag : SuspendFlag) : Kernel T O :=
  (k.suspendOn m c flag).setThread c fun th => { th with pendingObject := some m }

/-- **Waiting for a mutex.** The mutex's priority is raised to that of the new waiter, the owner's
too when it is lower, and the timer is started. -/
theorem mutexTakeWait_cases {fuel : ℕ} {timeout : ℤ} {flag : SuspendFlag} {r : TakeResult}
    (hc : (k.thread c).stat = .running)
    (h : k.mutexTakeWait fuel c t m timeout flag = some (r, k')) :
    r = .blocked ∧ ∃ k₂, (k' = k₂.setThread c (fun th => { th with threadTimer := true }) ∨ k' = k₂) ∧
      ((¬ k.prioOf c < (k.object m).priority ∧ k₂ = k.waitFor c m flag) ∨
        (k.prioOf c < (k.object m).priority ∧
          ((¬ k.prioOf c < (k.waitFor c m flag).prioOf t ∧
            k₂ = (k.waitFor c m flag).setObject m fun x => { x with priority := k.prioOf c }) ∨
          (k.prioOf c < (k.waitFor c m flag).prioOf t ∧
            ((k.waitFor c m flag).setObject m fun x =>
              { x with priority := k.prioOf c }).threadUpdatePriority fuel t (k.prioOf c)
                .uninterruptible = some k₂)))) := by
  obtain ⟨k₁, hk₁⟩ : ∃ k₁, k₁ = k.waitFor c m flag := ⟨_, rfl⟩
  have hpr : (k.object m).priority = (k₁.object m).priority := by rw [hk₁]; rfl
  unfold mutexTakeWait at h
  rw [ipcListSuspend_eq hc] at h
  dsimp only at h
  rw [← waitFor, ← hk₁] at h
  rw [← hk₁, hpr]
  have key : ∀ {k₂ : Kernel T O}, some (TakeResult.blocked, if 0 < timeout then
      k₂.setThread c fun th => { th with threadTimer := true } else k₂) = some (r, k') →
      r = .blocked ∧
        (k' = k₂.setThread c (fun th => { th with threadTimer := true }) ∨ k' = k₂) := by
    intro k₂ h
    obtain ⟨rfl, rfl⟩ := Prod.mk.inj (Option.some.inj h)
    refine ⟨rfl, ?_⟩
    split_ifs
    · exact .inl rfl
    · exact .inr rfl
  by_cases h1 : k.prioOf c < (k₁.object m).priority
  · rw [if_pos h1] at h
    by_cases h2 : k.prioOf c < k₁.prioOf t
    · rw [if_pos (by exact h2)] at h
      obtain ⟨k₂, hk₂, h⟩ := Option.bind_eq_some_iff.mp h
      exact ⟨(key h).1, k₂, (key h).2, .inr ⟨h1, .inr ⟨h2, hk₂⟩⟩⟩
    · rw [if_neg (by exact h2)] at h
      exact ⟨(key h).1, _, (key h).2, .inr ⟨h1, .inl ⟨h2, rfl⟩⟩⟩
  · rw [if_neg h1] at h
    exact ⟨(key h).1, k₁, (key h).2, .inl ⟨h1, rfl⟩⟩

theorem mutexTakeResume_cases {fuel : ℕ} {e : Err}
    (h : k.mutexTakeResume fuel c m = some (e, k')) :
    ((k.thread c).error = .eok ∧ e = .eok ∧ k' = k) ∨
    ((k.thread c).error ≠ .eok ∧ ∃ k₁, k.mutexWaiterLeft fuel m c = some k₁ ∧
      k' = k₁.setThread c (fun th => { th with pendingObject := none }) ∧
      e = (k₁.thread c).error) := by
  unfold mutexTakeResume at h
  split_ifs at h with he
  · obtain ⟨rfl, rfl⟩ := Prod.mk.inj (Option.some.inj h)
    exact .inl ⟨he, rfl, rfl⟩
  · obtain ⟨k₁, hk₁, h⟩ := Option.bind_eq_some_iff.mp h
    obtain ⟨rfl, rfl⟩ := Prod.mk.inj (Option.some.inj h)
    exact .inr ⟨he, k₁, hk₁, rfl, by simp⟩

/-! ## `rt_mutex_release` -/

/-- A mutex that its owner no longer holds. -/
def releaseTaken (k : Kernel T O) (m : O) : Kernel T O :=
  (k.setObject m fun x => { x with hold := x.hold - 1 }).takenRemove m

/-- **The cases of `rt_mutex_release`.** The last release recomputes the priority of the thread
unless the mutex has no ceiling and another priority, and then gives the mutex away. -/
theorem mutexRelease_cases {r : Err} (h : k.mutexRelease c m = (r, k')) :
    ((k.object m).owner ≠ some c ∧ r = .error ∧
      k' = k.setThread c fun th => { th with error := .error }) ∨
    ((k.object m).owner = some c ∧ r = .eok ∧ (k.object m).hold - 1 ≠ 0 ∧
      k' = k.setObject m fun x => { x with hold := x.hold - 1 }) ∨
    ((k.object m).owner = some c ∧ r = .eok ∧ (k.object m).hold - 1 = 0 ∧ ∃ k₂,
      (k₂ = (k.releaseTaken m).threadChangePriority c ((k.releaseTaken m).threadGetMutexPriority c) ∨
        (k₂ = k.releaseTaken m ∧ (k.object m).ceilingPriority = 0xff ∧
          k.prioOf c ≠ (k.object m).priority)) ∧
      ((∃ next rest, k₂.waiters m = next :: rest ∧ k' = k₂.mutexHandOver m next) ∨
        (k₂.waiters m = [] ∧
          k' = k₂.setObject m fun x => { x with owner := none, priority := 0xff }))) := by
  unfold mutexRelease at h
  by_cases ho : (k.object m).owner = some c
  · rw [if_neg (not_not.mpr ho)] at h
    obtain ⟨rfl, rfl⟩ := Prod.mk.inj h
    rw [setObject_self]
    by_cases h1 : (k.object m).hold - 1 = 0
    · refine .inr (.inr ⟨ho, rfl, h1, ?_⟩)
      rw [if_pos (by exact h1)]
      obtain ⟨k₁, hk₁⟩ : ∃ k₁, k₁ = k.releaseTaken m := ⟨_, rfl⟩
      have hce : (k.object m).ceilingPriority = (k₁.object m).ceilingPriority := by
        rw [hk₁, releaseTaken, takenRemove, setObject_self]
      have hpm : (k.object m).priority = (k₁.object m).priority := by
        rw [hk₁, releaseTaken, takenRemove, setObject_self]
      have hpc : k.prioOf c = k₁.prioOf c := by rw [hk₁]; rfl
      unfold mutexReleaseLast
      dsimp only
      rw [← releaseTaken, ← hk₁, hce, hpm, hpc]
      split_ifs with hcond
      · refine ⟨_, .inl rfl, ?_⟩
        cases hw : (k₁.threadChangePriority c (k₁.threadGetMutexPriority c)).list (.suspend m) with
        | nil => exact .inr ⟨hw, rfl⟩
        | cons next rest => exact .inl ⟨next, rest, hw, rfl⟩
      · rw [not_or, not_not] at hcond
        refine ⟨k₁, .inr ⟨rfl, hcond⟩, ?_⟩
        cases hw : k₁.list (.suspend m) with
        | nil => exact .inr ⟨hw, rfl⟩
        | cons next rest => exact .inl ⟨next, rest, hw, rfl⟩
    · rw [if_neg (by exact h1)]
      exact .inr (.inl ⟨ho, rfl, h1, rfl⟩)
  · rw [if_pos ho] at h
    obtain ⟨rfl, rfl⟩ := Prod.mk.inj h
    exact .inl ⟨ho, rfl, rfl⟩

/-! ## Handing a mutex over -/

section
variable {next : T} (hk : Linked k) (hn : next ∈ k.waiters m)
include hk hn

/-- Handing over is a wake-up of the new owner. -/
theorem handOver_eq : k.mutexHandOver m next =
    (((k.listRemove next).setObject m fun x => { x with owner := some next, hold := 1 }).wake next
      fun th => { th with takenObjectList := m :: th.takenObjectList, pendingObject := none,
                          threadTimer := false }).mutexUpdatePriority m := by
  have hs : (((((k.listRemove next).setObject m fun x =>
      { x with owner := some next, hold := 1 }).takenInsert next m).setThread next fun th =>
        { th with pendingObject := none }).thread next).stat.isSuspend = true := by
    simpa [takenInsert] using hk.suspend hn
  unfold mutexHandOver
  dsimp only
  rw [threadResume_eq hs, takenInsert, setThread_setThread]
  refine congrArg (fun q => (scheduleInsertThread q next).mutexUpdatePriority m) ?_
  exact setThread_setThread (((k.listRemove next).setObject m fun x =>
    { x with owner := some next, hold := 1 }).listRemove next) next
    (fun th => { th with takenObjectList := m :: th.takenObjectList, pendingObject := none })
    fun th => { th with threadTimer := false }

theorem handOver_thread_self : (k.mutexHandOver m next).thread next =
    { k.thread next with takenObjectList := m :: (k.thread next).takenObjectList,
                         pendingObject := none, threadTimer := false,
                         stat := k.insertedStat next } := by
  rw [handOver_eq hk hn]
  exact wake_self _

theorem handOver_thread_of_ne (hu : u ≠ next) :
    (k.mutexHandOver m next).thread u = k.thread u := by
  rw [handOver_eq hk hn]
  exact wake_of_ne hu _

theorem handOver_waiters (x : O) :
    (k.mutexHandOver m next).waiters x = (k.waiters x).erase next := by
  rw [handOver_eq hk hn]
  change (Kernel.wake _ next _).waiters x = _
  rw [wake_waiters]
  exact List.erase_of_not_mem (hk.nodup _).not_mem_erase

theorem handOver_object (x : O) : (k.mutexHandOver m next).object x =
    if x = m then { k.object m with owner := some next, hold := 1,
                                    priority := (k.mutexHandOver m next).headPriority m }
    else k.object x := by
  have hhead : (k.mutexHandOver m next).headPriority m =
      (((k.listRemove next).setObject m fun x => { x with owner := some next, hold := 1 }).wake next
        fun th => { th with takenObjectList := m :: th.takenObjectList, pendingObject := none,
                            threadTimer := false }).headPriority m := by
    rw [handOver_eq hk hn]; rfl
  rw [hhead, handOver_eq hk hn, mutexUpdatePriority_object, wake_object]
  split_ifs with hx
  · subst hx; rw [setObject_self]; rfl
  · rw [setObject_of_ne _ hx]; rfl

theorem Linked.handOver : Linked (k.mutexHandOver m next) := by
  rw [handOver_eq hk hn]
  exact (((hk.unlink next).setObject m _).wake next _ rfl).setObject m _

end

/-! ## Ends of threads and mutexes -/

/-- The cases of `rt_thread_detach`: the thread is closed, and dropped from its mutex. -/
theorem threadDetach_cases {fuel : ℕ} (h : k.threadDetach fuel t = some k')
    {k₁ : Kernel T O} (hk₁ : k₁ = (k.threadDetachUnlink t).setThread t fun th =>
      { th with threadTimer := false, stat := .close, yieldFlag := false }) :
    ((k.thread t).stat = .close ∧ k' = k) ∨
    ((k.thread t).stat ≠ .close ∧
      (((∀ m, (k₁.thread t).pendingObject = some m → (k₁.object m).type ≠ .mutex) ∧
        k' = k₁.threadDefunctEnqueue t) ∨
      ∃ m k₂, (k₁.thread t).pendingObject = some m ∧ (k₁.object m).type = .mutex ∧
        (k₁.listRemove t).mutexWaiterLeft fuel m t = some k₂ ∧
        k' = (k₂.setThread t fun th => { th with pendingObject := none }).threadDefunctEnqueue t)) := by
  unfold threadDetach at h
  split_ifs at h with hc
  · exact .inl ⟨hc, (Option.some.inj h).symm⟩
  · refine .inr ⟨hc, ?_⟩
    unfold threadDetachClose at h
    dsimp only at h
    rw [← hk₁] at h
    cases hp : (k₁.thread t).pendingObject with
    | none =>
      simp only [hp] at h
      exact .inl ⟨fun _ hm => absurd hm (by simp), (Option.some.inj h).symm⟩
    | some m =>
      simp only [hp] at h
      split_ifs at h with hty
      · obtain ⟨k₃, hk₃, h⟩ := Option.bind_eq_some_iff.mp h
        obtain ⟨k₂, hk₂, rfl⟩ := Option.map_eq_some_iff.mp hk₃
        exact .inr ⟨m, k₂, rfl, hty, hk₂, (Option.some.inj h).symm⟩
      · refine .inl ⟨fun m' hm' => ?_, (Option.some.inj h).symm⟩
        cases hm'; exact hty

end Kernel

end RtThread
