import RtThread.Kernel.Linked

/-!
# The propagation of priorities

`_thread_update_priority` follows the chain of owners and writes nothing but priorities and the
order of suspend lists.

* `Alike k k'`: the kernels agree up to priorities, the order of lists and who runs;
* `updateLoop_cases`: what an iteration of the loop can do;
* **`updateLoop_alike`**: the loop keeps `Linked` and changes priorities only.
-/

set_option linter.unusedSectionVars false

namespace RtThread

open Queues

/-- The phase of a thread; the scheduler moves it between READY and RUNNING. -/
inductive Phase where
  | init | close | awake | suspended
  deriving DecidableEq, Repr

/-- The phase of a state. -/
def Stat.phase : Stat → Phase
  | .init => .init
  | .close => .close
  | .ready | .running => .awake
  | .suspend _ => .suspended

theorem Stat.isSuspend_iff {st : Stat} : st.isSuspend = true ↔ st.phase = .suspended := by
  cases st <;> simp [isSuspend, phase]

theorem Stat.close_iff {st : Stat} : st = .close ↔ st.phase = .close := by
  cases st <;> simp [phase]

theorem Stat.init_iff {st : Stat} : st = .init ↔ st.phase = .init := by
  cases st <;> simp [phase]

/-- What scheduling and changes of priority leave alone in a thread. -/
def Thread.fixed {O : Type} (th : Thread O) : Err × Phase × ℕ × List O × Option O × Bool :=
  (th.error, th.stat.phase, th.initPriority, th.takenObjectList, th.pendingObject, th.threadTimer)

/-- What scheduling and changes of priority leave alone in an object. -/
def IpcObject.fixed {T : Type} (x : IpcObject T) : ObjectClass × IpcFlag × ℕ × ℕ × Option T :=
  (x.type, x.flag, x.ceilingPriority, x.hold, x.owner)

namespace Kernel

variable {T O : Type} [DecidableEq T] [DecidableEq O]

/-- The kernels agree up to priorities, the order of lists and who runs. -/
structure Alike (k k' : Kernel T O) : Prop where
  thread : ∀ t, (k'.thread t).fixed = (k.thread t).fixed
  object : ∀ o, (k'.object o).fixed = (k.object o).fixed
  waiters : ∀ o t, t ∈ k'.waiters o ↔ t ∈ k.waiters o
  defunct : k'.list .defunct = k.list .defunct

/-- A thread that waits for a mutex is in its suspend list. -/
def PendingLinked (k : Kernel T O) : Prop := ∀ t m, (k.thread t).stat.isSuspend = true →
  (k.thread t).pendingObject = some m → (k.object m).type = .mutex → t ∈ k.waiters m

/-- The priority of the first waiter, 0xff when there is none. -/
def headPriority (k : Kernel T O) (o : O) : ℕ :=
  match k.waiters o with
  | [] => 0xff
  | t :: _ => k.prioOf t

/-- Re-insert a waiter and bring the mutex's priority up to date. -/
def reinsert (k : Kernel T O) (m : O) (t : T) : Kernel T O :=
  ((k.listRemove t).ipcListInsert m t).mutexUpdatePriority m

variable {k k' k'' : Kernel T O} {t u : T} {m o : O}

namespace Alike

theorem refl (k : Kernel T O) : Alike k k :=
  ⟨fun _ => rfl, fun _ => rfl, fun _ _ => Iff.rfl, rfl⟩

theorem trans (h : Alike k k') (h' : Alike k' k'') : Alike k k'' where
  thread t := (h'.thread t).trans (h.thread t)
  object o := (h'.object o).trans (h.object o)
  waiters o t := (h'.waiters o t).trans (h.waiters o t)
  defunct := h'.defunct.trans h.defunct

variable (h : Alike k k')
include h

theorem error (t : T) : (k'.thread t).error = (k.thread t).error := congrArg (·.1) (h.thread t)

theorem phase (t : T) : (k'.thread t).stat.phase = (k.thread t).stat.phase :=
  congrArg (·.2.1) (h.thread t)

theorem isSuspend (t : T) :
    (k'.thread t).stat.isSuspend = true ↔ (k.thread t).stat.isSuspend = true := by
  rw [Stat.isSuspend_iff, Stat.isSuspend_iff, h.phase]

theorem init (t : T) : (k'.thread t).initPriority = (k.thread t).initPriority :=
  congrArg (·.2.2.1) (h.thread t)

theorem taken (t : T) : (k'.thread t).takenObjectList = (k.thread t).takenObjectList :=
  congrArg (·.2.2.2.1) (h.thread t)

theorem pending (t : T) : (k'.thread t).pendingObject = (k.thread t).pendingObject :=
  congrArg (·.2.2.2.2.1) (h.thread t)

theorem timer (t : T) : (k'.thread t).threadTimer = (k.thread t).threadTimer :=
  congrArg (·.2.2.2.2.2) (h.thread t)

theorem type (o : O) : (k'.object o).type = (k.object o).type := congrArg (·.1) (h.object o)

theorem flag (o : O) : (k'.object o).flag = (k.object o).flag := congrArg (·.2.1) (h.object o)

theorem ceiling (o : O) : (k'.object o).ceilingPriority = (k.object o).ceilingPriority :=
  congrArg (·.2.2.1) (h.object o)

theorem hold (o : O) : (k'.object o).hold = (k.object o).hold := congrArg (·.2.2.2.1) (h.object o)

theorem owner (o : O) : (k'.object o).owner = (k.object o).owner :=
  congrArg (·.2.2.2.2) (h.object o)

theorem clearPending (t : T) : Alike (k.setThread t fun th => { th with pendingObject := none })
    (k'.setThread t fun th => { th with pendingObject := none }) where
  thread u := by
    by_cases hu : u = t
    · subst hu
      rw [setThread_self, setThread_self]
      exact congrArg (fun x : Err × Phase × ℕ × List O × Option O × Bool =>
        (x.1, x.2.1, x.2.2.1, x.2.2.2.1, none, x.2.2.2.2.2)) (h.thread u)
    · rw [setThread_of_ne _ hu, setThread_of_ne _ hu]; exact h.thread u
  object := h.object
  waiters := h.waiters
  defunct := h.defunct

theorem pendingLinked (hp : PendingLinked k) : PendingLinked k' := fun t m hs hm ht => by
  rw [h.waiters]
  exact hp t m ((h.isSuspend t).mp hs) (h.pending t ▸ hm) (h.type m ▸ ht)

end Alike

/-! ## A change of priority -/

theorem changePriority_thread (hk : Linked k) (t : T) (p : ℕ) :
    (k.threadChangePriority t p).thread = (k.setThread t (Thread.writePriority p)).thread := by
  unfold threadChangePriority
  split_ifs with ht
  · have hc : k.currentThread ≠ some t := fun hc => hk.current hc ht
    funext u
    by_cases hu : u = t
    · subst hu; simp [insertedStat, hc, Thread.writePriority, ht]
    · simp [hu]
  · rfl

@[simp] theorem changePriority_object (t : T) (p : ℕ) :
    (k.threadChangePriority t p).object = k.object := by
  unfold threadChangePriority; split_ifs <;> simp

theorem changePriority_waiters (hk : Linked k) (t : T) (p : ℕ) (o : O) :
    (k.threadChangePriority t p).waiters o = k.waiters o := by
  unfold threadChangePriority
  split_ifs with ht
  · rw [scheduleInsertThread_waiters]
    refine List.erase_of_not_mem fun hm => ?_
    have := hk.suspend hm
    rw [ht] at this
    cases this
  · rfl

theorem changePriority_defunct (hk : Linked k) (t : T) (p : ℕ) :
    (k.threadChangePriority t p).list .defunct = k.list .defunct := by
  unfold threadChangePriority
  split_ifs with ht
  · rw [scheduleInsertThread_defunct]
    refine List.erase_of_not_mem fun hm => ?_
    rw [hk.defunct hm] at ht
    cases ht
  · rfl

theorem changePriority_prioOf (hk : Linked k) (t : T) (p : ℕ) (u : T) :
    (k.threadChangePriority t p).prioOf u = if u = t then p else k.prioOf u := by
  rw [prioOf, changePriority_thread hk]
  split_ifs with hu
  · subst hu; simp [Thread.writePriority]
  · rw [setThread_of_ne _ hu]

theorem changePriority_alike (hk : Linked k) (t : T) (p : ℕ) :
    Alike k (k.threadChangePriority t p) where
  thread u := by
    rw [changePriority_thread hk]
    by_cases hu : u = t
    · subst hu; rw [setThread_self]; rfl
    · rw [setThread_of_ne _ hu]
  object o := by rw [changePriority_object]
  waiters o u := by rw [changePriority_waiters hk]
  defunct := changePriority_defunct hk t p

/-! ## The priority of a mutex -/

theorem mutexUpdatePriority_object (m o : O) : (k.mutexUpdatePriority m).object o =
    if o = m then { k.object m with priority := k.headPriority m } else k.object o := by
  unfold mutexUpdatePriority
  split_ifs with ho
  · subst ho; rw [setObject_self]; rfl
  · rw [setObject_of_ne _ ho]

theorem setObject_alike (m : O) (f : IpcObject T → IpcObject T)
    (hf : (f (k.object m)).fixed = (k.object m).fixed) :
    Alike k (k.setObject m f) where
  thread _ := rfl
  object o := by
    by_cases ho : o = m
    · subst ho; rw [setObject_self]; exact hf
    · rw [setObject_of_ne _ ho]
  waiters _ _ := Iff.rfl
  defunct := rfl

theorem mutexUpdatePriority_alike (m : O) : Alike k (k.mutexUpdatePriority m) :=
  setObject_alike m _ rfl

theorem Linked.setObject (hk : Linked k) (m : O) (f : IpcObject T → IpcObject T) :
    Linked (k.setObject m f) := hk.congr (k.setObject m f) rfl (fun _ => rfl) rfl

/-! ## Re-insertion -/

theorem ipcListInsert_waiters (t : T) (o : O) : (k.ipcListInsert m t).waiters o =
    if o = m then
      match (k.object m).flag with
      | .fifo => k.waiters m ++ [t]
      | .prio => insertByKey k.prioOf t (k.waiters m)
    else k.waiters o := by
  unfold ipcListInsert
  cases (k.object m).flag with
  | fifo =>
    change Function.update k.list (.suspend m) (k.list (.suspend m) ++ [t]) (.suspend o) = _
    by_cases ho : o = m
    · subst ho; simp
    · rw [Function.update_of_ne (by simpa using ho), if_neg ho]
  | prio =>
    change Function.update k.list (.suspend m) _ (.suspend o) = _
    by_cases ho : o = m
    · subst ho; simp
    · rw [Function.update_of_ne (by simpa using ho), if_neg ho]

theorem ipcListInsert_defunct (m : O) (t : T) :
    (k.ipcListInsert m t).list .defunct = k.list .defunct := by
  have hne : (Head.defunct : Head O) ≠ .suspend m := by simp
  unfold ipcListInsert
  cases (k.object m).flag with
  | fifo => exact Function.update_of_ne hne (k.list (.suspend m) ++ [t]) k.list
  | prio =>
    exact Function.update_of_ne hne (insertByKey k.prioOf t (k.list (.suspend m))) k.list

theorem mem_ipcListInsert_waiters (o : O) :
    u ∈ (k.ipcListInsert m t).waiters o ↔ (o = m ∧ u = t) ∨ u ∈ k.waiters o := by
  rw [ipcListInsert_waiters]
  split_ifs with ho
  · subst ho
    cases (k.object o).flag <;> simp [or_comm]
  · simp [ho]

theorem reinsert_alike (hk : Linked k) (ht : t ∈ k.waiters m) :
    Alike k (k.reinsert m t) := by
  refine Alike.trans ?_ (mutexUpdatePriority_alike m)
  refine ⟨fun _ => rfl, fun _ => rfl, fun o u => ?_, ?_⟩
  swap
  · rw [ipcListInsert_defunct]
    refine List.erase_of_not_mem fun hm => ?_
    cases hk.unique hm ht
  rw [mem_ipcListInsert_waiters]
  have hmem : u ∈ (k.listRemove t).waiters o ↔ u ≠ t ∧ u ∈ k.waiters o :=
    (hk.nodup (.suspend o)).mem_erase_iff
  rw [hmem]
  constructor
  · rintro (⟨rfl, rfl⟩ | ⟨-, hu⟩)
    · exact ht
    · exact hu
  · intro hu
    by_cases hut : u = t
    · subst hut
      exact .inl ⟨Head.suspend.inj (hk.unique hu ht), rfl⟩
    · exact .inr ⟨hut, hu⟩

theorem Linked.reinsert (hk : Linked k) (ht : (k.thread t).stat.isSuspend = true) (m : O) :
    Linked (k.reinsert m t) :=
  ((hk.unlink t).ipcListInsert (hk.unlinked_listRemove t) ht m).congr (k.reinsert m t) rfl
    (fun _ => rfl) rfl

/-! ## The loop -/

/-- **An iteration of the loop.** It ends at a thread that waits for no mutex; else it re-inserts the
thread and goes on with the owner, when the owner's priority is out of date. -/
theorem updateLoop_cases {flag : SuspendFlag} {fuel : ℕ}
    (h : threadUpdatePriorityLoop flag (fuel + 1) k t = some k') :
    (((k.thread t).stat.isSuspend = true → ∀ m, (k.thread t).pendingObject = some m →
      (k.object m).type ≠ .mutex) ∧ k' = k) ∨
    ∃ m o, (k.thread t).stat.isSuspend = true ∧ (k.thread t).pendingObject = some m ∧
      (k.object m).type = .mutex ∧ (k.object m).owner = some o ∧
      (((k.reinsert m t).threadGetMutexPriority o = (k.reinsert m t).prioOf o ∧
          k' = k.reinsert m t) ∨
        ((k.reinsert m t).threadGetMutexPriority o ≠ (k.reinsert m t).prioOf o ∧
          threadUpdatePriorityLoop flag fuel ((k.reinsert m t).threadChangePriority o
            ((k.reinsert m t).threadGetMutexPriority o)) o = some k')) := by
  rw [threadUpdatePriorityLoop] at h
  split_ifs at h with hs
  · cases hp : (k.thread t).pendingObject with
    | none =>
      simp only [hp] at h
      exact .inl ⟨fun _ _ hm => absurd hm (by simp), (Option.some.inj h).symm⟩
    | some m =>
      simp only [hp] at h
      split_ifs at h with hm
      · have hsus : (k.listRemove t).ipcListSuspend m t flag =
            (.eok, (k.listRemove t).ipcListInsert m t) := by
          rw [ipcListSuspend, if_pos (by exact hs)]
        rw [hsus] at h
        dsimp only at h
        have how : (((k.listRemove t).ipcListInsert m t).mutexUpdatePriority m).object m =
            { k.object m with priority := ((k.listRemove t).ipcListInsert m t).headPriority m } := by
          rw [mutexUpdatePriority_object, if_pos rfl]; rfl
        rw [how] at h
        cases ho : (k.object m).owner with
        | none => simp [ho] at h
        | some o =>
          simp only [ho] at h
          refine .inr ⟨m, o, hs, rfl, hm, ho, ?_⟩
          split_ifs at h with hne
          · exact .inr ⟨hne, h⟩
          · exact .inl ⟨not_not.mp hne, (Option.some.inj h).symm⟩
      · exact .inl ⟨fun _ m' hm' => by cases hm'; exact hm, (Option.some.inj h).symm⟩
  · exact .inl ⟨fun h' => absurd h' hs, (Option.some.inj h).symm⟩

/-- **The loop changes priorities only.** -/
theorem updateLoop_alike {flag : SuspendFlag} {fuel : ℕ} (hk : Linked k) (hp : PendingLinked k)
    (h : threadUpdatePriorityLoop flag fuel k t = some k') : Linked k' ∧ Alike k k' := by
  induction fuel generalizing k t with
  | zero => cases h
  | succ fuel ih =>
    rcases updateLoop_cases h with ⟨-, rfl⟩ | ⟨m, o, hs, hm, hty, -, h⟩
    · exact ⟨hk, .refl _⟩
    · have h1 := hk.reinsert hs m
      have h2 := reinsert_alike hk (hp t m hs hm hty)
      rcases h with ⟨-, rfl⟩ | ⟨-, h⟩
      · exact ⟨h1, h2⟩
      · have h3 := changePriority_alike h1 o ((k.reinsert m t).threadGetMutexPriority o)
        have h4 := h2.trans h3
        obtain ⟨h5, h6⟩ := ih (h1.changePriority o _) (h4.pendingLinked hp) h
        exact ⟨h5, h4.trans h6⟩

theorem updatePriority_alike {flag : SuspendFlag} {fuel p : ℕ} (hk : Linked k)
    (hp : PendingLinked k) (h : k.threadUpdatePriority fuel t p flag = some k') :
    Linked k' ∧ Alike k k' := by
  have h1 := changePriority_alike hk t p
  obtain ⟨h2, h3⟩ := updateLoop_alike (hk.changePriority t p) (h1.pendingLinked hp) h
  exact ⟨h2, h1.trans h3⟩

theorem refreshPriority_alike {fuel : ℕ} (hk : Linked k) (hp : PendingLinked k)
    (h : k.threadRefreshPriority fuel t = some k') : Linked k' ∧ Alike k k' := by
  unfold threadRefreshPriority at h
  split_ifs at h
  · exact updatePriority_alike hk hp h
  · cases h; exact ⟨hk, .refl _⟩

theorem mutexWaiterLeft_alike {fuel : ℕ} (hk : Linked k) (hp : PendingLinked k)
    (h : k.mutexWaiterLeft fuel m t = some k') : Linked k' ∧ Alike k k' := by
  have h1 : Linked (k.mutexUpdatePriority m) := hk.setObject m _
  have h2 : Alike k (k.mutexUpdatePriority m) := mutexUpdatePriority_alike m
  unfold mutexWaiterLeft at h
  cases ho : (k.object m).owner with
  | none => simp only [ho] at h; cases h; exact ⟨h1, h2⟩
  | some o =>
    simp only [ho] at h
    split_ifs at h
    · obtain ⟨h3, h4⟩ := refreshPriority_alike h1 (h2.pendingLinked hp) h
      exact ⟨h3, h2.trans h4⟩
    · cases h; exact ⟨h1, h2⟩

end Kernel

end RtThread
