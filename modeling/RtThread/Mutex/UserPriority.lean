import RtThread.Mutex.Inherit

/-!
# The priority that the user sets

`rt_thread_control` writes `current_priority` only, while `rt_mutex_release` and the propagation
recompute it from `init_priority`. `user` has no counterpart in the code: it is the priority that
`RT_THREAD_CTRL_CHANGE_PRIORITY` gave a thread which owned no mutex.

* `UserState`, `userStep`, `userSystem`;
* `FreeAt`: a thread that owns no mutex keeps its priority;
* `updateLoop_free`, `waiterLeft_free`: the propagation writes to owners of mutexes;
* `restoreOk`: the steps that leave a thread without mutexes give it its priority back;
* **`user_priority`**: with such steps only, and exactly with them, the user's priority survives.
-/

set_option linter.unusedSectionVars false

namespace RtThread

open Kernel

variable {T O : Type} [DecidableEq T] [DecidableEq O] {fuel : ℕ}

/-- The mutexes, and the priority the user gave a thread while it owned no mutex. -/
structure UserState (T O : Type) where
  state : MutexState T O
  user : T → Option ℕ

namespace UserState

/-- The user's priorities after a step. -/
def record (s : UserState T O) : MutexLabel T O → T → Option ℕ
  | .changePriority t p => Function.update s.user t
      (if (s.state.kernel.thread t).takenObjectList = [] then some p else none)
  | _ => s.user

end UserState

/-- One step. -/
def userStep (fuel : ℕ) (s : UserState T O) (a : MutexLabel T O) : Option (UserState T O) :=
  (mutexStep fuel s.state a).map fun s' => { state := s', user := s.record a }

/-- Nothing has happened. -/
structure UserInit (s : UserState T O) : Prop where
  state : MutexInit s.state
  user : ∀ t, s.user t = none

/-- The mutexes with the user's priorities as a system. -/
def userSystem (T O : Type) [DecidableEq T] [DecidableEq O] (fuel : ℕ) :
    System (UserState T O) (MutexLabel T O) := ⟨UserInit, userStep fuel⟩

/-- A thread that owns no mutex has the priority that the user gave it. -/
def UserOk (s : UserState T O) : Prop := ∀ t p, s.user t = some p →
  (s.state.kernel.thread t).takenObjectList = [] → s.state.kernel.prioOf t = p

/-- `rt_mutex_release` recomputes the priority of the thread. -/
def Kernel.recomputes (k : Kernel T O) (c : T) (m : O) : Bool :=
  decide ((k.object m).ceilingPriority ≠ 0xff ∨ k.prioOf c = (k.object m).priority)

/-- Where a thread gives up its last mutex, it goes back to the user's priority: by its
`init_priority` when that is written, and because nothing has raised it otherwise. A clean-up in
`_rt_mutex_take` recomputes the last owner of a mutex that has been detached, too. -/
def restoreOk (s : UserState T O) : MutexLabel T O → Bool
  | .release m => s.state.self.all fun c =>
      decide ((s.state.kernel.object m).owner ≠ some c) ||
        decide ((s.state.kernel.object m).hold - 1 ≠ 0) ||
        decide ((s.state.kernel.thread c).takenObjectList ≠ [m]) ||
        (s.user c).all fun p => decide ((if s.state.kernel.recomputes c m then
          (s.state.kernel.thread c).initPriority else s.state.kernel.prioOf c) = p)
  | .detachMutex m => (s.state.kernel.object m).owner.all fun c =>
      decide ((s.state.kernel.thread c).takenObjectList ≠ [m]) ||
        (s.user c).all fun p => decide (s.state.kernel.prioOf c = p)
  | .takeResume => s.state.kernel.currentThread.all fun c => (s.state.taking c).all fun m =>
      decide ((s.state.kernel.thread c).error = .eok) ||
        (s.state.kernel.object m).owner.all fun o =>
          decide ((s.state.kernel.thread o).takenObjectList ≠ []) ||
            decide (s.state.kernel.prioOf o ≠ s.state.kernel.prioOf c) ||
            (s.user o).all fun p => decide ((s.state.kernel.thread o).initPriority = p)
  | _ => true

/-- Resumes as in `resumeOk`, and `restoreOk`. -/
def userOk (s : UserState T O) (a : MutexLabel T O) : Bool := resumeOk s.state a && restoreOk s a

namespace Kernel

variable {k k' k'' : Kernel T O} {taking : T → Option O} {c t u : T} {m : O} {flag : SuspendFlag}

/-- When `u` owns no mutex afterwards, it owned none before, and has kept its priority. -/
def FreeAt (k k' : Kernel T O) (u : T) : Prop := (k'.thread u).takenObjectList = [] →
  (k.thread u).takenObjectList = [] ∧ k'.prioOf u = k.prioOf u

/-- The owner of a mutex has it in its `taken_object_list`. -/
def OwnerTaken (k : Kernel T O) : Prop := ∀ m o, (k.object m).type = .mutex →
  (k.object m).owner = some o → (k.thread o).takenObjectList ≠ []

namespace FreeAt

theorem refl (k : Kernel T O) (u : T) : FreeAt k k u := fun h => ⟨h, rfl⟩

theorem trans (h : FreeAt k k' u) (h' : FreeAt k' k'' u) : FreeAt k k'' u := fun hu => by
  obtain ⟨h1, h2⟩ := h' hu
  obtain ⟨h3, h4⟩ := h h1
  exact ⟨h3, h2.trans h4⟩

/-- The list and the priority of `u` are the same. -/
theorem of_eq (ht : (k'.thread u).takenObjectList = (k.thread u).takenObjectList)
    (hp : k'.prioOf u = k.prioOf u) : FreeAt k k' u := fun hu => ⟨ht ▸ hu, hp⟩

/-- Writes to a thread that keep its priority and take no mutex from it. -/
theorem setThread (t : T) (f : Thread O → Thread O)
    (hf : ∀ th, (f th).currentPriority = th.currentPriority ∧
      ((f th).takenObjectList = [] → th.takenObjectList = [])) : FreeAt k (k.setThread t f) u := by
  intro hu
  rw [setThread_apply] at hu
  unfold prioOf
  rw [setThread_apply]
  split_ifs at hu ⊢ with e
  · subst e
    exact ⟨(hf _).2 hu, (hf _).1⟩
  · exact ⟨hu, rfl⟩

theorem setObject (m : O) (f : IpcObject T → IpcObject T) : FreeAt k (k.setObject m f) u :=
  fun h => ⟨h, rfl⟩

theorem dispatched (h : Dispatched k k') : FreeAt k k' u := of_eq (h.alike.taken u) (h.prio u)

theorem wake (t : T) (f : Thread O → Thread O)
    (hf : ∀ th, (f th).currentPriority = th.currentPriority ∧
      ((f th).takenObjectList = [] → th.takenObjectList = [])) : FreeAt k (k.wake t f) u := by
  intro hu
  unfold prioOf
  by_cases e : u = t
  · subst e
    rw [wake_self] at hu ⊢
    exact ⟨(hf _).2 hu, (hf _).1⟩
  · rw [wake_of_ne e] at hu ⊢
    exact ⟨hu, rfl⟩

/-- The priority of another thread changes, or that of an owner. -/
theorem changePriority (hk : Linked k) (p : ℕ)
    (hu : u ≠ t ∨ (k.thread u).takenObjectList ≠ []) :
    FreeAt k (k.threadChangePriority t p) u := by
  intro h
  rw [(changePriority_alike hk t p).taken] at h
  refine ⟨h, ?_⟩
  rw [changePriority_prioOf hk, if_neg (hu.resolve_right (not_not.mpr h))]

end FreeAt

/-! ## The propagation -/

theorem OwnerTaken.alike (ho : OwnerTaken k) (ha : Alike k k') : OwnerTaken k' := by
  intro m o hm h
  rw [ha.taken]
  exact ho m o (ha.type m ▸ hm) (ha.owner m ▸ h)

theorem threadGetMutexPriority_free (h : (k.thread t).takenObjectList = []) :
    k.threadGetMutexPriority t = (k.thread t).initPriority := by
  unfold threadGetMutexPriority
  rw [h, List.foldl_nil]

/-- **The loop writes to owners of mutexes only.** -/
theorem updateLoop_free (hk : Linked k) (hp : PendingLinked k) (ho : OwnerTaken k)
    (h : threadUpdatePriorityLoop flag fuel k t = some k')
    (hu : (k.thread u).takenObjectList = []) : k'.prioOf u = k.prioOf u := by
  induction fuel generalizing k t with
  | zero => cases h
  | succ fuel ih =>
    rcases updateLoop_cases h with ⟨-, rfl⟩ | ⟨m, o, hs, hm, hty, howner, h⟩
    · rfl
    · have h1 := hk.reinsert hs m
      have h2 := reinsert_alike hk (hp t m hs hm hty)
      rcases h with ⟨-, rfl⟩ | ⟨-, h⟩
      · rfl
      · have h3 := changePriority_alike h1 o ((k.reinsert m t).threadGetMutexPriority o)
        have h4 := h2.trans h3
        have huo : u ≠ o := fun e => ho m o hty howner (e ▸ hu)
        rw [ih (h1.changePriority o _) (h4.pendingLinked hp) (ho.alike h4) h
          ((h4.taken u).trans hu), changePriority_prioOf h1, if_neg huo]
        rfl

theorem updatePriority_free {p : ℕ} (hk : Linked k) (hp : PendingLinked k) (ho : OwnerTaken k)
    (h : k.threadUpdatePriority fuel t p flag = some k')
    (hu : (k.thread u).takenObjectList = []) : k'.prioOf u = if u = t then p else k.prioOf u := by
  have h1 := changePriority_alike hk t p
  rw [updateLoop_free (hk.changePriority t p) (h1.pendingLinked hp) (ho.alike h1) h
    ((h1.taken u).trans hu), changePriority_prioOf hk]

/-- A thread without mutexes goes back to its initial priority. -/
theorem refreshPriority_free (hk : Linked k) (hp : PendingLinked k) (ho : OwnerTaken k)
    (h : k.threadRefreshPriority fuel t = some k') (hu : (k.thread u).takenObjectList = []) :
    k'.prioOf u = if u = t then (k.thread u).initPriority else k.prioOf u := by
  unfold threadRefreshPriority at h
  split_ifs at h with hne
  · rw [updatePriority_free hk hp ho h hu]
    by_cases e : u = t
    · rw [if_pos e, if_pos e, ← threadGetMutexPriority_free hu, e]
    · rw [if_neg e, if_neg e]
  · cases h
    by_cases e : u = t
    · rw [if_pos e, ← threadGetMutexPriority_free hu, e]
      exact (not_not.mp hne).symm
    · rw [if_neg e]

theorem waiterLeft_free (hk : Linked k) (hp : PendingLinked k) (ho : OwnerTaken k)
    (h : k.mutexWaiterLeft fuel m t = some k') (hu : (k.thread u).takenObjectList = []) :
    k'.prioOf u = if (k.object m).owner = some u ∧ k.prioOf u = k.prioOf t then
      (k.thread u).initPriority else k.prioOf u := by
  have ha : Alike k (k.mutexUpdatePriority m) := mutexUpdatePriority_alike m
  unfold mutexWaiterLeft at h
  cases howner : (k.object m).owner with
  | none =>
    simp only [howner] at h
    cases h
    rw [if_neg (by simp)]
    rfl
  | some o =>
    simp only [howner] at h
    split_ifs at h with hpr
    · rw [refreshPriority_free (hk.setObject m _) (ha.pendingLinked hp) (ho.alike ha) h hu]
      by_cases e : u = o
      · subst e
        rw [if_pos rfl, if_pos ⟨rfl, hpr⟩]
        rfl
      · rw [if_neg e, if_neg fun h => e (Option.some.inj h.1).symm]
        rfl
    · cases h
      have hno : ¬ (some o = some u ∧ k.prioOf u = k.prioOf t) := by
        rintro ⟨e, h⟩
        exact hpr (Option.some.inj e ▸ h)
      rw [if_neg hno]
      rfl

end Kernel

variable {k k' : Kernel T O} {taking : T → Option O} {c t u : T} {m : O} {flag : SuspendFlag}

theorem Wf.ownerTaken (h : Wf k taking) : OwnerTaken k := fun m o hm ho =>
  List.ne_nil_of_mem ((h.owned o m).mpr ⟨ho, hm⟩)

/-! ## The functions -/

namespace Kernel.FreeAt

theorem suspendSelf (c : T) (flag : SuspendFlag) : FreeAt k (k.suspendSelf c flag) u :=
  setThread (k := k.scheduleRemoveThread c) c
    (fun th => { th with stat := .suspend flag, threadTimer := false }) fun _ => ⟨rfl, id⟩

theorem suspendOn (o : O) (c : T) (flag : SuspendFlag) : FreeAt k (k.suspendOn o c flag) u :=
  suspendSelf c flag

theorem threadSleep (hc : (k.thread c).stat = .running) : FreeAt k (k.threadSleep c).2 u := by
  have hc1 : ((k.setThread c fun th => { th with error := .eok }).thread c).stat = .running := by
    rw [setThread_self]; exact hc
  have h1 : FreeAt k (k.setThread c fun th => { th with error := .eok }) u :=
    setThread c _ fun _ => ⟨rfl, id⟩
  unfold Kernel.threadSleep
  rw [threadSuspend_eq hc1]
  exact (h1.trans (suspendSelf c .interruptible)).trans
    (setThread c (fun th => { th with threadTimer := true, error := .eintr }) fun _ => ⟨rfl, id⟩)

theorem ipcWait (hc : (k.thread c).stat = .running) (o : O) (timeout : ℤ) (flag : SuspendFlag) :
    FreeAt k (k.ipcWait c o timeout flag).2 u := by
  have hc1 : ((k.setThread c fun th => { th with error := .eintr }).thread c).stat = .running := by
    rw [setThread_self]; exact hc
  have h1 : FreeAt k (k.setThread c fun th => { th with error := .eintr }) u :=
    setThread c _ fun _ => ⟨rfl, id⟩
  have h2 := h1.trans (suspendOn o c flag)
  unfold Kernel.ipcWait
  dsimp only
  rw [ipcListSuspend_eq hc1]
  dsimp only
  split_ifs
  · exact h2.trans (setThread c _ fun _ => ⟨rfl, id⟩)
  · exact h2

/-- A mutex without owner is taken: the thread owns a mutex. -/
theorem mutexTakeFree (hk : Linked k) (hc : (k.thread c).stat = .running)
    (h : k.mutexTakeFree fuel c m flag = some k') : FreeAt k k' u := by
  rw [mutexTakeFree_eq hk hc h]
  intro hu
  have huc : u ≠ c := fun e => by
    rw [e, takenInsert, setThread_self] at hu
    cases hu
  have h1 : FreeAt k (k.takeObject c m) u := setObject m _
  refine FreeAt.trans ?_ (setThread c _ fun _ => ⟨rfl, fun h => by cases h⟩) hu
  split_ifs
  · exact h1.trans (changePriority (hk.setObject m _) _ (.inl huc))
  · exact h1

/-- The calling thread waits, and the owner is raised. -/
theorem mutexTakeWait (hw : Wf k taking) (hc : (k.thread c).stat = .running)
    (htc : taking c = none) (hm : (k.object m).type = .mutex)
    (ho : (k.object m).owner = some t) (htc' : t ≠ c) (hce : (k.thread c).error = .eok)
    {timeout : ℤ} {r : TakeResult}
    (h : k.mutexTakeWait fuel c t m timeout flag = some (r, k')) : FreeAt k k' u := by
  have h1 : FreeAt k (k.waitFor c m flag) u :=
    (suspendOn m c flag).trans (setThread c _ fun _ => ⟨rfl, id⟩)
  have hwf := hw.waitFor hc htc hm hce ho htc' flag
  have hch := hwf.chain
  have hot := hwf.ownerTaken
  obtain ⟨-, k₂, hk', hk₂⟩ := mutexTakeWait_cases hc h
  have h2 : FreeAt k k₂ u := by
    rcases hk₂ with ⟨-, rfl⟩ | ⟨-, ⟨-, rfl⟩ | ⟨-, hk₂⟩⟩
    · exact h1
    · exact h1.trans (setObject m _)
    · obtain ⟨k₁, hk₁⟩ : ∃ k₁, k₁ = (k.waitFor c m flag).setObject m fun x =>
        { x with priority := k.prioOf c } := ⟨_, rfl⟩
      rw [← hk₁] at hk₂
      have ha : Alike (k.waitFor c m flag) k₁ := hk₁ ▸ setObject_alike m _ rfl
      have hl : Linked k₁ := hk₁ ▸ hch.linked.setObject m _
      have ha2 := (updatePriority_alike hl (ha.pendingLinked hch.pendingLinked) hk₂).2
      refine (h1.trans (hk₁ ▸ setObject m _)).trans fun hu => ?_
      rw [ha2.taken] at hu
      refine ⟨hu, ?_⟩
      have hut : u ≠ t := fun e => by
        rw [hk₁, e] at hu
        exact hot m t hm ho hu
      rw [updatePriority_free hl (ha.pendingLinked hch.pendingLinked) (hot.alike ha) hk₂ hu,
        if_neg hut]
  rcases hk' with rfl | rfl
  · exact h2.trans (setThread c _ fun _ => ⟨rfl, id⟩)
  · exact h2

theorem mutexSetprioceiling (hw : Wf k taking) (hm : (k.object m).type = .mutex) {p : ℕ}
    (h : k.mutexSetprioceiling fuel m p = some k') : FreeAt k k' u := by
  unfold Kernel.mutexSetprioceiling at h
  split_ifs at h
  · have h1 : FreeAt k (k.setObject m fun x => { x with ceilingPriority := p }) u := setObject m _
    have hw1 := hw.setObject m (fun x => { x with ceilingPriority := p }) fun _ => ⟨rfl, rfl, rfl⟩
    dsimp only at h
    rw [setObject_self] at h
    cases ho : (k.object m).owner with
    | none => simp only [ho] at h; cases h; exact h1
    | some o =>
      simp only [ho] at h
      have ha := (refreshPriority_alike hw1.linked hw1.pendingLinked h).2
      refine h1.trans fun hu => ?_
      rw [ha.taken] at hu
      refine ⟨hu, ?_⟩
      have huo : u ≠ o := fun e => hw.ownerTaken m o hm ho (e ▸ hu)
      rw [refreshPriority_free hw1.linked hw1.pendingLinked hw1.ownerTaken h hu, if_neg huo]
  · cases h; exact refl k u

theorem threadDetach (hw : Wf k taking) (h : k.threadDetach fuel t = some k') :
    FreeAt k k' u := by
  obtain ⟨k₁, hk₁⟩ : ∃ k₁, k₁ = (k.threadDetachUnlink t).setThread t fun th =>
    { th with threadTimer := false, stat := .close, yieldFlag := false } := ⟨_, rfl⟩
  have hrem : FreeAt k (k.threadDetachUnlink t) u ∧
      (k.threadDetachUnlink t).thread = k.thread ∧ (k.threadDetachUnlink t).object = k.object := by
    unfold threadDetachUnlink
    split_ifs
    · exact ⟨fun h => ⟨h, rfl⟩, rfl, rfl⟩
    · exact ⟨refl k u, rfl, rfl⟩
  have h1 : FreeAt k k₁ u := hk₁ ▸ hrem.1.trans (setThread t _ fun _ => ⟨rfl, id⟩)
  rcases threadDetach_cases h hk₁ with ⟨-, rfl⟩ | ⟨-, ⟨-, rfl⟩ | ⟨m, k₂, hp, hm, hk₂, rfl⟩⟩
  · exact refl _ u
  · exact h1
  · have hch := closed_chain hw hk₁
    have hobj : k₁.object = k.object := hk₁ ▸ hrem.2.2
    have htaken : ∀ v, (k₁.thread v).takenObjectList = (k.thread v).takenObjectList := fun v => by
      rw [hk₁, setThread_apply, hrem.2.1]
      split_ifs with e
      · rw [e]
      · rfl
    have hot : OwnerTaken (k₁.listRemove t) := fun m o hm ho => by
      rw [listRemove_object, hobj] at hm ho
      rw [listRemove_thread, htaken]
      exact hw.ownerTaken m o hm ho
    have ha := (mutexWaiterLeft_alike hch.linked hch.pendingLinked hk₂).2
    have h2 : FreeAt k k₂ u := h1.trans fun hu => by
      rw [ha.taken] at hu
      refine ⟨hu, ?_⟩
      rw [waiterLeft_free hch.linked hch.pendingLinked hot hk₂ hu, if_neg fun h =>
        hot m u hm h.1 hu]
      rfl
    exact h2.trans (setThread t (fun th => { th with pendingObject := none }) fun _ => ⟨rfl, id⟩)

theorem proceed (a : Pending T) : FreeAt k (k.resumeSection a).1 u := by
  cases a with
  | check t => exact refl k u
  | unlink t =>
    have h1 : FreeAt k (k.listRemove t) u := fun h => ⟨h, rfl⟩
    exact h1.trans (setThread t (fun th => { th with threadTimer := false }) fun _ => ⟨rfl, id⟩)
  | insert t =>
    refine of_eq ?_ ?_
    · change ((k.scheduleInsertThread t).thread u).takenObjectList = _
      rw [scheduleInsertThread_thread, setThread_apply]
      split_ifs with e
      · rw [e]
      · rfl
    · change ((k.scheduleInsertThread t).thread u).currentPriority = _
      rw [scheduleInsertThread_thread, setThread_apply]
      split_ifs with e
      · rw [e]
      · rfl

end Kernel.FreeAt

namespace Kernel

/-- Waking all waiters writes neither priorities nor `taken_object_list`. -/
theorem resumeAll_free (hk : Linked k) (u : T) :
    ((k.ipcListResumeAll m).thread u).takenObjectList = (k.thread u).takenObjectList ∧
      (k.ipcListResumeAll m).prioOf u = k.prioOf u := by
  unfold ipcListResumeAll
  generalize hl : k.list (.suspend m) = l
  induction l generalizing k with
  | nil => exact ⟨rfl, rfl⟩
  | cons t l ih =>
    have ht : t ∈ k.waiters m := by rw [waiters, hl]; exact List.mem_cons_self
    have hs := hk.suspend ht
    rw [List.foldl_cons, ipcResumeThread_eq hs]
    have hl1 : (k.wake t fun th => { th with error := .error, threadTimer := false }).list
        (.suspend m) = l := by
      have := wake_waiters (k := k) (t := t)
        (fun th => { th with error := .error, threadTimer := false }) m
      rw [waiters, waiters, hl, List.erase_cons_head] at this
      exact this
    obtain ⟨h1, h2⟩ := ih (hk.wake t (fun th => { th with error := .error, threadTimer := false })
      rfl) hl1
    rw [h1, h2]
    unfold prioOf
    by_cases e : u = t
    · rw [e, wake_self]; exact ⟨rfl, rfl⟩
    · rw [wake_of_ne e]; exact ⟨rfl, rfl⟩

/-- Detaching a mutex takes it from its owner. -/
theorem mutexDetach_free (hk : Linked k) (u : T) :
    ((k.mutexDetach m).thread u).takenObjectList = (k.thread u).takenObjectList.erase m ∧
      (k.mutexDetach m).prioOf u = k.prioOf u := by
  obtain ⟨h1, h2⟩ := resumeAll_free (m := m) hk u
  exact ⟨congrArg (·.erase m) h1, h2⟩

/-- The mutex goes to its first waiter, or is free. -/
theorem giveAway_free (hk : Linked k)
    (h : (∃ next rest, k.waiters m = next :: rest ∧ k' = k.mutexHandOver m next) ∨
      (k.waiters m = [] ∧ k' = k.setObject m fun x => { x with owner := none, priority := 0xff }))
    (u : T) : FreeAt k k' u ∧
      (u ∉ k.waiters m → (k'.thread u).takenObjectList = (k.thread u).takenObjectList) := by
  rcases h with ⟨next, rest, hwm, rfl⟩ | ⟨-, rfl⟩
  · have hn : next ∈ k.waiters m := hwm ▸ List.mem_cons_self
    unfold FreeAt prioOf
    by_cases e : u = next
    · subst e
      rw [handOver_thread_self hk hn]
      exact ⟨nofun, fun h => absurd hn h⟩
    · rw [handOver_thread_of_ne hk hn e]
      exact ⟨fun h => ⟨h, rfl⟩, fun _ => rfl⟩
  · exact ⟨FreeAt.setObject m _, fun _ => rfl⟩

/-- The kernel before the mutex goes on, in the last release. -/
def releasePrio (k : Kernel T O) (c : T) (m : O) : Kernel T O :=
  if k.recomputes c m then
    (k.releaseTaken m).threadChangePriority c ((k.releaseTaken m).threadGetMutexPriority c)
  else k.releaseTaken m

theorem mutexRelease_last (ho : (k.object m).owner = some c) (h0 : (k.object m).hold - 1 = 0) :
    (∃ next rest, (k.releasePrio c m).waiters m = next :: rest ∧
      (k.mutexRelease c m).2 = (k.releasePrio c m).mutexHandOver m next) ∨
    ((k.releasePrio c m).waiters m = [] ∧ (k.mutexRelease c m).2 =
      (k.releasePrio c m).setObject m fun x => { x with owner := none, priority := 0xff }) := by
  have hce : ((k.releaseTaken m).object m).ceilingPriority = (k.object m).ceilingPriority := by
    rw [releaseTaken, takenRemove, setObject_self]
  have hpm : ((k.releaseTaken m).object m).priority = (k.object m).priority := by
    rw [releaseTaken, takenRemove, setObject_self]
  have hk₂ : (if ((k.releaseTaken m).object m).ceilingPriority ≠ 0xff ∨
      (k.releaseTaken m).prioOf c = ((k.releaseTaken m).object m).priority then
      (k.releaseTaken m).threadChangePriority c ((k.releaseTaken m).threadGetMutexPriority c)
      else k.releaseTaken m) = k.releasePrio c m := by
    rw [hce, hpm]
    simp only [releasePrio, recomputes, decide_eq_true_eq]
    rfl
  unfold mutexRelease
  rw [if_neg (not_not.mpr ho)]
  dsimp only
  rw [setObject_self, if_pos (by exact h0)]
  unfold mutexReleaseLast
  dsimp only
  rw [← releaseTaken, hk₂]
  cases hw : (k.releasePrio c m).list (.suspend m) with
  | nil => exact .inr ⟨hw, rfl⟩
  | cons next rest => exact .inl ⟨next, rest, hw, rfl⟩

theorem releaseTaken_linked (hk : Linked k) (m : O) : Linked (k.releaseTaken m) :=
  (hk.setObject m fun x => { x with hold := x.hold - 1 }).congr _ rfl (fun _ => rfl) rfl

theorem releasePrio_linked (hk : Linked k) (c : T) (m : O) : Linked (k.releasePrio c m) := by
  unfold releasePrio
  split_ifs
  · exact (releaseTaken_linked hk m).changePriority c _
  · exact releaseTaken_linked hk m

theorem releasePrio_alike (hk : Linked k) (c : T) (m : O) :
    Alike (k.releaseTaken m) (k.releasePrio c m) := by
  unfold releasePrio
  split_ifs
  · exact changePriority_alike (releaseTaken_linked hk m) c _
  · exact .refl _

theorem releasePrio_prioOf (hk : Linked k) (c : T) (m : O) (u : T) :
    (k.releasePrio c m).prioOf u = if u = c ∧ k.recomputes c m = true then
      (k.releaseTaken m).threadGetMutexPriority c else k.prioOf u := by
  unfold releasePrio
  by_cases hr : k.recomputes c m = true
  · rw [if_pos hr, changePriority_prioOf (releaseTaken_linked hk m)]
    by_cases e : u = c
    · rw [if_pos e, if_pos ⟨e, hr⟩]
    · rw [if_neg e, if_neg fun h => e h.1]
      rfl
  · rw [if_neg hr, if_neg fun h => hr h.2]
    rfl

/-- **The last release.** The mutex leaves the list of the thread, and when that is empty, the thread
goes back to its initial priority or keeps the one it has. -/
theorem mutexReleaseLast_free (hk : Linked k) (hc : (k.thread c).stat = .running)
    (ho : (k.object m).owner = some c) (h0 : (k.object m).hold - 1 = 0) :
    ((k.mutexRelease c m).2.thread c).takenObjectList = (k.thread c).takenObjectList.erase m ∧
      (((k.mutexRelease c m).2.thread c).takenObjectList = [] → (k.mutexRelease c m).2.prioOf c =
        if k.recomputes c m then (k.thread c).initPriority else k.prioOf c) ∧
      ∀ u ≠ c, ((k.mutexRelease c m).2.thread u).takenObjectList = [] →
        (k.thread u).takenObjectList.erase m = [] ∧ (k.mutexRelease c m).2.prioOf u = k.prioOf u := by
  have hl := releasePrio_linked hk c m
  have ha := releasePrio_alike hk c m
  have hg := giveAway_free hl (mutexRelease_last ho h0)
  have hcw : c ∉ (k.releasePrio c m).waiters m := fun hm => by
    have := (ha.isSuspend c).mp (hl.suspend hm)
    change (k.thread c).stat.isSuspend = true at this
    rw [hc] at this
    cases this
  have htaken : ∀ u, ((k.releasePrio c m).thread u).takenObjectList =
      (k.thread u).takenObjectList.erase m := ha.taken
  have htc := ((hg c).2 hcw).trans (htaken c)
  refine ⟨htc, fun h => ?_, fun u huc h => ?_⟩
  · rw [((hg c).1 h).2, releasePrio_prioOf hk]
    rw [htc] at h
    by_cases hr : k.recomputes c m = true
    · rw [if_pos ⟨rfl, hr⟩, if_pos hr, threadGetMutexPriority_free h]
      rfl
    · rw [if_neg fun h => hr h.2, if_neg hr]
  · obtain ⟨h1, h2⟩ := (hg u).1 h
    rw [htaken] at h1
    rw [releasePrio_prioOf hk, if_neg fun h => huc h.1] at h2
    exact ⟨h1, h2⟩

/-- A release that is not the last. -/
theorem mutexRelease_free (h : ¬ ((k.object m).owner = some c ∧ (k.object m).hold - 1 = 0))
    (u : T) : FreeAt k (k.mutexRelease c m).2 u := by
  rcases mutexRelease_cases (k := k) (c := c) (m := m) (Prod.eta _).symm with ⟨-, -, h'⟩ |
    ⟨-, -, -, h'⟩ | ⟨h1, -, h2, -⟩
  · rw [h']
    exact FreeAt.setThread c (fun th => { th with error := .error }) fun _ => ⟨rfl, id⟩
  · rw [h']
    exact FreeAt.setObject m _
  · exact absurd ⟨h1, h2⟩ h

end Kernel

/-! ## The steps -/

theorem takeReturns_kernel (s : MutexState T O) (t : T) (m : O) (e : Err) :
    (s.takeReturns t m e).kernel = s.kernel := by
  unfold MutexState.takeReturns
  split_ifs <;> rfl

section
variable {s s' : MutexState T O} (h : MutexInv s)
include h

/-- Steps that let no thread give up its last mutex, and write no priority of a thread without. -/
def quiet : MutexLabel T O → Bool
  | .changePriority _ _ | .release _ | .detachMutex _ | .takeResume => false
  | _ => true

theorem MutexInv.take_free {timeout : ℤ}
    (hs : mutexStep fuel s (.take m timeout flag) = some s') (u : T) :
    FreeAt s.kernel s'.kernel u := by
  simp only [mutexStep] at hs
  split_ifs at hs with hm
  obtain ⟨c, hc, hs⟩ := Option.bind_eq_some_iff.mp hs
  obtain ⟨⟨r, k'⟩, hr, hs⟩ := Option.bind_eq_some_iff.mp hs
  obtain ⟨-, hrun, htc⟩ := MutexState.self_eq hc
  obtain ⟨k₀, hk₀⟩ : ∃ k₀, k₀ = s.kernel.setThread c fun th => { th with error := .eok } :=
    ⟨_, rfl⟩
  have hw0 : Wf k₀ s.taking := hk₀ ▸
    (Keeps.setSelf h.wf hrun htc (fun th => { th with error := .eok }) fun _ => ⟨rfl, rfl, rfl⟩).wf
  have h0 : FreeAt s.kernel k₀ u := hk₀ ▸
    FreeAt.setThread c (fun th => { th with error := .eok }) fun _ => ⟨rfl, id⟩
  have hrun₀ : (k₀.thread c).stat = .running := by rw [hk₀, setThread_self]; exact hrun
  have herr₀ : (k₀.thread c).error = .eok := by rw [hk₀, setThread_self]
  have hobj₀ : k₀.object = s.kernel.object := by rw [hk₀]; rfl
  have key : FreeAt s.kernel k' u := by
    rcases mutexTake_cases hr hk₀ with ⟨-, -, hk'⟩ | ⟨-, -, rfl⟩ | ⟨-, -, rfl⟩ |
      ⟨o, ho, hoc, ⟨-, rfl⟩ | ⟨-, hk'⟩⟩
    · exact h0.trans (FreeAt.mutexTakeFree hw0.linked hrun₀ hk')
    · exact h0.trans (FreeAt.setObject m _)
    · exact h0
    · exact h0.trans
        (FreeAt.setThread c (fun th => { th with error := .etimeout }) fun _ => ⟨rfl, id⟩)
    · exact h0.trans (FreeAt.mutexTakeWait hw0 hrun₀ htc (by rw [hobj₀]; exact hm)
        (by rw [hobj₀]; exact ho) hoc herr₀ hk')
  cases r with
  | ret e => cases hs; rw [takeReturns_kernel]; exact key
  | blocked => cases hs; exact key

/-- **The quiet steps.** -/
theorem MutexInv.quiet_free {a : MutexLabel T O} (ha : quiet a = true)
    (hs : mutexStep fuel s a = some s') (u : T) : FreeAt s.kernel s'.kernel u := by
  cases a with
  | start =>
    simp only [mutexStep] at hs
    split_ifs at hs
    obtain ⟨k', hk', rfl⟩ := Option.map_eq_some_iff.mp hs
    exact .dispatched (systemSchedulerStart_dispatched h.wf.linked hk')
  | schedule =>
    obtain ⟨k', hk', rfl⟩ := Option.map_eq_some_iff.mp hs
    exact .dispatched (rtSchedule_dispatched h.wf.linked hk')
  | yield =>
    obtain ⟨c, -, rfl⟩ := Option.map_eq_some_iff.mp hs
    exact .dispatched (threadYield_dispatched h.wf.linked c)
  | startup t =>
    simp only [mutexStep] at hs
    split_ifs at hs
    cases hs
    exact FreeAt.setThread t (fun th => { th with numberMask := priorityMask th.currentPriority,
                                                  stat := .suspend .interruptible,
                                                  yieldFlag := false }) fun _ => ⟨rfl, id⟩
  | resume t => cases hs; exact .refl _ u
  | proceed a =>
    simp only [mutexStep] at hs
    split_ifs at hs
    cases hs
    exact FreeAt.proceed a
  | suspend flag =>
    obtain ⟨c, hc, rfl⟩ := Option.map_eq_some_iff.mp hs
    rw [threadSuspend_eq (MutexState.self_eq hc).2.1]
    exact .suspendSelf c flag
  | sleep =>
    obtain ⟨c, hc, rfl⟩ := Option.map_eq_some_iff.mp hs
    exact .threadSleep (MutexState.self_eq hc).2.1
  | timeout t =>
    simp only [mutexStep] at hs
    split_ifs at hs
    cases hs
    exact .wake t (fun th => { th with error := .etimeout, threadTimer := false })
      fun _ => ⟨rfl, id⟩
  | changePriority t p => cases ha
  | take m timeout flag => exact h.take_free hs u
  | takeResume => cases ha
  | release m => cases ha
  | setprioceiling m p =>
    simp only [mutexStep] at hs
    split_ifs at hs with hm
    obtain ⟨k', hk', rfl⟩ := Option.map_eq_some_iff.mp hs
    exact .mutexSetprioceiling h.wf hm hk'
  | detachMutex m => cases ha
  | detachThread t =>
    obtain ⟨k', hk', rfl⟩ := Option.map_eq_some_iff.mp hs
    exact FreeAt.threadDetach h.wf hk'
  | ipcWait o timeout flag =>
    simp only [mutexStep] at hs
    split_ifs at hs
    obtain ⟨c, hc, rfl⟩ := Option.map_eq_some_iff.mp hs
    exact .ipcWait (MutexState.self_eq hc).2.1 o timeout flag
  | ipcWake o =>
    simp only [mutexStep] at hs
    split_ifs at hs
    obtain ⟨k', hk', rfl⟩ := Option.map_eq_some_iff.mp hs
    unfold ipcListResume at hk'
    split at hk'
    · cases hk'
    · next t l hl =>
      cases hk'
      have ht : t ∈ s.kernel.waiters o := by rw [waiters, hl]; exact List.mem_cons_self
      rw [ipcResumeThread_eq (h.wf.linked.suspend ht)]
      exact .wake t (fun th => { th with error := .eok, threadTimer := false }) fun _ => ⟨rfl, id⟩
  | eventWake o t =>
    simp only [mutexStep] at hs
    split_ifs at hs with he
    cases hs
    rw [ipcResumeThread_eq (h.wf.linked.suspend he.2)]
    exact .wake t (fun th => { th with error := .eok, threadTimer := false }) fun _ => ⟨rfl, id⟩

/-- **The clean-up in `_rt_mutex_take`.** -/
theorem MutexInv.takeResume_free (hs : mutexStep fuel s .takeResume = some s') :
    ∃ c m, s.kernel.currentThread = some c ∧ s.taking c = some m ∧
      ∀ u, (s'.kernel.thread u).takenObjectList = (s.kernel.thread u).takenObjectList ∧
        ((s.kernel.thread u).takenObjectList = [] → s'.kernel.prioOf u =
          if (s.kernel.thread c).error ≠ .eok ∧ (s.kernel.object m).owner = some u ∧
            s.kernel.prioOf u = s.kernel.prioOf c then (s.kernel.thread u).initPriority
          else s.kernel.prioOf u) := by
  obtain ⟨c, hc, hs⟩ := Option.bind_eq_some_iff.mp hs
  obtain ⟨m, htc, hs⟩ := Option.bind_eq_some_iff.mp hs
  split_ifs at hs with hrun
  obtain ⟨⟨e, k'⟩, hr, rfl⟩ := Option.map_eq_some_iff.mp hs
  refine ⟨c, m, hc, htc, fun u => ?_⟩
  have key : (k'.thread u).takenObjectList = (s.kernel.thread u).takenObjectList ∧
      ((s.kernel.thread u).takenObjectList = [] → k'.prioOf u =
        if (s.kernel.thread c).error ≠ .eok ∧ (s.kernel.object m).owner = some u ∧
          s.kernel.prioOf u = s.kernel.prioOf c then (s.kernel.thread u).initPriority
        else s.kernel.prioOf u) := by
    rcases mutexTakeResume_cases hr with ⟨he, -, rfl⟩ | ⟨he, k₁, hk₁, rfl, -⟩
    · exact ⟨rfl, fun _ => by rw [if_neg fun h => h.1 he]⟩
    · have ha := (mutexWaiterLeft_alike h.wf.linked h.wf.pendingLinked hk₁).2
      have h1 : ((k₁.setThread c fun th => { th with pendingObject := none }).thread
          u).takenObjectList = (k₁.thread u).takenObjectList ∧
          (k₁.setThread c fun th => { th with pendingObject := none }).prioOf u = k₁.prioOf u := by
        unfold prioOf
        rw [setThread_apply]
        split_ifs with e
        · rw [e]; exact ⟨rfl, rfl⟩
        · exact ⟨rfl, rfl⟩
      refine ⟨h1.1.trans (ha.taken u), fun hu => ?_⟩
      rw [h1.2, waiterLeft_free h.wf.linked h.wf.pendingLinked h.wf.ownerTaken hk₁ hu]
      simp only [he, ne_eq, not_false_eq_true, true_and]
  rw [takeReturns_kernel]
  exact key

end

/-! ## The user's priorities -/

/-- A step that keeps the priorities of the threads without mutexes. -/
theorem UserOk.free {s : UserState T O} (hu : UserOk s) {k' : MutexState T O}
    (hf : ∀ u, FreeAt s.state.kernel k'.kernel u) : UserOk { state := k', user := s.user } := by
  intro t p hp ht
  obtain ⟨h1, h2⟩ := hf t ht
  exact h2.trans (hu t p hp h1)

section
variable {s s' : UserState T O} (h : MutexInv s.state) (hu : UserOk s)
include h hu

theorem UserOk.release {m : O} (hs : userStep fuel s (.release m) = some s') :
    UserOk s' ↔ restoreOk s (.release m) = true := by
  obtain ⟨k', hk', rfl⟩ := Option.map_eq_some_iff.mp hs
  simp only [mutexStep] at hk'
  split_ifs at hk' with hm
  obtain ⟨c, hc, hk'⟩ := Option.map_eq_some_iff.mp hk'
  have hker : k'.kernel = (s.state.kernel.mutexRelease c m).2 := by
    rw [← hk']
    split_ifs <;> rfl
  obtain ⟨-, hrun, -⟩ := MutexState.self_eq hc
  simp only [restoreOk, hc, Option.all_some]
  by_cases hlast : (s.state.kernel.object m).owner = some c ∧ (s.state.kernel.object m).hold - 1 = 0
  · obtain ⟨ho, h0⟩ := hlast
    obtain ⟨h1, h2, h3⟩ := mutexReleaseLast_free h.wf.linked hrun ho h0
    rw [← hker] at h1 h2 h3
    have hmc : m ∈ (s.state.kernel.thread c).takenObjectList := (h.wf.owned c m).mpr ⟨ho, hm⟩
    have hother : ∀ u ≠ c, m ∉ (s.state.kernel.thread u).takenObjectList := fun u huc hmu =>
      huc (Option.some.inj (((h.wf.owned u m).mp hmu).1.symm.trans ho))
    simp only [ho, h0, ne_eq, not_true_eq_false, decide_false, Bool.false_or, Bool.or_eq_true,
      decide_not, Bool.not_eq_true', decide_eq_false_iff_not]
    constructor
    · intro hok
      refine or_iff_not_imp_left.mpr fun htk => ?_
      rw [not_not] at htk
      have hfree : (k'.kernel.thread c).takenObjectList = [] := by
        rw [h1, htk, List.erase_cons_head]
      cases hp : s.user c with
      | none => rfl
      | some p =>
        have := hok c p hp hfree
        change k'.kernel.prioOf c = p at this
        rw [h2 hfree] at this
        exact decide_eq_true this
    · intro hok t p hp ht
      by_cases e : t = c
      · subst e
        have htk : (s.state.kernel.thread t).takenObjectList = [m] := by
          have h4 : (s.state.kernel.thread t).takenObjectList.erase m = [] := h1 ▸ ht
          rcases List.erase_eq_nil_iff.mp h4 with h5 | h5
          · rw [h5] at hmc; cases hmc
          · exact h5
        have hp' : s.user t = some p := hp
        have := hok.resolve_left (not_not.mpr htk)
        rw [hp'] at this
        exact (h2 ht).trans (of_decide_eq_true this)
      · obtain ⟨h4, h5⟩ := h3 t e ht
        rw [List.erase_of_not_mem (hother t e)] at h4
        exact h5.trans (hu t p hp h4)
  · have hok : UserOk { state := k', user := s.user } :=
      hu.free fun u => by rw [hker]; exact mutexRelease_free hlast u
    refine iff_of_true hok ?_
    rcases not_and_or.mp hlast with h1 | h1
    · simp [h1]
    · simp [h1]

theorem UserOk.detachMutex {m : O} (hs : userStep fuel s (.detachMutex m) = some s') :
    UserOk s' ↔ restoreOk s (.detachMutex m) = true := by
  obtain ⟨k', hk', rfl⟩ := Option.map_eq_some_iff.mp hs
  simp only [mutexStep] at hk'
  split_ifs at hk' with hm
  cases hk'
  have hfree := fun u => mutexDetach_free (m := m) h.wf.linked u
  constructor
  · intro hok
    simp only [restoreOk]
    cases ho : (s.state.kernel.object m).owner with
    | none => rfl
    | some c =>
      rw [Option.all_some, Bool.or_eq_true]
      refine or_iff_not_imp_left.mpr fun htk => ?_
      rw [decide_eq_true_eq, not_not] at htk
      cases hp : s.user c with
      | none => rfl
      | some p =>
        have := hok c p hp ((hfree c).1.trans (by rw [htk, List.erase_cons_head]))
        exact decide_eq_true ((hfree c).2.symm.trans this)
  · intro hok t p hp ht
    have h4 : (s.state.kernel.thread t).takenObjectList.erase m = [] := (hfree t).1.symm.trans ht
    refine (hfree t).2.trans ?_
    rcases List.erase_eq_nil_iff.mp h4 with h5 | h5
    · exact hu t p hp h5
    · have ho := ((h.wf.owned t m).mp (by rw [h5]; exact List.mem_cons_self)).1
      have hp' : s.user t = some p := hp
      simp only [restoreOk, ho, h5, hp', Option.all_some] at hok
      simpa using hok

theorem UserOk.takeResume (hs : userStep fuel s .takeResume = some s') :
    UserOk s' ↔ restoreOk s .takeResume = true := by
  obtain ⟨k', hk', rfl⟩ := Option.map_eq_some_iff.mp hs
  obtain ⟨c, m, hc, htc, hfree⟩ := h.takeResume_free hk'
  simp only [restoreOk, hc, htc, Option.all_some]
  constructor
  · intro hok
    rw [Bool.or_eq_true]
    refine or_iff_not_imp_left.mpr fun he => ?_
    rw [decide_eq_true_eq] at he
    cases ho : (s.state.kernel.object m).owner with
    | none => rfl
    | some o =>
      rw [Option.all_some, Bool.or_eq_true]
      refine or_iff_not_imp_left.mpr fun hcond => ?_
      simp only [Bool.or_eq_true, decide_eq_true_eq, not_or, ne_eq, not_not] at hcond
      cases hp : s.user o with
      | none => rfl
      | some p =>
        have := hok o p hp ((hfree o).1.trans hcond.1)
        change k'.kernel.prioOf o = p at this
        rw [(hfree o).2 hcond.1, if_pos ⟨he, ho, hcond.2⟩] at this
        exact decide_eq_true this
  · intro hok t p hp ht
    have ht' : (s.state.kernel.thread t).takenObjectList = [] := (hfree t).1.symm.trans ht
    have hp' : s.user t = some p := hp
    refine ((hfree t).2 ht').trans ?_
    split_ifs with hcond
    · obtain ⟨he, ho, hpr⟩ := hcond
      simpa [he, ho, ht', hpr, hp'] using hok
    · exact hu t p hp ht'

/-- **A step keeps the user's priorities exactly when it restores them.** -/
theorem UserOk.step {a : MutexLabel T O} (hs : userStep fuel s a = some s') :
    UserOk s' ↔ restoreOk s a = true := by
  have hquiet : ∀ {a : MutexLabel T O}, quiet a = true → userStep fuel s a = some s' →
      UserOk s' := by
    intro a ha hs
    obtain ⟨k', hk', rfl⟩ := Option.map_eq_some_iff.mp hs
    have hrec : s.record a = s.user := by
      cases a <;> first | rfl | cases ha
    rw [hrec]
    exact hu.free (h.quiet_free ha hk')
  cases a with
  | changePriority t p =>
    refine iff_of_true ?_ rfl
    obtain ⟨k', hk', rfl⟩ := Option.map_eq_some_iff.mp hs
    cases hk'
    intro u q hq hfree
    change Function.update s.user t _ u = some q at hq
    change ((s.state.kernel.threadChangePriority t p).thread u).takenObjectList = [] at hfree
    rw [(changePriority_alike h.wf.linked t p).taken] at hfree
    change (s.state.kernel.threadChangePriority t p).prioOf u = q
    rw [changePriority_prioOf h.wf.linked]
    by_cases e : u = t
    · subst e
      rw [Function.update_self, if_pos hfree] at hq
      rw [if_pos rfl]
      exact Option.some.inj hq
    · rw [Function.update_of_ne e] at hq
      rw [if_neg e]
      exact hu u q hq hfree
  | release m => exact hu.release h hs
  | detachMutex m => exact hu.detachMutex h hs
  | takeResume => exact hu.takeResume h hs
  | _ => exact iff_of_true (hquiet rfl hs) rfl

end

theorem UserInit.ok {s : UserState T O} (h : UserInit s) : UserOk s := fun t p hp => by
  rw [h.user] at hp
  cases hp

theorem userStep_inv {s s' : UserState T O} {a : MutexLabel T O} (h : MutexInv s.state)
    (hok : resumeOk s.state a = true) (hs : userStep fuel s a = some s') : MutexInv s'.state := by
  obtain ⟨k', hk', rfl⟩ := Option.map_eq_some_iff.mp hs
  exact mutexStep_inv h hok hk'

/-- **The priority that the user sets survives the use of mutexes** in every run whose steps restore
it, and a step keeps it exactly when it restores it. -/
theorem user_priority {s : UserState T O} (hs : (userSystem T O fuel).Reach userOk s) :
    UserOk s ∧ ∀ a s', userStep fuel s a = some s' → (UserOk s' ↔ restoreOk s a = true) := by
  obtain ⟨h, hu⟩ : MutexInv s.state ∧ UserOk s :=
    hs.invariant (I := fun s => MutexInv s.state ∧ UserOk s)
      (fun _ (h : UserInit _) => ⟨h.state.inv, h.ok⟩) fun s a s' h hok hst =>
        ⟨userStep_inv h.1 (Bool.and_eq_true_iff.mp hok).1 hst,
          (h.2.step h.1 hst).mpr (Bool.and_eq_true_iff.mp hok).2⟩
  exact ⟨hu, fun a s' hst => hu.step h hst⟩

/-! ## A boosted thread -/

/-- The two threads of `oneMutex`; the user has set no priority yet. -/
def userMutex : UserState (Fin 2) Unit := { state := oneMutex, user := fun _ => none }

theorem userMutex_init : UserInit userMutex := ⟨oneMutex_init, fun _ => rfl⟩

/-- Without contention the priority survives. -/
theorem user_priority_uncontended : ∃ s, (userSystem (Fin 2) Unit 4).Reach userOk s ∧
    s.user 0 = some 7 ∧ (s.state.kernel.thread 0).takenObjectList = [] ∧
    s.state.kernel.prioOf 0 = 7 := by
  obtain ⟨s, hs, hp⟩ := System.exists_reach (userSystem (Fin 2) Unit 4) userOk
    (fun s => s.user 0 = some 7 ∧ (s.state.kernel.thread 0).takenObjectList = [])
    userMutex_init ([.startup 0] ++ resumeTrace 0 ++ [.start, .changePriority 0 7,
      .take () (-1) .uninterruptible, .release ()]) (by decide)
  obtain ⟨hu, ht⟩ := of_decide_eq_true hp
  exact ⟨s, hs, hu, ht, (user_priority hs).1 0 7 hu ht⟩

/-- **A thread that was raised is put back to its initial priority**, not to the user's. -/
theorem user_priority_lost : ∃ s, (userSystem (Fin 2) Unit 4).Reach
    (fun s => resumeOk s.state) s ∧ ¬ UserOk s := by
  obtain ⟨s, hs, hp⟩ := System.exists_reach (userSystem (Fin 2) Unit 4)
    (fun s => resumeOk s.state)
    (fun s => s.user 0 = some 7 ∧ (s.state.kernel.thread 0).takenObjectList = [] ∧
      s.state.kernel.prioOf 0 = 10) userMutex_init
    ([.startup 0] ++ resumeTrace 0 ++ [.start, .changePriority 0 7,
      .take () (-1) .uninterruptible, .startup 1] ++ resumeTrace 1 ++
      [.schedule, .take () (-1) .uninterruptible, .schedule, .release ()]) (by decide)
  obtain ⟨hu, ht, hpr⟩ := of_decide_eq_true hp
  refine ⟨s, hs, fun h => ?_⟩
  have := h 0 7 hu ht
  rw [hpr] at this
  exact absurd this (by decide)

end RtThread
