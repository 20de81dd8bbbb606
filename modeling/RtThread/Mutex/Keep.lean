import RtThread.Mutex.Cases
import RtThread.Mutex.Dispatch
import RtThread.Mutex.Wf

/-!
# Every function keeps the structural invariant

* `Parked`: a thread between the last two sections of an `rt_thread_resume`;
* `Keeps`: a step keeps `Wf`, and parked threads parked;
* one lemma for each function of `ipc.c`, `thread.c` and `scheduler_up.c`.
-/

set_option linter.unusedSectionVars false

namespace RtThread

open Kernel

variable {T O : Type} [DecidableEq T] [DecidableEq O] {k k' k'' : Kernel T O}
  {taking taking' taking'' : T → Option O} {t c : T} {m o : O}

/-- A suspended thread that hangs on no suspend list and has no timer. -/
structure Parked (k : Kernel T O) (taking : T → Option O) (t : T) : Prop where
  suspended : (k.thread t).stat.isSuspend = true
  free : ∀ o, t ∉ k.waiters o
  outside : taking t = none
  timer : (k.thread t).threadTimer = false

theorem Parked.unlinked (h : Parked k taking t) (hk : Linked k) : Unlinked k t := fun hd hm => by
  have hs := h.suspended
  cases hd with
  | ready p => rw [hk.ready hm] at hs; cases hs
  | suspend o => exact h.free o hm
  | defunct => rw [hk.defunct hm] at hs; cases hs

/-- The owner of a mutex and how often it has taken the mutex. -/
def ownership (k : Kernel T O) (m : O) : Option T × ℕ := ((k.object m).owner, (k.object m).hold)

/-- The structural invariant holds afterwards, parked threads stay parked, closed ones closed, and
no mutex changes hands. -/
structure Keeps (k : Kernel T O) (taking : T → Option O) (k' : Kernel T O)
    (taking' : T → Option O) : Prop where
  wf : Wf k' taking'
  parked : ∀ u, Parked k taking u → Parked k' taking' u
  closed : ∀ u, (k.thread u).stat = .close → (k'.thread u).stat = .close
  holds : ∀ x, ownership k' x = ownership k x

/-- As `Keeps`, but `m` gets a new owner and count. -/
structure Moves (k : Kernel T O) (taking : T → Option O) (k' : Kernel T O) (taking' : T → Option O)
    (m : O) (a : Option T × ℕ) : Prop where
  wf : Wf k' taking'
  parked : ∀ u, Parked k taking u → Parked k' taking' u
  closed : ∀ u, (k.thread u).stat = .close → (k'.thread u).stat = .close
  holds : ∀ x, ownership k' x = if x = m then a else ownership k x

/-- As `Keeps`, but `t` leaves `_rt_mutex_take` or is closed. -/
structure Ends (k : Kernel T O) (taking : T → Option O) (k' : Kernel T O) (t : T) : Prop where
  wf : Wf k' (Function.update taking t none)
  parked : ∀ u ≠ t, Parked k taking u → Parked k' (Function.update taking t none) u
  closed : ∀ u, (k.thread u).stat = .close → (k'.thread u).stat = .close
  holds : ∀ x, ownership k' x = ownership k x

/-- A thread that starts to wait for a mutex. -/
theorem Wf.waitFor (h : Wf k taking) (hc : (k.thread c).stat = .running) (htc : taking c = none)
    (hm : (k.object m).type = .mutex) (hce : (k.thread c).error = .eok)
    (ho : (k.object m).owner = some t) (htc' : t ≠ c) (flag : SuspendFlag) :
    Wf (k.waitFor c m flag) (Function.update taking c (some m)) := by
  refine h.block htc hm ho htc' _ ((h.linked.suspendOn m c flag).setThread c _ rfl) rfl
    (fun u hu => ?_) ?_ ?_ ?_ ?_ fun x u => mem_suspendOn_waiters h.linked hc
  · simp [Kernel.waitFor, suspendOn_thread, hu]
  · simp [Kernel.waitFor, suspendOn_thread]
  · simp [Kernel.waitFor]
  · simp [Kernel.waitFor, suspendOn_thread, Stat.isSuspend]
  · simpa [Kernel.waitFor, suspendOn_thread] using hce

namespace Keeps

theorem refl (h : Wf k taking) : Keeps k taking k taking :=
  ⟨h, fun _ h => h, fun _ h => h, fun _ => rfl⟩

theorem trans (h : Keeps k taking k' taking') (h' : Keeps k' taking' k'' taking'') :
    Keeps k taking k'' taking'' :=
  ⟨h'.wf, fun u hu => h'.parked u (h.parked u hu), fun u hu => h'.closed u (h.closed u hu),
    fun x => (h'.holds x).trans (h.holds x)⟩

theorem moves {a : Option T × ℕ} (h : Keeps k taking k' taking')
    (h' : Moves k' taking' k'' taking'' m a) : Moves k taking k'' taking'' m a :=
  ⟨h'.wf, fun u hu => h'.parked u (h.parked u hu), fun u hu => h'.closed u (h.closed u hu),
    fun x => by rw [h'.holds, h.holds]⟩

theorem ends (h : Keeps k taking k' taking) (h' : Ends k' taking k'' t) : Ends k taking k'' t :=
  ⟨h'.wf, fun u hut hu => h'.parked u hut (h.parked u hu), fun u hu => h'.closed u (h.closed u hu),
    fun x => (h'.holds x).trans (h.holds x)⟩

theorem ends_trans (h : Ends k taking k' t)
    (h' : Keeps k' (Function.update taking t none) k'' (Function.update taking t none)) :
    Ends k taking k'' t :=
  ⟨h'.wf, fun u hut hu => h'.parked u (h.parked u hut hu),
    fun u hu => h'.closed u (h.closed u hu), fun x => (h'.holds x).trans (h.holds x)⟩

theorem alike (h : Wf k taking) (hl : Linked k') (ha : Alike k k') : Keeps k taking k' taking where
  wf := h.alike hl ha
  parked u hu := ⟨(ha.isSuspend u).mpr hu.suspended, fun o ho => hu.free o ((ha.waiters o u).mp ho),
    hu.outside, (ha.timer u).trans hu.timer⟩
  closed u hu := by rw [Stat.close_iff, ha.phase, ← Stat.close_iff]; exact hu
  holds x := Prod.ext (ha.owner x) (ha.hold x)

theorem dispatched (h : Wf k taking) (hd : Dispatched k k') : Keeps k taking k' taking :=
  alike h hd.linked hd.alike

/-- **Steps of one thread** that is outside `_rt_mutex_take`, not parked, and touches no mutex. -/
theorem single (h : Wf k taking) (ht : taking t = none) (hnp : ¬ Parked k taking t)
    (hnc : (k.thread t).stat ≠ .close) (k' : Kernel T O) (hl : Linked k')
    (hobj : k'.object = k.object)
    (hth : ∀ u ≠ t, k'.thread u = k.thread u)
    (hfix : (k'.thread t).takenObjectList = (k.thread t).takenObjectList ∧
      (k'.thread t).pendingObject = (k.thread t).pendingObject)
    (hw : ∀ o u, u ≠ t → (u ∈ k'.waiters o ↔ u ∈ k.waiters o))
    (hwm : ∀ m, (k.object m).type = .mutex → t ∉ k'.waiters m) : Keeps k taking k' taking := by
  constructor
  · refine h.congr k' hl (fun _ => by rw [hobj]; exact ⟨rfl, rfl, rfl⟩) (fun u => ?_)
      (fun m hm u => ?_) fun u m hu => ?_
    · by_cases hut : u = t
      · subst hut; exact hfix
      · rw [hth u hut]; exact ⟨rfl, rfl⟩
    · by_cases hut : u = t
      · subst hut
        refine ⟨fun h' => absurd h' (hwm m hm), fun h' => ?_⟩
        have := (h.waiting u m hm h').2
        rw [ht] at this
        cases this
      · exact hw m u hut
    · have hut : u ≠ t := fun e => by rw [e, ht] at hu; cases hu
      rw [hth u hut]; exact ⟨rfl, rfl⟩
  · intro u hu
    have hut : u ≠ t := fun e => hnp (e ▸ hu)
    refine ⟨by rw [hth u hut]; exact hu.suspended, fun o ho => hu.free o ((hw o u hut).mp ho),
      hu.outside, by rw [hth u hut]; exact hu.timer⟩
  · intro u hu
    have hut : u ≠ t := fun e => hnc (e ▸ hu)
    rw [hth u hut]; exact hu
  · intro x
    rw [ownership, hobj]; rfl

/-- A thread outside `_rt_mutex_take` waits for no mutex. -/
theorem not_mem_of_outside (h : Wf k taking) (ht : taking t = none)
    (hm : (k.object m).type = .mutex) : t ∉ k.waiters m := fun hw => by
  have := (h.waiting t m hm hw).2
  rw [ht] at this
  cases this

theorem not_parked_of_running (hc : (k.thread c).stat = .running) : ¬ Parked k taking c := fun h => by
  have := h.suspended
  rw [hc] at this
  cases this

theorem not_close_of_running (hc : (k.thread c).stat = .running) : (k.thread c).stat ≠ .close := by
  rw [hc]; simp

/-- Writes of the running thread to itself. -/
theorem setSelf (h : Wf k taking) (hc : (k.thread c).stat = .running) (htc : taking c = none)
    (f : Thread O → Thread O)
    (hf : ∀ th, (f th).stat = th.stat ∧ (f th).takenObjectList = th.takenObjectList ∧
      (f th).pendingObject = th.pendingObject) :
    Keeps k taking (k.setThread c f) taking := by
  refine single h htc (not_parked_of_running hc) (not_close_of_running hc) (k.setThread c f)
    (h.linked.setThread c f (hf _).1) rfl (fun u hu => setThread_of_ne _ hu f)
    ?_ (fun _ _ _ => Iff.rfl) fun m hm => (not_mem_of_outside h htc hm :)
  rw [setThread_self]; exact (hf _).2

/-- Writes to the priorities of an object. -/
theorem setObject (h : Wf k taking) (m : O) (f : IpcObject T → IpcObject T)
    (hf : ∀ x, (f x).type = x.type ∧ (f x).flag = x.flag ∧ (f x).owner = x.owner)
    (hh : ∀ x, (f x).hold = x.hold) :
    Keeps k taking (k.setObject m f) taking := by
  refine ⟨h.setObject m f hf, fun _ hu => ⟨hu.suspended, hu.free, hu.outside, hu.timer⟩,
    fun _ hu => hu, fun x => ?_⟩
  by_cases hx : x = m
  · subst hx; rw [ownership, setObject_self]; exact Prod.ext (hf _).2.2 (hh _)
  · rw [ownership, setObject_of_ne _ hx]; rfl

/-- **A wake-up.** -/
theorem wake (h : Wf k taking) (hs : (k.thread t).stat.isSuspend = true)
    (hnp : ¬ Parked k taking t) (f : Thread O → Thread O)
    (he : taking t = none ∨ (f (k.thread t)).error ≠ .eok)
    (hf : ∀ th, (f th).stat = th.stat ∧ (f th).takenObjectList = th.takenObjectList ∧
      (f th).pendingObject = th.pendingObject) :
    Keeps k taking (k.wake t f) taking := by
  refine ⟨h.wake hs f he hf, fun u hu => ?_, fun u hu => ?_, fun x => by
    rw [ownership, wake_object]; rfl⟩
  · have hut : u ≠ t := fun e => hnp (e ▸ hu)
    refine ⟨by rw [wake_of_ne hut]; exact hu.suspended, fun o ho => ?_, hu.outside,
      by rw [wake_of_ne hut]; exact hu.timer⟩
    rw [wake_waiters] at ho
    exact hu.free o (List.mem_of_mem_erase ho)
  · have hut : u ≠ t := fun e => by rw [← e, hu] at hs; cases hs
    rw [wake_of_ne hut]; exact hu

/-! ## `thread.c` -/

theorem threadTimeout (h : Wf k taking) (hs : (k.thread t).stat.isSuspend = true)
    (ht : (k.thread t).threadTimer = true) : Keeps k taking (k.threadTimeout t) taking := by
  rw [threadTimeout_eq]
  refine wake h hs (fun hp => ?_) _ (.inr (by simp)) fun _ => ⟨rfl, rfl, rfl⟩
  have := hp.timer
  rw [ht] at this
  cases this

theorem startupStore (h : Wf k taking) (hi : (k.thread t).stat = .init) :
    Keeps k taking (k.threadStartupStore t) taking := by
  have ht : taking t = none := by
    cases htk : taking t with
    | none => rfl
    | some m => exact absurd hi (h.alive t m htk).2
  refine single h ht (fun hp => ?_) (by rw [hi]; simp) (k.threadStartupStore t) ?_ rfl
    (fun u hu => setThread_of_ne _ hu _) ?_ (fun _ _ _ => Iff.rfl)
    fun m hm => (not_mem_of_outside h ht hm :)
  · have := hp.suspended
    rw [hi] at this
    cases this
  · exact h.linked.write (h.linked.unlinked (.inr hi)) _ fun _ => by simp
  · rw [threadStartupStore, setThread_self]; exact ⟨rfl, rfl⟩

/-- The unlinking section of `rt_thread_resume` parks the thread. -/
theorem resumeUnlink (h : Wf k taking) (hs : (k.thread t).stat.isSuspend = true)
    (ht : taking t = none) :
    Keeps k taking (k.threadResumeUnlink t) taking ∧ Parked (k.threadResumeUnlink t) taking t := by
  have hp : Parked (k.threadResumeUnlink t) taking t := by
    refine ⟨?_, fun o => (h.linked.unlinked_listRemove t) (.suspend o), ht, ?_⟩
    · rw [threadResumeUnlink, setThread_self]; exact hs
    · rw [threadResumeUnlink, setThread_self]
  have hmem : ∀ o u, u ≠ t → (u ∈ (k.threadResumeUnlink t).waiters o ↔ u ∈ k.waiters o) :=
    fun o u hu => List.mem_erase_of_ne hu
  have hl : Linked (k.threadResumeUnlink t) := (h.linked.unlink t).setThread t _ rfl
  have hth : ∀ u ≠ t, (k.threadResumeUnlink t).thread u = k.thread u := fun u hu =>
    setThread_of_ne _ hu _
  refine ⟨⟨h.congr _ hl (fun _ => ⟨rfl, rfl, rfl⟩) (fun u => ?_) (fun m hm u => ?_)
    fun u m hu => ?_, fun u hu => ?_, fun u hu => ?_, fun _ => rfl⟩, hp⟩
  · by_cases hut : u = t
    · subst hut; rw [threadResumeUnlink, setThread_self]; exact ⟨rfl, rfl⟩
    · rw [hth u hut]; exact ⟨rfl, rfl⟩
  · by_cases hut : u = t
    · subst hut
      exact ⟨fun h' => absurd h' (hp.free m), fun h' => absurd h' (not_mem_of_outside h ht hm)⟩
    · exact hmem m u hut
  · have hut : u ≠ t := fun e => by rw [e, ht] at hu; cases hu
    rw [hth u hut]; exact ⟨rfl, rfl⟩
  · by_cases hut : u = t
    · subst hut; exact hp
    · exact ⟨by rw [hth u hut]; exact hu.suspended, fun o ho => hu.free o ((hmem o u hut).mp ho),
        hu.outside, by rw [hth u hut]; exact hu.timer⟩
  · have hut : u ≠ t := fun e => by rw [← e, hu] at hs; cases hs
    rw [hth u hut]; exact hu

/-- The insertion of a parked thread. -/
theorem resumeInsert (h : Wf k taking) (hp : Parked k taking t) :
    Wf (k.scheduleInsertThread t) taking ∧
      (∀ u ≠ t, Parked k taking u → Parked (k.scheduleInsertThread t) taking u) ∧
      ∀ u, (k.thread u).stat = .close → ((k.scheduleInsertThread t).thread u).stat = .close := by
  have hth : ∀ u ≠ t, (k.scheduleInsertThread t).thread u = k.thread u := fun u hu => by
    simp [hu]
  refine ⟨h.congr _ (h.linked.insert (hp.unlinked h.linked)) (fun o => ?_) (fun u => ?_)
    (fun m _ u => ?_) fun u m hu => ?_, fun u hut hu => ?_, fun u hu => ?_⟩
  · rw [scheduleInsertThread_object]; exact ⟨rfl, rfl, rfl⟩
  · by_cases hut : u = t
    · subst hut; simp
    · rw [hth u hut]; exact ⟨rfl, rfl⟩
  · rw [scheduleInsertThread_waiters]
  · have hut : u ≠ t := fun e => by rw [e, hp.outside] at hu; cases hu
    rw [hth u hut]; exact ⟨rfl, rfl⟩
  · refine ⟨by rw [hth u hut]; exact hu.suspended, fun o ho => ?_, hu.outside,
      by rw [hth u hut]; exact hu.timer⟩
    rw [scheduleInsertThread_waiters] at ho
    exact hu.free o ho
  · have hut : u ≠ t := fun e => by
      have := hp.suspended
      rw [← e, hu] at this
      cases this
    rw [hth u hut]; exact hu

section
variable (h : Wf k taking) (hc : (k.thread c).stat = .running) (htc : taking c = none)
include h hc htc

theorem suspendSelf (flag : SuspendFlag) : Keeps k taking (k.suspendSelf c flag) taking := by
  refine single h htc (not_parked_of_running hc) (not_close_of_running hc) _ (h.linked.suspendSelf c flag)
    rfl (fun u hu => setThread_of_ne _ hu _) ?_ (fun o u _ => ?_)
    fun m hm => ?_
  · rw [Kernel.suspendSelf, setThread_self]; exact ⟨rfl, rfl⟩
  · rw [suspendSelf_waiters h.linked hc]
  · rw [suspendSelf_waiters h.linked hc]; exact not_mem_of_outside h htc hm

theorem threadSleep : Keeps k taking (k.threadSleep c).2 taking := by
  have h1 := setSelf h hc htc (fun th => { th with error := .eok }) fun _ => ⟨rfl, rfl, rfl⟩
  have hc1 : ((k.setThread c fun th => { th with error := .eok }).thread c).stat = .running := by
    rw [setThread_self]; exact hc
  have h2 := suspendSelf h1.wf hc1 htc .interruptible
  have hw := suspendSelf_waiters h1.wf.linked hc1 .interruptible
  unfold Kernel.threadSleep
  rw [threadSuspend_eq hc1]
  dsimp only
  refine single h htc (not_parked_of_running hc) (not_close_of_running hc) _
    (h2.wf.linked.setThread c (fun th => { th with threadTimer := true, error := .eintr }) rfl) rfl
    (fun u hu => ?_) ?_ (fun o u _ => ?_) fun m hm => ?_
  · simp [Kernel.suspendSelf, hu]
  · simp [Kernel.suspendSelf]
  · exact Iff.of_eq (congrArg (u ∈ ·) (hw o))
  · exact fun h' => not_mem_of_outside h htc hm ((congrArg (c ∈ ·) (hw m)).mp h')

/-- Waiting on an object that is no mutex. -/
theorem ipcWait (ho : (k.object o).type ≠ .mutex) (timeout : ℤ) (flag : SuspendFlag) :
    Keeps k taking (k.ipcWait c o timeout flag).2 taking := by
  have h1 := setSelf h hc htc (fun th => { th with error := .eintr }) fun _ => ⟨rfl, rfl, rfl⟩
  have hc1 : ((k.setThread c fun th => { th with error := .eintr }).thread c).stat = .running := by
    rw [setThread_self]; exact hc
  have hl := h1.wf.linked.suspendOn o c flag
  have hmem : ∀ x u, u ∈ ((k.setThread c fun th => { th with error := .eintr }).suspendOn o c
      flag).waiters x ↔ (x = o ∧ u = c) ∨ u ∈ k.waiters x := fun x u =>
    mem_suspendOn_waiters h1.wf.linked hc1
  have key : ∀ f : Thread O → Thread O, (∀ th, (f th).stat = th.stat ∧
      (f th).takenObjectList = th.takenObjectList ∧ (f th).pendingObject = th.pendingObject) →
      Keeps k taking (((k.setThread c fun th => { th with error := .eintr }).suspendOn o c
        flag).setThread c f) taking := by
    intro f hf
    refine single h htc (not_parked_of_running hc) (not_close_of_running hc) _ (hl.setThread c f (hf _).1)
      rfl (fun u hu => ?_) ?_ (fun x u hu => ?_) fun m hm hmw => ?_
    · rw [setThread_of_ne _ hu, suspendOn_thread, setThread_of_ne _ hu, setThread_of_ne _ hu]
    · rw [setThread_self, (hf _).2.1, (hf _).2.2, suspendOn_thread, setThread_self, setThread_self]
      exact ⟨rfl, rfl⟩
    · exact (hmem x u).trans ⟨fun h' => h'.resolve_left fun e => hu e.2, .inr⟩
    · rcases (hmem m c).mp hmw with ⟨rfl, -⟩ | hmw
      · exact ho hm
      · exact not_mem_of_outside h htc hm hmw
  unfold Kernel.ipcWait
  dsimp only
  rw [ipcListSuspend_eq hc1]
  dsimp only
  split_ifs
  · exact key _ fun _ => ⟨rfl, rfl, rfl⟩
  · have := key id fun _ => ⟨rfl, rfl, rfl⟩
    rwa [show ∀ q : Kernel T O, q.setThread c id = q from fun q => by simp [setThread]] at this

end

/-! ## `ipc.c` -/

section
variable (h : Wf k taking) (hc : (k.thread c).stat = .running) (htc : taking c = none)
  (hm : (k.object m).type = .mutex)
include h hc htc hm

/-- **Taking a free mutex.** -/
theorem mutexTakeFree {fuel : ℕ} {flag : SuspendFlag} (ho : (k.object m).owner = none)
    (hr : k.mutexTakeFree fuel c m flag = some k') : Moves k taking k' taking m (some c, 1) := by
  obtain ⟨k₂, hk₂, ha, rfl⟩ : ∃ k₂, Linked k₂ ∧ Alike (k.takeObject c m) k₂ ∧
      k' = k₂.takenInsert c m := by
    rw [mutexTakeFree_eq h.linked hc hr]
    have hl : Linked (k.takeObject c m) := h.linked.setObject m _
    split_ifs
    · exact ⟨_, hl.changePriority c _, changePriority_alike hl c _, rfl⟩
    · exact ⟨_, hl, .refl _, rfl⟩
  have hobj : ∀ x, ((k.takeObject c m).object x).type = (k.object x).type ∧
      ((k.takeObject c m).object x).flag = (k.object x).flag ∧
      ((k.takeObject c m).object x).owner = if x = m then some c else (k.object x).owner := by
    intro x
    unfold takeObject
    by_cases hx : x = m
    · subst hx; rw [setObject_self, if_pos rfl]; exact ⟨rfl, rfl, rfl⟩
    · rw [setObject_of_ne _ hx, if_neg hx]; exact ⟨rfl, rfl, rfl⟩
  have hno : ∀ u, m ∉ (k.thread u).takenObjectList := fun u hu => by
    have := ((h.owned u m).mp hu).1
    rw [ho] at this
    cases this
  have htk : ∀ u, ((k₂.takenInsert c m).thread u).takenObjectList =
      if u = c then m :: (k.thread c).takenObjectList else (k.thread u).takenObjectList := by
    intro u
    unfold takenInsert
    by_cases hu : u = c
    · subst hu; rw [setThread_self, if_pos rfl]; exact congrArg (m :: ·) (ha.taken u)
    · rw [setThread_of_ne _ hu, if_neg hu]; exact ha.taken u
  have hth : ∀ u, ((k₂.takenInsert c m).thread u).pendingObject = (k.thread u).pendingObject ∧
      ((k₂.takenInsert c m).thread u).stat.phase = (k.thread u).stat.phase ∧
      ((k₂.takenInsert c m).thread u).error = (k.thread u).error ∧
      ((k₂.takenInsert c m).thread u).threadTimer = (k.thread u).threadTimer := by
    intro u
    unfold takenInsert
    by_cases hu : u = c
    · subst hu; rw [setThread_self]; exact ⟨ha.pending u, ha.phase u, ha.error u, ha.timer u⟩
    · rw [setThread_of_ne _ hu]; exact ⟨ha.pending u, ha.phase u, ha.error u, ha.timer u⟩
  have hnil := h.waiters_nil hm ho
  refine ⟨h.reown hm (w := some c) (n := none) (fun u hu => ?_) (fun u hu => ?_)
    (fun _ hu => nomatch hu) (fun u hu => ?_) _ (hk₂.setThread c _ rfl) (fun x => ?_) (fun u x => ?_)
    (fun u => ?_) (fun u => ?_) (fun u => ?_) (fun u _ => (hth u).2.2.1) fun x u => ?_,
    fun u hu => ?_, fun u hu => ?_, fun x => ?_⟩
  · rw [ho] at hu; cases hu
  · exact .inr (Option.some.inj hu ▸ htc)
  · rw [hnil] at hu; cases hu
  · exact ⟨(ha.type x).trans (hobj x).1, (ha.flag x).trans (hobj x).2.1,
      (ha.owner x).trans (hobj x).2.2⟩
  · rw [htk]
    by_cases hu : u = c
    · subst hu
      rw [if_pos rfl, List.mem_cons]
      split_ifs with hx
      · simp [hx]
      · simp [hx]
    · rw [if_neg hu]
      split_ifs with hx
      · subst hx
        exact ⟨fun h' => absurd h' (hno u), fun e => absurd (Option.some.inj e).symm hu⟩
      · rfl
  · rw [htk]
    split_ifs
    · exact List.nodup_cons.mpr ⟨hno c, h.takenNodup c⟩
    · exact h.takenNodup u
  · rw [(hth u).1, if_neg (by simp)]
  · rw [(hth u).2.1, if_neg (by simp)]
  · exact (ha.waiters x u).trans ⟨fun h' => ⟨h', by simp⟩, And.left⟩
  · refine ⟨?_, fun o ho => hu.free o ((ha.waiters o u).mp ho), hu.outside,
      (hth u).2.2.2.trans hu.timer⟩
    rw [Stat.isSuspend_iff, (hth u).2.1, ← Stat.isSuspend_iff]; exact hu.suspended
  · rw [Stat.close_iff, (hth u).2.1, ← Stat.close_iff]; exact hu
  · refine Prod.ext (((ha.owner x).trans (hobj x).2.2).trans ?_) ((ha.hold x).trans ?_)
    · by_cases hx : x = m
      · subst hx; simp
      · simp [hx, ownership]
    · by_cases hx : x = m
      · subst hx; simp [takeObject]
      · simp [takeObject, hx, ownership]

/-- **Starting to wait for an owned mutex.** -/
theorem mutexTakeWait {fuel : ℕ} {timeout : ℤ} {flag : SuspendFlag} {r : TakeResult}
    (hce : (k.thread c).error = .eok) (ho : (k.object m).owner = some t) (htc' : t ≠ c)
    (hr : k.mutexTakeWait fuel c t m timeout flag = some (r, k')) :
    r = .blocked ∧ Keeps k taking k' (Function.update taking c (some m)) := by
  obtain ⟨rfl, k₂, hk', hk₂⟩ := mutexTakeWait_cases hc hr
  refine ⟨rfl, ?_⟩
  have hth : ∀ u ≠ c, (k.waitFor c m flag).thread u = k.thread u := fun u hu => by
    simp [waitFor, suspendOn_thread, hu]
  have hmem : ∀ x u, u ∈ (k.waitFor c m flag).waiters x ↔ (x = m ∧ u = c) ∨ u ∈ k.waiters x :=
    fun x u => mem_suspendOn_waiters h.linked hc
  have h1 := h.waitFor hc htc hm hce ho htc' flag
  have h1' : Keeps k taking (k.waitFor c m flag) (Function.update taking c (some m)) := by
    have hne : ∀ u, Parked k taking u → u ≠ c := fun u hu e =>
      not_parked_of_running hc (e ▸ hu)
    refine ⟨h1, fun u hu => ?_, fun u hu => ?_, fun _ => rfl⟩
    · refine ⟨by rw [hth u (hne u hu)]; exact hu.suspended, fun o ho => ?_, ?_,
        by rw [hth u (hne u hu)]; exact hu.timer⟩
      · rcases (hmem o u).mp ho with ⟨-, e⟩ | ho
        · exact hne u hu e
        · exact hu.free o ho
      · rw [Function.update_of_ne (hne u hu)]; exact hu.outside
    · have hut : u ≠ c := fun e => by rw [← e, hu] at hc; cases hc
      rw [hth u hut]; exact hu
  have h2 : Keeps (k.waitFor c m flag) (Function.update taking c (some m)) k₂
      (Function.update taking c (some m)) := by
    have h3 := setObject h1 m (fun x => { x with priority := k.prioOf c }) (fun _ => ⟨rfl, rfl, rfl⟩) fun _ => rfl
    rcases hk₂ with ⟨-, rfl⟩ | ⟨-, ⟨-, rfl⟩ | ⟨-, hk₂⟩⟩
    · exact refl h1
    · exact h3
    · obtain ⟨h4, h5⟩ := updatePriority_alike h3.wf.linked h3.wf.pendingLinked hk₂
      exact h3.trans (alike h3.wf h4 h5)
  have h12 := h1'.trans h2
  rcases hk' with rfl | rfl
  · have hcw : ¬ Parked k₂ (Function.update taking c (some m)) c := fun hp => by
      have := hp.outside
      rw [Function.update_self] at this
      cases this
    have hcs : (k₂.thread c).stat ≠ .close := (h2.wf.alive c m (Function.update_self ..)).1
    refine h12.trans ⟨h2.wf.congr _ (h2.wf.linked.setThread c _ rfl) (fun _ => ⟨rfl, rfl, rfl⟩)
      (fun u => ?_) (fun _ _ _ => Iff.rfl) (fun u x _ => ?_), fun u hu => ?_, fun u hu => ?_,
      fun _ => rfl⟩
    · by_cases hu : u = c
      · subst hu; rw [setThread_self]; exact ⟨rfl, rfl⟩
      · rw [setThread_of_ne _ hu]; exact ⟨rfl, rfl⟩
    · by_cases hu : u = c
      · subst hu; rw [setThread_self]; exact ⟨rfl, rfl⟩
      · rw [setThread_of_ne _ hu]; exact ⟨rfl, rfl⟩
    · have huc : u ≠ c := fun e => hcw (e ▸ hu)
      refine ⟨by rw [setThread_of_ne _ huc]; exact hu.suspended, hu.free, hu.outside,
        by rw [setThread_of_ne _ huc]; exact hu.timer⟩
    · have huc : u ≠ c := fun e => hcs (e ▸ hu)
      rw [setThread_of_ne _ huc]; exact hu
  · exact h12

/-- **Releasing a mutex for the last time**: it is handed over, or free. -/
theorem mutexReleaseLast (ho : (k.object m).owner = some c) {k₂ : Kernel T O} (hl : Linked k₂)
    (ha : Alike (k.releaseTaken m) k₂)
    (hk' : (∃ next rest, k₂.waiters m = next :: rest ∧ k' = k₂.mutexHandOver m next) ∨
      (k₂.waiters m = [] ∧
        k' = k₂.setObject m fun x => { x with owner := none, priority := 0xff })) :
    ∃ n a, Moves k taking k' taking m (n, a) ∧
      ∀ next, n = some next → a = 1 ∧ next ≠ c ∧ taking next = some m := by
  have htk₂ : ∀ u, (k₂.thread u).takenObjectList = (k.thread u).takenObjectList.erase m :=
    fun u => ha.taken u
  have hmem₂ : ∀ u x, x ∈ (k₂.thread u).takenObjectList ↔
      x ≠ m ∧ x ∈ (k.thread u).takenObjectList := fun u x => by
    rw [htk₂]; exact (h.takenNodup u).mem_erase_iff
  have hobj₂ : ∀ x, (k₂.object x).type = (k.object x).type ∧
      (k₂.object x).flag = (k.object x).flag ∧ (k₂.object x).owner = (k.object x).owner ∧
      (k₂.object x).hold = if x = m then (k.object m).hold - 1 else (k.object x).hold := by
    intro x
    rw [ha.type, ha.flag, ha.owner, ha.hold, releaseTaken, takenRemove]
    by_cases hx : x = m
    · subst hx; rw [setObject_self, if_pos rfl]; exact ⟨rfl, rfl, rfl, rfl⟩
    · rw [setObject_of_ne _ hx, if_neg hx]; exact ⟨rfl, rfl, rfl, rfl⟩
  have hself : ∀ u, (k.object m).owner = some u → taking u = none := fun u hu => by
    rw [ho] at hu; rw [← Option.some.inj hu]; exact htc
  rcases hk' with ⟨next, rest, hw, rfl⟩ | ⟨hw, rfl⟩
  · -- the first waiter becomes the owner and is woken
    have hn : next ∈ k₂.waiters m := hw ▸ List.mem_cons_self
    have hnk : next ∈ k.waiters m := (ha.waiters m next).mp hn
    obtain ⟨-, htn⟩ := h.waiting next m hm hnk
    have hnc : next ≠ c := fun e => by rw [e, htc] at htn; cases htn
    have hin := k₂.insertedStat_ne next
    have hobj : ∀ x, ((k₂.mutexHandOver m next).object x).type = (k.object x).type ∧
        ((k₂.mutexHandOver m next).object x).flag = (k.object x).flag ∧
        ((k₂.mutexHandOver m next).object x).owner =
          (if x = m then some next else (k.object x).owner) ∧
        ((k₂.mutexHandOver m next).object x).hold = if x = m then 1 else (k.object x).hold := by
      intro x
      rw [handOver_object hl hn]
      obtain ⟨h1, h2, h3, h4⟩ := hobj₂ x
      by_cases hx : x = m
      · subst hx; simp [h1, h2]
      · simp only [if_neg hx] at h4 ⊢; exact ⟨h1, h2, h3, h4⟩
    have hth : ∀ u ≠ next, (k₂.mutexHandOver m next).thread u = k₂.thread u :=
      fun u hu => handOver_thread_of_ne hl hn hu
    have hths := handOver_thread_self hl hn
    have hmemw : ∀ x u, u ∈ (k₂.mutexHandOver m next).waiters x ↔ u ∈ k.waiters x ∧ next ≠ u := by
      intro x u
      rw [handOver_waiters hl hn, (hl.nodup _).mem_erase_iff, and_comm, ne_comm]
      exact and_congr_left fun _ => ha.waiters x u
    refine ⟨some next, 1, ⟨h.reown hm (w := some next) (n := some next) hself (fun u hu => .inl hu)
      (fun u hu => ⟨hu, Option.some.inj hu ▸ hnk⟩)
      (fun u _ hun => ⟨next, rfl, fun e => hun (by rw [e])⟩) _ (hl.handOver hn)
      (fun x => ⟨(hobj x).1, (hobj x).2.1, (hobj x).2.2.1⟩) (fun u x => ?_) (fun u => ?_)
      (fun u => ?_) (fun u => ?_) (fun u _ => ?_) fun x u => ?_, fun u hu => ?_, fun u hu => ?_,
      fun x => ?_⟩, fun n' hn' => ?_⟩
    · by_cases hu : u = next
      · subst hu
        rw [hths]
        dsimp only
        rw [List.mem_cons, hmem₂]
        by_cases hx : x = m <;> simp [hx]
      · rw [hth u hu, hmem₂]
        by_cases hx : x = m
        · simp [hx, Ne.symm hu]
        · simp [hx]
    · by_cases hu : u = next
      · subst hu
        rw [hths]
        exact List.nodup_cons.mpr ⟨fun h' => ((hmem₂ u m).mp h').1 rfl,
          htk₂ u ▸ (h.takenNodup u).erase m⟩
      · rw [hth u hu, htk₂]; exact (h.takenNodup u).erase m
    · by_cases hu : u = next
      · subst hu; rw [hths, if_pos rfl]
      · rw [hth u hu, if_neg fun e => hu (Option.some.inj e).symm]; exact ha.pending u
    · by_cases hu : u = next
      · subst hu
        rw [hths, if_pos rfl]
        dsimp only
        unfold insertedStat
        split_ifs <;> rfl
      · rw [hth u hu, if_neg fun e => hu (Option.some.inj e).symm]; exact ha.phase u
    · by_cases hu : u = next
      · subst hu; rw [hths]; exact ha.error u
      · rw [hth u hu]; exact ha.error u
    · rw [hmemw]; simp
    · have hun : u ≠ next := fun e => hu.free m (e ▸ hnk)
      refine ⟨?_, fun o ho' => hu.free o ((hmemw o u).mp ho').1, hu.outside, ?_⟩
      · rw [hth u hun, Stat.isSuspend_iff, ha.phase, ← Stat.isSuspend_iff]; exact hu.suspended
      · rw [hth u hun]; exact (ha.timer u).trans hu.timer
    · have hun : u ≠ next := fun e => (h.alive next m htn).1 (e ▸ hu)
      rw [hth u hun, Stat.close_iff, ha.phase, ← Stat.close_iff]; exact hu
    · refine Prod.ext ((hobj x).2.2.1.trans ?_) ((hobj x).2.2.2.trans ?_) <;>
        by_cases hx : x = m <;> simp [hx, ownership]
    · exact ⟨rfl, Option.some.inj hn' ▸ hnc, Option.some.inj hn' ▸ htn⟩
  · -- nobody waits
    have hobj : ∀ x, ((k₂.setObject m fun x => { x with owner := none, priority := 0xff }).object
        x).type = (k.object x).type ∧
        ((k₂.setObject m fun x => { x with owner := none, priority := 0xff }).object x).flag =
          (k.object x).flag ∧
        ((k₂.setObject m fun x => { x with owner := none, priority := 0xff }).object x).owner =
          (if x = m then none else (k.object x).owner) ∧
        ((k₂.setObject m fun x => { x with owner := none, priority := 0xff }).object x).hold =
          if x = m then (k.object m).hold - 1 else (k.object x).hold := by
      intro x
      obtain ⟨h1, h2, h3, h4⟩ := hobj₂ x
      by_cases hx : x = m
      · subst hx; rw [setObject_self, if_pos rfl, if_pos rfl]
        rw [if_pos rfl] at h4
        exact ⟨h1, h2, rfl, h4⟩
      · rw [setObject_of_ne _ hx, if_neg hx]; exact ⟨h1, h2, h3, h4⟩
    refine ⟨none, (k.object m).hold - 1, ⟨h.reown hm (w := none) (n := none) hself
      (fun _ hu => by cases hu) (fun _ hu => by cases hu) (fun u hu => ?_) _ (hl.setObject m _)
      (fun x => ⟨(hobj x).1, (hobj x).2.1, (hobj x).2.2.1⟩) (fun u x => ?_) (fun u => ?_)
      (fun u => ?_) (fun u => ?_) (fun u _ => ha.error u) fun x u => ?_, fun u hu => ?_,
      fun u hu => ?_, fun x => ?_⟩, fun _ hn => by cases hn⟩
    · have := (ha.waiters m u).mpr hu
      rw [hw] at this
      cases this
    · refine (hmem₂ u x).trans ?_
      by_cases hx : x = m <;> simp [hx]
    · exact htk₂ u ▸ (h.takenNodup u).erase m
    · rw [if_neg (by simp)]; exact ha.pending u
    · rw [if_neg (by simp)]; exact ha.phase u
    · exact (ha.waiters x u).trans ⟨fun h' => ⟨h', by simp⟩, And.left⟩
    · refine ⟨?_, fun o ho' => hu.free o ((ha.waiters o u).mp ho'), hu.outside,
        (ha.timer u).trans hu.timer⟩
      exact Stat.isSuspend_iff.mpr ((ha.phase u).trans (Stat.isSuspend_iff.mp hu.suspended))
    · exact Stat.close_iff.mpr ((ha.phase u).trans (Stat.close_iff.mp hu))
    · refine Prod.ext ((hobj x).2.2.1.trans ?_) ((hobj x).2.2.2.trans ?_) <;>
        by_cases hx : x = m <;> simp [hx, ownership]

end

/-- A thread ends its wait: it is on no list and knows of no mutex. -/
theorem drop (h : Wf k taking) (t : T) (k' : Kernel T O)
    (hl : Linked k') (hobj : k'.object = k.object) (hth : ∀ u ≠ t, k'.thread u = k.thread u)
    (htk : (k'.thread t).takenObjectList = (k.thread t).takenObjectList)
    (hcl : (k.thread t).stat = .close → (k'.thread t).stat = .close)
    (hp : ∀ m, (k'.thread t).pendingObject = some m → (k.object m).type ≠ .mutex)
    (hw : ∀ x u, u ∈ k'.waiters x ↔ u ∈ k.waiters x ∧ u ≠ t) : Ends k taking k' t := by
  refine ⟨h.drop t k' hl hobj hth htk hp hw, fun u hut hu => ?_, fun u hu => ?_, fun x => by
    rw [ownership, hobj]; rfl⟩
  · exact ⟨by rw [hth u hut]; exact hu.suspended, fun o ho => hu.free o ((hw o u).mp ho).1,
      by rw [Function.update_of_ne hut]; exact hu.outside, by rw [hth u hut]; exact hu.timer⟩
  · by_cases hut : u = t
    · rw [hut] at hu ⊢; exact hcl hu
    · rw [hth u hut]; exact hu

/-- **Leaving `_rt_mutex_take`.** The call succeeds exactly when the thread owns the mutex. -/
theorem mutexTakeResume (h : Wf k taking) (hc : (k.thread c).stat = .running)
    (htc : taking c = some m) {fuel : ℕ} {e : Err}
    (hr : k.mutexTakeResume fuel c m = some (e, k')) :
    Ends k taking k' c ∧
      (e = .eok ↔ (k.object m).owner = some c) := by
  have hns : (k.thread c).stat.isSuspend ≠ true := by rw [hc]; simp [Stat.isSuspend]
  have hnw : ∀ x u, u ∈ k.waiters x → u ≠ c := fun x u hu e =>
    h.linked.not_mem_waiters hns x (e ▸ hu)
  rcases mutexTakeResume_cases hr with ⟨he, rfl, rfl⟩ | ⟨he, k₁, hk₁, rfl, rfl⟩
  · obtain ⟨-, hown, hpe⟩ := (h.woken c m htc hns).resolve_right fun h' => h'.1 he
    refine ⟨?_, fun _ => hown, fun _ => rfl⟩
    refine drop h c _ h.linked rfl (fun _ _ => rfl) rfl id (fun x hx => ?_)
      fun x u => ⟨fun hu => ⟨hu, hnw x u hu⟩, And.left⟩
    rw [hpe] at hx
    cases hx
  · obtain ⟨hl, ha⟩ := mutexWaiterLeft_alike h.linked h.pendingLinked hk₁
    have h1 := alike h hl ha
    have hown := ((h.woken c m htc hns).resolve_left fun h' => he h'.1).2.1
    refine ⟨h1.ends (drop h1.wf c _ (hl.setThread c _ rfl) rfl
      (fun u hu => setThread_of_ne _ hu _) ?_ (fun h' => ?_) (fun x hx => ?_) fun x u => ?_),
      fun e => absurd ((ha.error c).symm.trans e) he, fun e => absurd e hown⟩
    · rw [setThread_self]
    · rw [setThread_self]; exact h'
    · rw [setThread_self] at hx
      cases hx
    · exact ⟨fun hu => ⟨hu, hnw x u ((ha.waiters x u).mp hu)⟩, And.left⟩

theorem mutexSetprioceiling (h : Wf k taking) {fuel p : ℕ}
    (hr : k.mutexSetprioceiling fuel m p = some k') : Keeps k taking k' taking := by
  unfold Kernel.mutexSetprioceiling at hr
  split_ifs at hr
  · have h1 := setObject h m (fun x => { x with ceilingPriority := p }) (fun _ => ⟨rfl, rfl, rfl⟩) fun _ => rfl
    dsimp only at hr
    rw [setObject_self] at hr
    cases ho : (k.object m).owner with
    | none =>
      simp only [ho] at hr
      cases hr
      exact h1
    | some o =>
      simp only [ho] at hr
      obtain ⟨hl, ha⟩ := refreshPriority_alike h1.wf.linked h1.wf.pendingLinked hr
      exact h1.trans (alike h1.wf hl ha)
  · cases hr
    exact refl h

/-! ## Ends of mutexes and threads -/

/-- **All waiters of a mutex are woken with an error.** -/
theorem resumeAll (h : Wf k taking) (hm : (k.object m).type = .mutex) :
    Keeps k taking (k.ipcListResumeAll m) taking ∧ (k.ipcListResumeAll m).waiters m = [] ∧
      (k.ipcListResumeAll m).object = k.object := by
  unfold ipcListResumeAll
  generalize hl : k.list (.suspend m) = l
  induction l generalizing k with
  | nil => exact ⟨refl h, hl, rfl⟩
  | cons t l ih =>
    have ht : t ∈ k.waiters m := by rw [waiters, hl]; exact List.mem_cons_self
    have hs := h.linked.suspend ht
    rw [List.foldl_cons, ipcResumeThread_eq hs]
    have h1 := wake h hs (fun hp => hp.free m ht)
      (fun th => { th with error := .error, threadTimer := false }) (.inr (by simp))
      fun _ => ⟨rfl, rfl, rfl⟩
    have hl1 : (k.wake t fun th => { th with error := .error, threadTimer := false }).waiters m =
        l := by
      rw [wake_waiters, waiters, hl, List.erase_cons_head]
    obtain ⟨h2, h3, h4⟩ := ih h1.wf (by rw [wake_object]; exact hm) hl1
    exact ⟨h1.trans h2, h3, h4.trans (wake_object _)⟩

theorem mutexDetach (h : Wf k taking) (hm : (k.object m).type = .mutex) :
    Keeps k taking (k.mutexDetach m) taking := by
  obtain ⟨h1, h2, h3⟩ := resumeAll h hm
  refine h1.trans ⟨h1.wf.retire (by rw [h3]; exact hm) h2,
    fun u hu => ⟨hu.suspended, hu.free, hu.outside, hu.timer⟩, fun _ hu => hu, fun x => ?_⟩
  by_cases hx : x = m
  · subst hx; rw [ownership, Kernel.mutexDetach, setObject_self]; rfl
  · rw [ownership, Kernel.mutexDetach, setObject_of_ne _ hx]; rfl

/-- The thread is closed and on no list. -/
theorem closed_kernel (h : Linked k) {k₁ : Kernel T O}
    (hk₁ : k₁ = (k.threadDetachUnlink t).setThread t fun th =>
      { th with threadTimer := false, stat := .close, yieldFlag := false }) :
    Linked k₁ ∧ Unlinked k₁ t ∧ k₁.object = k.object ∧ (∀ u ≠ t, k₁.thread u = k.thread u) ∧
      k₁.thread t = { k.thread t with threadTimer := false, stat := .close, yieldFlag := false } ∧
      ∀ x u, u ∈ k₁.waiters x ↔ u ∈ k.waiters x ∧ u ≠ t := by
  have key : Linked (k.threadDetachUnlink t) ∧ Unlinked (k.threadDetachUnlink t) t ∧
      (k.threadDetachUnlink t).object = k.object ∧
      (k.threadDetachUnlink t).thread = k.thread ∧
      ∀ x u, u ∈ (k.threadDetachUnlink t).waiters x ↔ u ∈ k.waiters x ∧ u ≠ t := by
    unfold threadDetachUnlink
    by_cases hi : (k.thread t).stat = .init
    · rw [if_neg (not_not.mpr hi)]
      have hun := h.unlinked (.inr hi)
      exact ⟨h, hun, rfl, rfl, fun x u => ⟨fun hu => ⟨hu, fun e => hun _ (e ▸ hu)⟩, And.left⟩⟩
    · rw [if_pos hi]
      refine ⟨h.remove t, h.unlinked_listRemove t, rfl, rfl, fun x u => ?_⟩
      exact (h.nodup _).mem_erase_iff.trans and_comm
  obtain ⟨h1, h2, h3, h4, h5⟩ := key
  subst hk₁
  refine ⟨h1.write h2 _ fun _ => by simp, h2, h3, fun u hu => ?_, ?_, h5⟩
  · rw [setThread_of_ne _ hu, h4]
  · rw [setThread_self, h4]

theorem defunctEnqueue_waiters (t : T) (x : O) :
    (k.threadDefunctEnqueue t).waiters x = k.waiters x := by
  have hne : Head.suspend x ≠ .defunct := by simp
  exact Function.update_of_ne hne (t :: k.list .defunct) k.list

/-- **`rt_thread_detach`.** -/
theorem threadDetach (h : Wf k taking) {fuel : ℕ} (hr : k.threadDetach fuel t = some k') :
    Ends k taking k' t ∧ (k'.thread t).stat = .close := by
  obtain ⟨k₁, hk₁⟩ : ∃ k₁, k₁ = (k.threadDetachUnlink t).setThread t fun th =>
    { th with threadTimer := false, stat := .close, yieldFlag := false } := ⟨_, rfl⟩
  obtain ⟨hl, hun, hobj, hth, hths, hw⟩ := closed_kernel h.linked hk₁
  have hclose : (k₁.thread t).stat = .close := congrArg Thread.stat hths
  have htks : (k₁.thread t).takenObjectList = (k.thread t).takenObjectList := by rw [hths]
  rcases threadDetach_cases hr hk₁ with ⟨hc, rfl⟩ | ⟨-, ⟨hp, rfl⟩ | ⟨m, k₂, hp, hm, hk₂, rfl⟩⟩
  · have ht : taking t = none := by
      cases htk : taking t with
      | none => rfl
      | some m => exact absurd hc (h.alive t m htk).1
    have hup : Function.update taking t none = taking := by rw [← ht, Function.update_eq_self]
    exact ⟨⟨by rw [hup]; exact h, fun u _ hu => by rw [hup]; exact hu, fun _ hu => hu,
      fun _ => rfl⟩, hc⟩
  · refine ⟨?_, hclose⟩
    refine drop h t _ (hl.defunctEnqueue hun hclose) hobj hth ?_ (fun _ => hclose)
      (fun m hm => ?_) fun x u => ?_
    · exact htks
    · exact hobj ▸ hp m hm
    · rw [defunctEnqueue_waiters]; exact hw x u
  · -- the thread is dropped from its mutex; what happens there does not look at the thread
    have hlr := hl.unlink t
    have hwr : ∀ x u, u ∈ (k₁.listRemove t).waiters x ↔ u ∈ k.waiters x ∧ u ≠ t :=
      fun x u => ((hl.nodup _).mem_erase_iff.trans (and_congr_right fun _ => hw x u)).trans
        ⟨And.right, fun h' => ⟨h'.2, h'⟩⟩
    have hplr : PendingLinked (k₁.listRemove t) := fun u x hs hx hxm => by
      by_cases hut : u = t
      · subst hut
        rw [listRemove_thread, hclose] at hs
        cases hs
      · rw [listRemove_thread, hth u hut] at hs hx
        rw [listRemove_object, hobj] at hxm
        exact (hwr x u).mpr ⟨h.pendingLinked u x hs hx hxm, hut⟩
    obtain ⟨hl₂, ha⟩ := mutexWaiterLeft_alike hlr hplr hk₂
    have h1 : Ends k taking ((k₁.listRemove t).setThread t fun th =>
        { th with pendingObject := none }) t := by
      refine drop h t _ (hlr.setThread t _ rfl) hobj (fun u hu => ?_) ?_ (fun _ => ?_)
        (fun m hm => ?_) hwr
      · rw [setThread_of_ne _ hu]; exact hth u hu
      · rw [setThread_self]; exact htks
      · rw [setThread_self]; exact hclose
      · rw [setThread_self] at hm
        cases hm
    have h2 := alike h1.wf (hl₂.setThread t _ rfl) (ha.clearPending t)
    have hcl₂ : (k₂.thread t).stat = .close := by
      rw [Stat.close_iff, ha.phase, ← Stat.close_iff]; exact hclose
    have hun₂ : Unlinked k₂ t := fun hd hm' => by
      have hf := hl₂.fits hm'
      rw [hcl₂] at hf
      cases hd with
      | ready p => cases hf
      | suspend o => cases hf
      | defunct =>
        rw [ha.defunct] at hm'
        exact hl.unlinked_listRemove t _ hm'
    have hcl₃ : ((k₂.setThread t fun th => { th with pendingObject := none }).thread t).stat =
        .close := by rw [setThread_self]; exact hcl₂
    refine ⟨?_, hcl₃⟩
    refine ends_trans (ends_trans h1 h2) ⟨h2.wf.congr _
      ((hl₂.setThread t _ rfl).defunctEnqueue hun₂ hcl₃)
      (fun _ => ⟨rfl, rfl, rfl⟩) (fun _ => ⟨rfl, rfl⟩) (fun x _ u => ?_) (fun _ _ _ => ⟨rfl, rfl⟩),
      fun u hu => ⟨hu.suspended, fun o ho => ?_, hu.outside, hu.timer⟩, fun _ hu => hu,
      fun _ => rfl⟩
    · rw [defunctEnqueue_waiters]
    · rw [defunctEnqueue_waiters] at ho
      exact hu.free o ho

/-! ## Wake-ups of other objects -/

/-- A thread in the suspend list of an object other than a mutex is outside `_rt_mutex_take`. -/
theorem outside_of_mem (h : Wf k taking) (ho : (k.object o).type ≠ .mutex)
    (ht : t ∈ k.waiters o) : taking t = none := by
  cases htk : taking t with
  | none => rfl
  | some m =>
    obtain ⟨h1, h2, -⟩ := h.suspended t m htk (h.linked.suspend ht)
    obtain rfl := Head.suspend.inj (h.linked.unique h1 ht)
    exact absurd h2 ho

theorem ipcResumeThread (h : Wf k taking) (ho : (k.object o).type ≠ .mutex)
    (ht : t ∈ k.waiters o) (e : Err) : Keeps k taking (k.ipcResumeThread e t) taking := by
  have hs := h.linked.suspend ht
  rw [ipcResumeThread_eq hs]
  exact wake h hs (fun hp => hp.free o ht) _ (.inl (outside_of_mem h ho ht)) fun _ => ⟨rfl, rfl, rfl⟩

end Keeps

end RtThread
