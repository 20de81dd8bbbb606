import RtThread.Lib.System
import RtThread.Sched.Ready

/-!
# Runs of the scheduler

The scheduler's operations at the grain of their critical sections, in any order. An
`rt_thread_resume` in flight stands on `pending` with the section it has to do next; any of them may
proceed at any point, so two calls on one thread can overlap.

* `SchedState`, `SchedLabel`, `schedStep`, `schedSystem`;
* `SchedInv`: the READY threads are those of the ready lists; `rtSchedule_inv`;
* **`rtSchedule_highest`**: no READY thread is more urgent than the one `rt_schedule` leaves running;
* **`readyQueue_invariant`**: both in every run that inserts and removes threads as the kernel does.
-/

set_option linter.unusedSectionVars false

namespace RtThread

/-- The kernel and the resumes in flight. -/
structure SchedState (T O : Type) where
  kernel : Kernel T O
  pending : List (Pending T)

/-- The operations; `proceed` is the next section of a resume in flight. -/
inductive SchedLabel (T : Type) where
  | insertThread (t : T)
  | removeThread (t : T)
  | schedule
  | start
  | startup (t : T)
  | suspend (flag : SuspendFlag)
  | resume (t : T)
  | proceed (a : Pending T)
  | yield
  | exit
  | changePriority (t : T) (p : ℕ)
  | enterCritical
  | exitCritical
  deriving DecidableEq, Repr

variable {T O : Type} [DecidableEq T] [DecidableEq O]

namespace SchedState

/-- Replace the kernel. -/
def withKernel (s : SchedState T O) (k : Kernel T O) : SchedState T O := { s with kernel := k }

/-- Put a section in flight. -/
def push (s : SchedState T O) (a : Pending T) : SchedState T O :=
  { s with pending := a :: s.pending }

/-- Do the section `a` of a resume in flight. -/
def proceed (s : SchedState T O) (a : Pending T) : SchedState T O :=
  ⟨(s.kernel.resumeSection a).1, (s.kernel.resumeSection a).2 ++ s.pending.erase a⟩

end SchedState

/-- One step. The functions that act on the calling thread need a current thread, and
`rt_thread_startup` asserts the initial state. -/
def schedStep (s : SchedState T O) : SchedLabel T → Option (SchedState T O)
  | .insertThread t => some (s.withKernel (s.kernel.scheduleInsertThread t))
  | .removeThread t => some (s.withKernel (s.kernel.scheduleRemoveThread t))
  | .schedule =>
    if s.kernel.currentThread = none then none else s.kernel.rtSchedule.map s.withKernel
  | .start =>
    if s.kernel.currentThread = none then s.kernel.systemSchedulerStart.map s.withKernel else none
  | .startup t =>
    if (s.kernel.thread t).stat = .init then
      some ((s.withKernel (s.kernel.threadStartupStore t)).push (.check t))
    else none
  | .suspend flag => s.kernel.currentThread.map fun c =>
    s.withKernel (s.kernel.threadSuspendWithFlag c flag).2
  | .resume t => some (s.push (.check t))
  | .proceed a =>
    if a ∈ s.pending then some (s.proceed a) else none
  | .yield => s.kernel.currentThread.map fun c => s.withKernel (s.kernel.threadYield c)
  | .exit => s.kernel.currentThread.map fun c => s.withKernel (s.kernel.threadExit c)
  | .changePriority t p => some (s.withKernel (s.kernel.threadChangePriority t p))
  | .enterCritical => some (s.withKernel
    { s.kernel with schedulerLockNest := s.kernel.schedulerLockNest + 1 })
  | .exitCritical => some (s.withKernel
    { s.kernel with schedulerLockNest := s.kernel.schedulerLockNest - 1 })

/-- After `rt_system_scheduler_init`, with threads that are initialized and not started. -/
structure SchedInit (s : SchedState T O) : Prop where
  list : ∀ p, s.kernel.list (.ready p) = []
  group : s.kernel.readyPriorityGroup = 0#32
  current : s.kernel.currentThread = none
  stat : ∀ t, (s.kernel.thread t).stat = .init
  mask : ∀ t, (s.kernel.thread t).numberMask = 0#32
  bound : ∀ t, s.kernel.prioOf t < threadPriorityMax
  pending : s.pending = []

/-- The scheduler as a system. -/
def schedSystem (T O : Type) [DecidableEq T] [DecidableEq O] :
    System (SchedState T O) (SchedLabel T) := ⟨SchedInit, schedStep⟩

/-- The use the kernel makes of its scheduler: only a suspended thread is inserted, a READY thread
is removed together with a change of its state, priorities are below `RT_THREAD_PRIORITY_MAX`, and
a thread stays suspended while a resume of it is in flight. -/
def kernelUse (s : SchedState T O) : SchedLabel T → Bool
  | .insertThread t => (s.kernel.thread t).stat.isSuspend
  | .removeThread t => (s.kernel.thread t).stat ≠ .ready
  | .changePriority _ p => p < threadPriorityMax
  | .proceed (.unlink t) | .proceed (.insert t) => (s.kernel.thread t).stat.isSuspend
  | _ => true

/-- Bit `p` is set exactly when list `p` is non-empty; a READY thread is linked exactly once, in the
list of its priority; no other thread is in a ready list; and an `rt_schedule` with no scheduler lock
leaves no READY thread more urgent than the running one. -/
structure ReadyQueueOk (s : SchedState T O) : Prop where
  bitmap : ∀ p < threadPriorityMax,
    s.kernel.readyPriorityGroup.getLsbD p = true ↔ s.kernel.list (.ready p) ≠ []
  ready : ∀ t, (s.kernel.thread t).stat = .ready →
    (s.kernel.list (.ready (s.kernel.prioOf t))).count t = 1 ∧
      ∀ p, t ∈ s.kernel.list (.ready p) → p = s.kernel.prioOf t
  others : ∀ t p, (s.kernel.thread t).stat ≠ .ready → t ∉ s.kernel.list (.ready p)
  highest : ∀ s', schedStep s .schedule = some s' → s.kernel.schedulerLockNest = 0 →
    ∀ c t, s'.kernel.currentThread = some c → (s'.kernel.thread t).stat = .ready →
      s'.kernel.prioOf c ≤ s'.kernel.prioOf t

/-! ## The invariant -/

/-- The READY threads are those of the ready lists; the current thread is not READY. -/
structure SchedInv (k : Kernel T O) : Prop where
  ready : Ready k fun t => (k.thread t).stat = .ready
  started : ∀ t, (k.thread t).stat ≠ .init → (k.thread t).numberMask = priorityMask (k.prioOf t)
  current : ∀ c, k.currentThread = some c →
    (k.thread c).stat ≠ .ready ∧ (k.thread c).stat ≠ .init

theorem Stat.ne_of_isSuspend {st : Stat} (h : st.isSuspend = true) :
    st ≠ .ready ∧ st ≠ .init ∧ st ≠ .close ∧ st ≠ .running := by
  cases st <;> simp_all [Stat.isSuspend]

namespace SchedInv

variable {k k' : Kernel T O}

/-- Writes to a started thread that neither is nor becomes READY. -/
theorem setThread (h : SchedInv k) {t : T} (ht : (k.thread t).stat ≠ .ready)
    (f : Thread O → Thread O)
    (hf : (f (k.thread t)).stat ≠ .ready ∧ (f (k.thread t)).stat ≠ .init)
    (hs : (k.thread t).numberMask = priorityMask (k.prioOf t))
    (ha : ∀ th, (f th).attrs = th.attrs) :
    SchedInv (k.setThread t f) := by
  have hp : ∀ th, (f th).currentPriority = th.currentPriority := fun th => congrArg (·.1) (ha th)
  have hm : ∀ th, (f th).numberMask = th.numberMask := fun th => congrArg (·.2.2.1) (ha th)
  refine ⟨(h.ready.setThread t f ha).of_iff fun u => ?_, fun u hu => ?_, fun c hc => ?_⟩
  · by_cases hu : u = t
    · subst hu; simp [ht, hf.1]
    · simp [hu]
  · by_cases hut : u = t
    · subst hut
      simpa only [Kernel.prioOf, Kernel.setThread_self, hm, hp] using hs
    · simp only [Kernel.prioOf, Kernel.setThread_of_ne _ hut] at hu ⊢
      exact h.started u hu
  · by_cases hct : c = t
    · subst hct; simpa using hf
    · simpa [hct] using h.current c hc

/-- Taking a thread that is not READY off its list. -/
theorem removeThread (h : SchedInv k) {t : T} (ht : (k.thread t).stat ≠ .ready) :
    SchedInv (k.scheduleRemoveThread t) := by
  refine ⟨(h.ready.remove t).of_iff fun u => ?_, h.started, h.current⟩
  · exact ⟨fun hu => ⟨hu, fun e => ht (e ▸ hu)⟩, And.left⟩

/-- **`rt_schedule_insert_thread` of a suspended thread.** -/
theorem insertThread (h : SchedInv k) {t : T} (ht : (k.thread t).stat.isSuspend = true) :
    SchedInv (k.scheduleInsertThread t) := by
  obtain ⟨hr, hi, -, -⟩ := Stat.ne_of_isSuspend ht
  by_cases hc : k.currentThread = some t
  · have : k.scheduleInsertThread t = k.setThread t fun th => { th with stat := .running } := by
      unfold Kernel.scheduleInsertThread; rw [if_pos hc]
    rw [this]
    exact h.setThread hr (fun th => { th with stat := .running }) (by simp)
      (h.started t hi) fun _ => rfl
  · refine ⟨(h.ready.insert hr hc (h.started t hi)).of_iff fun u => ?_,
      fun u hu => ?_, fun c hcc => ?_⟩
    · by_cases hu : u = t
      · subst hu; simp [Kernel.insertedStat, hc]
      · simp [hu]
    · by_cases hut : u = t
      · subst hut; simpa [Kernel.prioOf] using h.started u hi
      · simp only [Kernel.prioOf, Kernel.scheduleInsertThread_thread,
          Kernel.setThread_of_ne _ hut] at hu ⊢
        exact h.started u hu
    · rw [Kernel.scheduleInsertThread_current] at hcc
      have hct : c ≠ t := fun e => hc (e ▸ hcc)
      simpa [hct] using h.current c hcc

/-- The first section of `rt_thread_resume`. -/
theorem resumeUnlink (h : SchedInv k) {t : T} (ht : (k.thread t).stat.isSuspend = true) :
    SchedInv (k.threadResumeUnlink t) := by
  obtain ⟨hr, hi, -, -⟩ := Stat.ne_of_isSuspend ht
  have hl : SchedInv (k.listRemove t) := by
    refine ⟨h.ready.congr (k.listRemove t) (fun p => ?_) rfl (fun _ => rfl) (fun _ => rfl)
      fun _ => Iff.rfl, h.started, h.current⟩
    exact List.erase_of_not_mem fun hm => hr ((h.ready.mem t p).mp hm).1
  exact hl.setThread hr (fun th => { th with threadTimer := false }) ⟨hr, hi⟩ (h.started t hi)
    fun _ => rfl

/-- A new priority for a thread that is not READY. -/
theorem writePriority (h : SchedInv k) {t : T} (ht : (k.thread t).stat ≠ .ready) {p : ℕ}
    (hp : p < threadPriorityMax) : SchedInv (k.setThread t (Thread.writePriority p)) := by
  refine ⟨(h.ready.writePriority ht hp).of_iff fun u => ?_, fun u hu => ?_, fun c hc => ?_⟩
  · by_cases hu : u = t
    · subst hu; simp [Thread.writePriority]
    · simp [hu]
  · by_cases hut : u = t
    · subst hut; simp [Kernel.prioOf, Thread.writePriority]
    · simp only [Kernel.prioOf, Kernel.setThread_of_ne _ hut] at hu ⊢
      exact h.started u hu
  · by_cases hct : c = t
    · subst hct; simpa [Thread.writePriority] using h.current c hc
    · simpa [hct] using h.current c hc

/-- Only the lists of ready threads matter. -/
theorem withList (h : SchedInv k) {l : Queues (Head O) T}
    (hl : ∀ p, l (.ready p) = k.list (.ready p)) (n : ℕ) :
    SchedInv { k with list := l, schedulerLockNest := n } :=
  ⟨h.ready.congr { k with list := l, schedulerLockNest := n } hl rfl (fun _ => rfl) (fun _ => rfl)
    fun _ => Iff.rfl, h.started, h.current⟩

/-- **`RT_THREAD_CTRL_CHANGE_PRIORITY`.** -/
theorem changePriority (h : SchedInv k) (t : T) {p : ℕ} (hp : p < threadPriorityMax) :
    SchedInv (k.threadChangePriority t p) := by
  unfold Kernel.threadChangePriority
  split_ifs with ht
  · have hct : k.currentThread ≠ some t := fun hc => (h.current t hc).1 ht
    have h1 := (h.ready.remove t).writePriority (t := t) (fun hR => hR.2 rfl) hp
    have h2 := h1.insert (t := t) (fun hR => hR.2 rfl) hct (by simp [Kernel.prioOf,
      Thread.writePriority])
    refine ⟨h2.of_iff fun u => ?_, fun u hu => ?_, fun c hc => ?_⟩
    · by_cases hu : u = t
      · subst hu; simp [Kernel.insertedStat, hct]
      · simp [hu]
    · by_cases hut : u = t
      · subst hut; simp [Kernel.prioOf, Thread.writePriority]
      · simp only [Kernel.prioOf, Kernel.scheduleInsertThread_thread, Kernel.setThread_of_ne _ hut,
          Kernel.scheduleRemoveThread_thread] at hu ⊢
        exact h.started u hu
    · rw [Kernel.scheduleInsertThread_current] at hc
      have hne : c ≠ t := fun e => hct (e ▸ hc)
      simpa [hne] using h.current c hc
  · exact h.writePriority ht hp

/-! ## `rt_schedule` -/

/-- **A switch to a ready thread.** The old current thread goes back to the ready lists when it was
running. -/
theorem switchTo (h : SchedInv k) {c t : T} (hc : k.currentThread = some c)
    (ht : (k.thread t).stat = .ready) :
    SchedInv (k.switchTo c t (decide ((k.thread c).stat = .running))) := by
  obtain ⟨hnot, hci⟩ := h.current c hc
  have htc : t ≠ c := fun e => hnot (e ▸ ht)
  have h0 : Ready { k with currentThread := some t } fun u => (k.thread u).stat = .ready :=
    h.ready.congr { k with currentThread := some t } (fun _ => rfl) rfl (fun _ => rfl)
      (fun _ => rfl) fun _ => Iff.rfl
  have h1 : Ready (if decide ((k.thread c).stat = .running) = true then
      ({ k with currentThread := some t } : Kernel T O).scheduleInsertThread c
      else { k with currentThread := some t })
      fun u => (k.thread u).stat = .ready ∨ (u = c ∧ (k.thread c).stat = .running) := by
    by_cases hrun : (k.thread c).stat = .running
    · rw [if_pos (decide_eq_true hrun)]
      refine (h0.insert hnot (fun e => htc (Option.some.inj e)) (h.started c hci)).of_iff fun u => ?_
      simp [hrun]
    · rw [if_neg (by simpa using hrun)]
      exact h0.of_iff fun u => by simp [hrun]
  have h2 := ((h1.setThread c (fun th => { th with yieldFlag := false }) fun _ => rfl).remove
    t).setThread t (fun th => { th with stat := .running }) fun _ => rfl
  refine ⟨h2.of_iff fun u => ?_, fun u hu => ?_, fun d hd => ?_⟩
  · rw [Kernel.switchTo_stat k htc]
    by_cases hut : u = t
    · subst hut; simp
    · by_cases huc : u = c
      · subst huc
        by_cases hrun : (k.thread u).stat = .running <;> simp [hut, hrun, hnot]
      · simp [hut, huc]
  · have ha := k.switchTo_attrs c t (decide ((k.thread c).stat = .running)) u
    have hp : (_ : ℕ) = k.prioOf u := congrArg (·.1) ha
    have hm : (_ : BitVec 32) = (k.thread u).numberMask := congrArg (·.2.2.1) ha
    have hs : (k.thread u).stat ≠ .init := fun hs => by
      rw [Kernel.switchTo_stat k htc] at hu
      by_cases hut : u = t
      · subst hut; rw [ht] at hs; cases hs
      · by_cases huc : u = c
        · subst huc; simp [hut, hs] at hu
        · simp [hut, huc, hs] at hu
    have := h.started u hs
    rw [← hp, ← hm] at this
    exact this
  · rw [Kernel.switchTo_current] at hd
    obtain rfl := Option.some.inj hd
    rw [Kernel.switchTo_stat k htc, if_pos rfl]
    decide

/-- **`rt_schedule` keeps the invariant.** -/
theorem rtSchedule (h : SchedInv k) (hs : k.rtSchedule = some k') : SchedInv k' := by
  rcases Kernel.rtSchedule_cases hs with ⟨-, rfl⟩ | ⟨c, t, p, -, hg, hc, ht, hk⟩
  · exact h
  · obtain ⟨t', ht', hR, -⟩ := h.ready.highest hg
    obtain ⟨rfl, rfl⟩ := Prod.mk.inj (Option.some.inj (ht.symm.trans ht'))
    obtain ⟨hnot, hci⟩ := h.current c hc
    rcases hk with ⟨-, rfl⟩ | ⟨-, -, rfl⟩
    · exact (h.removeThread hnot).setThread hnot (fun th => { th with stat := .running })
        (by simp) (h.started c hci) fun _ => rfl
    · exact h.switchTo hc hR

/-- **No READY thread is more urgent than the thread `rt_schedule` leaves running.** -/
theorem rtSchedule_highest (h : SchedInv k) (hs : k.rtSchedule = some k')
    (h0 : k.schedulerLockNest = 0) {c t : T} (hc : k'.currentThread = some c)
    (ht : (k'.thread t).stat = .ready) : k'.prioOf c ≤ k'.prioOf t := by
  rcases Kernel.rtSchedule_cases hs with ⟨h1, rfl⟩ | ⟨c', t', p, -, hg, hc', ht', hk⟩
  · exact absurd ht (h.ready.none_of_group (h1.resolve_left (not_not.mpr h0)) t)
  · obtain ⟨t'', ht'', hR, hmin⟩ := h.ready.highest hg
    obtain ⟨rfl, rfl⟩ := Prod.mk.inj (Option.some.inj (ht'.symm.trans ht''))
    rcases hk with ⟨hst, rfl⟩ | ⟨hst, htc, rfl⟩
    · -- the current thread stays
      obtain rfl : c' = c := Option.some.inj (hc'.symm.trans hc)
      have hle : k.prioOf c' ≤ k.prioOf t' := by
        rcases hst with hst | rfl
        · simp only [Kernel.staysCurrent, Bool.and_eq_true, Bool.or_eq_true,
            decide_eq_true_eq] at hst
          omega
        · exact le_rfl
      have hne : t ≠ c' := fun e => by subst e; simp at ht
      have := hmin t (by simpa [hne] using ht)
      simp only [Kernel.prioOf, Kernel.setThread_self, Kernel.setThread_of_ne _ hne,
        Kernel.scheduleRemoveThread_thread] at this ⊢
      exact hle.trans this
    · -- the highest ready thread runs
      obtain rfl : t' = c := Option.some.inj ((Kernel.switchTo_current ..).symm.trans hc)
      have hp : ∀ u, (k.switchTo c' t' (decide ((k.thread c').stat = .running))).prioOf u =
          k.prioOf u := fun u => congrArg (·.1) (k.switchTo_attrs ..)
      rw [hp, hp]
      rw [Kernel.switchTo_stat k htc] at ht
      split_ifs at ht with h1 h2
      · -- the old current thread was running and lost against `t'`
        obtain ⟨rfl, hrun⟩ := h2
        simp only [Kernel.staysCurrent, hrun, Bool.true_and, Bool.or_eq_false_iff,
          decide_eq_false_iff_not] at hst
        omega
      · exact hmin t ht

end SchedInv

/-! ## Runs -/

/-- The start. -/
theorem SchedInit.inv {s : SchedState T O} (h : SchedInit s) : SchedInv s.kernel where
  ready := by
    refine ⟨fun p => ?_, fun t p => ?_, fun t ht => ?_, fun t => .inr (h.mask t), h.bound,
      fun p _ => ?_⟩
    · rw [h.list]; exact List.nodup_nil
    · simp [h.list, h.stat]
    · rw [h.stat] at ht; cases ht
    · simp [h.list, h.group]
  started t ht := absurd (h.stat t) ht
  current c hc := by rw [h.current] at hc; cases hc

/-- `rt_system_scheduler_start`. -/
theorem SchedInv.start {k k' : Kernel T O} (h : SchedInv k) (hs : k.systemSchedulerStart = some k') :
    SchedInv k' := by
  obtain ⟨⟨t, p⟩, ht, hk⟩ := Option.bind_eq_some_iff.mp hs
  cases hk
  obtain ⟨t', ht', hR, -⟩ := h.ready.highest (Kernel.group_ne_zero_of_highest ht)
  obtain ⟨rfl, rfl⟩ := Prod.mk.inj (Option.some.inj (ht.symm.trans ht'))
  have h1 := ((h.ready.congr { k with currentThread := some t } (fun _ => rfl) rfl (fun _ => rfl)
    (fun _ => rfl) fun _ => Iff.rfl).remove t).setThread t
      (fun th => { th with stat := .running, yieldFlag := false }) fun _ => rfl
  refine ⟨h1.of_iff fun u => ?_, fun u hu => ?_, fun c hc => ?_⟩
  · by_cases hu : u = t
    · subst hu; simp
    · simp [hu]
  · by_cases hut : u = t
    · subst hut
      simpa [Kernel.prioOf] using h.started u (by rw [hR]; decide)
    · simp only [Kernel.setThread_of_ne _ hut, Kernel.prioOf] at hu ⊢
      exact h.started u hu
  · obtain rfl : t = c := Option.some.inj hc
    simp

/-- `rt_thread_suspend_with_flag` of the current thread. -/
theorem SchedInv.suspend {k : Kernel T O} (h : SchedInv k) {c : T} (hc : k.currentThread = some c)
    (flag : SuspendFlag) : SchedInv (k.threadSuspendWithFlag c flag).2 := by
  obtain ⟨hnot, hci⟩ := h.current c hc
  unfold Kernel.threadSuspendWithFlag
  split_ifs
  · exact (h.removeThread hnot).setThread hnot
      (fun th => { th with stat := .suspend flag, threadTimer := false }) (by simp)
      (h.started c hci) fun _ => rfl
  · exact h

/-- `_thread_exit` of the current thread. -/
theorem SchedInv.exit {k : Kernel T O} (h : SchedInv k) {c : T} (hc : k.currentThread = some c) :
    SchedInv (k.threadExit c) := by
  obtain ⟨hnot, hci⟩ := h.current c hc
  have h1 := (h.removeThread hnot).setThread hnot
    (fun th => { th with threadTimer := false, stat := .close, yieldFlag := false }) (by simp)
    (h.started c hci) fun _ => rfl
  exact h1.withList (fun p => by simp [Queues.insertAfterHead]) _

/-- The store of `rt_thread_startup`. -/
theorem SchedInv.startupStore {k : Kernel T O} (h : SchedInv k) {t : T}
    (ht : (k.thread t).stat = .init) : SchedInv (k.threadStartupStore t) := by
  have hnot : (k.thread t).stat ≠ .ready := by rw [ht]; decide
  have h1 := (h.writePriority hnot (h.ready.bound t)).setThread (t := t)
    (by simpa [Thread.writePriority] using hnot)
    (fun th => { th with stat := .suspend .interruptible, yieldFlag := false }) (by simp)
    (by simp [Kernel.prioOf, Thread.writePriority]) fun _ => rfl
  rwa [Kernel.setThread_setThread] at h1

/-- **Every step keeps the invariant.** -/
theorem schedStep_inv {s s' : SchedState T O} {a : SchedLabel T} (h : SchedInv s.kernel)
    (hok : kernelUse s a = true) (hs : schedStep s a = some s') : SchedInv s'.kernel := by
  cases a with
  | insertThread t => cases hs; exact h.insertThread hok
  | removeThread t => cases hs; exact h.removeThread (by simpa [kernelUse] using hok)
  | schedule =>
    simp only [schedStep] at hs
    split_ifs at hs
    obtain ⟨k', hk, rfl⟩ := Option.map_eq_some_iff.mp hs
    exact h.rtSchedule hk
  | start =>
    simp only [schedStep] at hs
    split_ifs at hs
    obtain ⟨k', hk, rfl⟩ := Option.map_eq_some_iff.mp hs
    exact h.start hk
  | startup t =>
    simp only [schedStep] at hs
    split_ifs at hs with hi
    cases hs
    exact h.startupStore hi
  | suspend flag =>
    obtain ⟨c, hc, rfl⟩ := Option.map_eq_some_iff.mp hs
    exact h.suspend hc flag
  | resume t => cases hs; exact h
  | proceed a =>
    simp only [schedStep] at hs
    split_ifs at hs
    cases hs
    cases a with
    | check t => exact h
    | unlink t => exact h.resumeUnlink hok
    | insert t => exact h.insertThread hok
  | yield =>
    obtain ⟨c, hc, rfl⟩ := Option.map_eq_some_iff.mp hs
    obtain ⟨hnot, hci⟩ := h.current c hc
    exact h.setThread hnot (fun th => { th with yieldFlag := true }) ⟨hnot, hci⟩ (h.started c hci)
      fun _ => rfl
  | exit =>
    obtain ⟨c, hc, rfl⟩ := Option.map_eq_some_iff.mp hs
    exact h.exit hc
  | changePriority t p => cases hs; exact h.changePriority t (by simpa [kernelUse] using hok)
  | enterCritical => cases hs; exact h.withList (fun _ => rfl) _
  | exitCritical => cases hs; exact h.withList (fun _ => rfl) _

/-- **The ready queue in every run** that uses the scheduler as the kernel does. -/
theorem readyQueue_invariant {s : SchedState T O} (hs : (schedSystem T O).Reach kernelUse s) :
    ReadyQueueOk s := by
  have h : SchedInv s.kernel := hs.invariant (fun _ => SchedInit.inv) fun _ _ _ => schedStep_inv
  refine ⟨h.ready.group, fun t ht => ⟨?_, fun p hp => ?_⟩, fun t p ht hp => ?_,
    fun s' hst h0 c t hc ht => ?_⟩
  · exact List.count_eq_one_of_mem (h.ready.nodup _) ((h.ready.mem t _).mpr ⟨ht, rfl⟩)
  · exact ((h.ready.mem t p).mp hp).2.symm
  · exact ht ((h.ready.mem t p).mp hp).1
  · simp only [schedStep] at hst
    split_ifs at hst
    obtain ⟨k', hk, rfl⟩ := Option.map_eq_some_iff.mp hst
    exact h.rtSchedule_highest hk h0 hc ht

/-! ## What other uses do -/

/-- Two threads of priorities 10 and 20, not started. -/
def twoThreads : SchedState (Fin 2) Unit :=
  ⟨Kernel.initial (fun t => if t = 0 then 10 else 20) fun _ => .mutexInit, []⟩

theorem twoThreads_init : SchedInit twoThreads where
  list _ := rfl
  group := rfl
  current := rfl
  stat _ := rfl
  mask _ := rfl
  bound := by decide
  pending := rfl

/-- No direct call of the two queue functions. -/
def noDirectCall (_ : SchedState T O) : SchedLabel T → Bool
  | .insertThread _ | .removeThread _ => false
  | _ => true

theorem readyQueueOk_witness :
    ∃ s, (schedSystem (Fin 2) Unit).Reach kernelUse s ∧ (s.kernel.thread 1).stat = .ready ∧
      ReadyQueueOk s := by
  obtain ⟨s, hs, hp⟩ := System.exists_reach (schedSystem (Fin 2) Unit) kernelUse
    (fun s => (s.kernel.thread 1).stat = .ready) twoThreads_init
    [.startup 0, .proceed (.check 0), .proceed (.unlink 0), .proceed (.insert 0), .start,
      .startup 1, .proceed (.check 1), .proceed (.unlink 1), .proceed (.insert 1), .schedule]
    (by decide)
  exact ⟨s, hs, by simpa using hp, readyQueue_invariant hs⟩

/-- **Other uses break the ready queue**: a direct `rt_schedule_remove_thread` of a READY thread, and,
without direct calls, a second `rt_thread_resume` of a thread between the sections of the first. -/
theorem readyQueueOk_counterexample :
    (∃ s, (schedSystem (Fin 2) Unit).Reach System.anyStep s ∧ ¬ ReadyQueueOk s) ∧
    ∃ s, (schedSystem (Fin 2) Unit).Reach noDirectCall s ∧ ¬ ReadyQueueOk s := by
  constructor
  · obtain ⟨s, hs, hp⟩ := System.exists_reach (schedSystem (Fin 2) Unit) System.anyStep
      (fun s => (s.kernel.thread 0).stat = .ready ∧
        0 ∉ s.kernel.list (.ready (s.kernel.prioOf 0))) twoThreads_init
      [.startup 0, .proceed (.check 0), .proceed (.unlink 0), .proceed (.insert 0), .removeThread 0]
      (by decide)
    obtain ⟨hr, hn⟩ := of_decide_eq_true hp
    refine ⟨s, hs, fun h => hn ?_⟩
    exact List.count_pos_iff.mp (by rw [(h.ready 0 hr).1]; decide)
  · obtain ⟨s, hs, hp⟩ := System.exists_reach (schedSystem (Fin 2) Unit) noDirectCall
      (fun s => (s.kernel.thread 1).stat = .ready ∧
        (s.kernel.list (.ready (s.kernel.prioOf 1))).count 1 = 2) twoThreads_init
      [.startup 0, .proceed (.check 0), .proceed (.unlink 0), .proceed (.insert 0), .start,
        .startup 1, .proceed (.check 1), .proceed (.unlink 1),
        .resume 1, .proceed (.check 1), .proceed (.unlink 1), .proceed (.insert 1),
        .proceed (.insert 1)]
      (by decide +kernel)
    obtain ⟨hr, hn⟩ := of_decide_eq_true hp
    refine ⟨s, hs, fun h => ?_⟩
    have := (h.ready 1 hr).1
    rw [hn] at this
    omega

end RtThread
