import RtThread.Mutex.Inherit

/-!
# Priority inheritance and priority ceiling in every run

* `inheritOk`: no user priority change, no resume of a thread inside `_rt_mutex_take`, and every
  hand-over, clean-up and detach finds the state in which its shortcut is right;
* `mutexStep_exact`: such a step keeps the priorities exact;
* **`inheritance_invariant`**: every thread runs at the least of its initial priority and what it
  inherits, when no clean-up is to come;
* **`ceiling_invariant`**: the owner of a mutex is not below its ceiling.
-/

set_option linter.unusedSectionVars false

namespace RtThread

open Kernel

variable {T O : Type} [DecidableEq T] [DecidableEq O] {fuel : ℕ} {s s' : MutexState T O}

/-- No user priority change, and resumes as in `resumeOk`. -/
def keepsPriorities (s : MutexState T O) : MutexLabel T O → Bool
  | .changePriority _ _ => false
  | a => resumeOk s a

/-- The steps of `keepsPriorities` whose shortcuts are right. -/
def inheritOk (s : MutexState T O) (a : MutexLabel T O) : Bool :=
  keepsPriorities s a &&
    match a with
    | .takeResume => (s.kernel.currentThread).all fun c => (s.taking c).all fun m =>
        decide ((s.kernel.thread c).error = .eok) || s.kernel.leaveOk m c
    | .release m => decide ((s.kernel.object m).owner ≠ s.kernel.currentThread) ||
        decide ((s.kernel.object m).hold - 1 ≠ 0) || s.kernel.handOverOk m
    | .detachMutex m => s.kernel.detachOk m
    | .detachThread t => ((s.kernel.thread t).pendingObject).all fun m =>
        decide ((s.kernel.object m).type ≠ .mutex) || (s.kernel.listRemove t).leaveOk m t
    | _ => true

theorem inheritOk_resumeOk {a : MutexLabel T O} (h : inheritOk s a = true) : resumeOk s a = true := by
  unfold inheritOk at h
  have h1 := (Bool.and_eq_true_iff.mp h).1
  cases a <;> first | exact h1 | cases h1

/-- Every thread runs at the least of its initial priority and what it inherits; the priority of a
mutex is that of its most urgent waiter, 0xff when there is none. -/
structure InheritanceOk (k : Kernel T O) : Prop where
  prio : ∀ t, k.prioOf t =
    leastOver (k.thread t).initPriority k.inherited (k.thread t).takenObjectList
  none : ∀ m, (k.object m).type = .mutex → k.waiters m = [] → (k.object m).priority = 0xff
  least : ∀ m, (k.object m).type = .mutex → ∀ t ∈ k.waiters m, (k.object m).priority ≤ k.prioOf t
  attained : ∀ m, (k.object m).type = .mutex → k.waiters m ≠ [] →
    ∃ t ∈ k.waiters m, k.prioOf t = (k.object m).priority
  base : ∀ t, (k.thread t).takenObjectList = [] → k.prioOf t = (k.thread t).initPriority

/-- The owner of a mutex with a ceiling is not below it; a thread without mutexes has its base
priority. -/
structure CeilingOk (k : Kernel T O) : Prop where
  ceiling : ∀ t m, (k.object m).type = .mutex → (k.object m).owner = some t →
    (k.object m).ceilingPriority ≠ 0xff → k.prioOf t ≤ (k.object m).ceilingPriority
  base : ∀ t, (k.thread t).takenObjectList = [] → k.prioOf t = (k.thread t).initPriority

/-- No woken waiter has its clean-up in `_rt_mutex_take` to come. -/
def CleanedUp (s : MutexState T O) : Prop := ∀ t m, s.taking t = some m →
  (s.kernel.thread t).stat.isSuspend = true ∨ (s.kernel.thread t).error = .eok

theorem CleanedUp.settled (h : CleanedUp s) (hw : Wf s.kernel s.taking) {m : O}
    (hm : (s.kernel.object m).type = .mutex) : Settled s.kernel m := fun t ht => by
  have htk := (hw.pending t m ht).resolve_right (not_not.mpr hm)
  by_cases hs : (s.kernel.thread t).stat.isSuspend = true
  · exact (hw.suspended t m htk hs).1
  · rcases hw.woken t m htk hs with ⟨-, -, hp⟩ | ⟨he, -⟩
    · rw [ht] at hp; cases hp
    · exact absurd ((h t m htk).resolve_left hs) he

namespace Kernel

variable {k : Kernel T O}

theorem Exact.base (h : Exact k) (t : T) (ht : (k.thread t).takenObjectList = []) :
    k.prioOf t = (k.thread t).initPriority := by
  rw [h.prio t (by simp), threadGetMutexPriority_eq, ht]; rfl

theorem Exact.inheritanceOk (h : Exact k)
    (hs : ∀ m, (k.object m).type = .mutex → Settled k m) : InheritanceOk k := by
  have hhead : ∀ m, (k.object m).type = .mutex → (k.object m).priority = k.headPriority m :=
    fun m hm => h.mutex m hm (hs m hm) fun _ e => nomatch e
  refine ⟨fun t => ?_, fun m hm hw => ?_, fun m hm t ht => ?_, fun m hm hw => ?_, h.base⟩
  · rw [← threadGetMutexPriority_eq]; exact h.prio t (by simp)
  · rw [hhead m hm, headPriority, hw]
  · have hsort := h.sortedBy hm
    rw [hhead m hm, headPriority]
    cases hl : k.waiters m with
    | nil => rw [hl] at ht; cases ht
    | cons u l =>
      rw [hl] at ht hsort
      rcases List.mem_cons.mp ht with rfl | ht
      · exact le_rfl
      · exact (List.pairwise_cons.mp hsort).1 t ht
  · rw [hhead m hm, headPriority]
    cases hl : k.waiters m with
    | nil => exact absurd hl hw
    | cons u l => exact ⟨u, List.mem_cons_self, rfl⟩

theorem Exact.ceilingOk {taking : T → Option O} (h : Exact k) (hw : Wf k taking) :
    CeilingOk k := by
  refine ⟨fun t m hm ho _ => ?_, h.base⟩
  rw [h.prio t (by simp), threadGetMutexPriority_eq]
  exact (leastOver_le_of_mem ((hw.owned t m).mpr ⟨ho, hm⟩)).trans (min_le_right _ _)

end Kernel

/-! ## The steps -/

section
variable (h : MutexInv s) (he : Exact s.kernel)
include h he

theorem MutexInv.take_exact {m : O} {timeout : ℤ} {flag : SuspendFlag}
    (hs : mutexStep fuel s (.take m timeout flag) = some s') : Exact s'.kernel := by
  simp only [mutexStep] at hs
  split_ifs at hs with hm
  obtain ⟨c, hc, hs⟩ := Option.bind_eq_some_iff.mp hs
  obtain ⟨⟨r, k'⟩, hr, hs⟩ := Option.bind_eq_some_iff.mp hs
  obtain ⟨-, hrun, htc⟩ := MutexState.self_eq hc
  obtain ⟨k₀, hk₀⟩ : ∃ k₀, k₀ = s.kernel.setThread c fun th => { th with error := .eok } :=
    ⟨_, rfl⟩
  have h0 : Wf k₀ s.taking := hk₀ ▸
    (Keeps.setSelf h.wf hrun htc (fun th => { th with error := .eok }) fun _ => ⟨rfl, rfl, rfl⟩).wf
  have he0 : Exact k₀ := hk₀ ▸
    he.setThread c (fun th => { th with error := .eok }) fun _ => ⟨rfl, rfl, rfl, rfl⟩
  have hrun₀ : (k₀.thread c).stat = .running := by rw [hk₀, setThread_self]; exact hrun
  have herr₀ : (k₀.thread c).error = .eok := by rw [hk₀, setThread_self]
  have hobj₀ : k₀.object = s.kernel.object := by rw [hk₀]; rfl
  have hm₀ : (k₀.object m).type = .mutex := by rw [hobj₀]; exact hm
  have key : Exact k' := by
    rcases mutexTake_cases hr hk₀ with ⟨ho, -, hk'⟩ | ⟨-, -, rfl⟩ | ⟨-, -, rfl⟩ |
      ⟨o, ho, hoc, ⟨-, rfl⟩ | ⟨-, hk'⟩⟩
    · exact he0.mutexTakeFree h0 hrun₀ hm₀ (by rw [hobj₀]; exact ho) hk'
    · refine he0.same _ (fun _ => ⟨rfl, rfl, rfl, rfl⟩) (fun x => ?_) fun _ _ => rfl
      rw [setObject_apply]
      split_ifs with e
      · rw [e]; exact ⟨rfl, rfl, rfl⟩
      · exact ⟨rfl, rfl, rfl⟩
    · exact he0
    · exact he0.setThread c _ fun _ => ⟨rfl, rfl, rfl, rfl⟩
    · exact he0.mutexTakeWait h0 hrun₀ htc hm₀ flag (by rw [hobj₀]; exact ho) hoc herr₀ hk'
  cases r with
  | ret e =>
    cases hs
    unfold MutexState.takeReturns
    split_ifs <;> exact key
  | blocked => cases hs; exact key

theorem MutexInv.takeResume_exact (hok : inheritOk s .takeResume = true)
    (hs : mutexStep fuel s .takeResume = some s') : Exact s'.kernel := by
  obtain ⟨c, hc, hs⟩ := Option.bind_eq_some_iff.mp hs
  obtain ⟨m, htc, hs⟩ := Option.bind_eq_some_iff.mp hs
  split_ifs at hs with hrun
  obtain ⟨⟨e, k'⟩, hr, rfl⟩ := Option.map_eq_some_iff.mp hs
  have hleave : (s.kernel.thread c).error = .eok ∨ s.kernel.leaveOk m c = true := by
    have := (Bool.and_eq_true_iff.mp hok).2
    simpa [hc, htc] using this
  have key : Exact k' := he.mutexTakeResume h.wf hrun htc hleave hr
  unfold MutexState.takeReturns
  split_ifs <;> exact key

theorem MutexInv.release_exact {m : O} (hok : inheritOk s (.release m) = true)
    (hs : mutexStep fuel s (.release m) = some s') : Exact s'.kernel := by
  simp only [mutexStep] at hs
  split_ifs at hs with hm
  obtain ⟨c, hc, rfl⟩ := Option.map_eq_some_iff.mp hs
  obtain ⟨hcur, hrun, -⟩ := MutexState.self_eq hc
  obtain ⟨r, k', hr⟩ : ∃ r k', s.kernel.mutexRelease c m = (r, k') := ⟨_, _, rfl⟩
  have key : Exact k' := by
    rcases mutexRelease_cases hr with ⟨-, -, rfl⟩ | ⟨-, -, -, rfl⟩ | ⟨ho, -, h0, k₂, hk₂, hk'⟩
    · exact he.setThread c _ fun _ => ⟨rfl, rfl, rfl, rfl⟩
    · refine he.same _ (fun _ => ⟨rfl, rfl, rfl, rfl⟩) (fun x => ?_) fun _ _ => rfl
      rw [setObject_apply]
      split_ifs with e
      · rw [e]; exact ⟨rfl, rfl, rfl⟩
      · exact ⟨rfl, rfl, rfl⟩
    · have hho : s.kernel.handOverOk m = true := by
        have := (Bool.and_eq_true_iff.mp hok).2
        simpa [ho, hcur, h0] using this
      exact he.mutexReleaseLast h.wf hrun hm ho hho hk₂ hk'
  rw [hr]
  dsimp only
  split_ifs <;> exact key

/-- **A section of a resume in flight.** -/
theorem MutexInv.proceed_exact {a : Pending T} (hok : inheritOk s (.proceed a) = true)
    (hs : mutexStep fuel s (.proceed a) = some s') : Exact s'.kernel := by
  have hres := inheritOk_resumeOk hok
  simp only [mutexStep] at hs
  split_ifs at hs with ha
  cases hs
  cases a with
  | check t => exact he
  | unlink t =>
    simp only [resumeOk, Bool.and_eq_true, decide_eq_true_eq] at hres
    refine he.same _ (fun u => ?_) (fun _ => ⟨rfl, rfl, rfl⟩) fun m hm => ?_
    · change ((s.kernel.threadResumeUnlink t).thread u).currentPriority = _ ∧
        ((s.kernel.threadResumeUnlink t).thread u).initPriority = _ ∧
        ((s.kernel.threadResumeUnlink t).thread u).takenObjectList = _ ∧
        ((s.kernel.threadResumeUnlink t).thread u).pendingObject = _
      unfold threadResumeUnlink
      rw [setThread_apply]
      split_ifs with e
      · rw [e]; exact ⟨rfl, rfl, rfl, rfl⟩
      · exact ⟨rfl, rfl, rfl, rfl⟩
    · exact List.erase_of_not_mem (Keeps.not_mem_of_outside h.wf hres.1.2 hm)
  | insert t =>
    refine he.same _ (fun u => ?_) (fun m => ?_) fun m _ => scheduleInsertThread_waiters t m
    · change ((s.kernel.scheduleInsertThread t).thread u).currentPriority = _ ∧
        ((s.kernel.scheduleInsertThread t).thread u).initPriority = _ ∧
        ((s.kernel.scheduleInsertThread t).thread u).takenObjectList = _ ∧
        ((s.kernel.scheduleInsertThread t).thread u).pendingObject = _
      rw [scheduleInsertThread_thread, setThread_apply]
      split_ifs with e
      · rw [e]; exact ⟨rfl, rfl, rfl, rfl⟩
      · exact ⟨rfl, rfl, rfl, rfl⟩
    · change ((s.kernel.scheduleInsertThread t).object m).type = _ ∧
        ((s.kernel.scheduleInsertThread t).object m).priority = _ ∧
        ((s.kernel.scheduleInsertThread t).object m).ceilingPriority = _
      rw [scheduleInsertThread_object]; exact ⟨rfl, rfl, rfl⟩

end

section
variable {k : Kernel T O} (h : Exact k) (hk : Linked k) {c : T}
  (hc : (k.thread c).stat = .running)
include h hk hc

theorem Kernel.Exact.suspendSelf (flag : SuspendFlag) : Exact (k.suspendSelf c flag) := by
  refine h.same _ (fun u => ?_) (fun _ => ⟨rfl, rfl, rfl⟩)
    fun m _ => suspendSelf_waiters hk hc flag m
  unfold prioOf Kernel.suspendSelf
  rw [setThread_apply]
  split_ifs with e
  · rw [e]; exact ⟨rfl, rfl, rfl, rfl⟩
  · exact ⟨rfl, rfl, rfl, rfl⟩

theorem Kernel.Exact.threadSleep : Exact (k.threadSleep c).2 := by
  have hc1 : ((k.setThread c fun th => { th with error := .eok }).thread c).stat = .running := by
    rw [setThread_self]; exact hc
  have h1 := (h.setThread c (fun th => { th with error := .eok }) fun _ => ⟨rfl, rfl, rfl, rfl⟩).suspendSelf
    (hk.setThread c _ rfl) hc1 .interruptible
  unfold Kernel.threadSleep
  rw [threadSuspend_eq hc1]
  exact h1.setThread c (fun th => { th with threadTimer := true, error := .eintr })
    fun _ => ⟨rfl, rfl, rfl, rfl⟩

/-- Waiting on an object that is no mutex. -/
theorem Kernel.Exact.ipcWait {o : O} (ho : (k.object o).type ≠ .mutex) (timeout : ℤ)
    (flag : SuspendFlag) : Exact (k.ipcWait c o timeout flag).2 := by
  have hc1 : ((k.setThread c fun th => { th with error := .eintr }).thread c).stat = .running := by
    rw [setThread_self]; exact hc
  have h1 := h.setThread c (fun th => { th with error := .eintr }) fun _ => ⟨rfl, rfl, rfl, rfl⟩
  have hl1 : Linked (k.setThread c fun th => { th with error := .eintr }) := hk.setThread c _ rfl
  have h2 : Exact ((k.setThread c fun th => { th with error := .eintr }).suspendOn o c flag) := by
    refine (h1.suspendSelf hl1 hc1 flag).same _ (fun _ => ⟨rfl, rfl, rfl, rfl⟩)
      (fun _ => ⟨rfl, rfl, rfl⟩) fun m hm => ?_
    rw [suspendOn, ipcListInsert_waiters, if_neg]
    rintro rfl
    exact ho hm
  unfold Kernel.ipcWait
  dsimp only
  rw [ipcListSuspend_eq hc1]
  dsimp only
  split_ifs
  · exact h2.setThread c _ fun _ => ⟨rfl, rfl, rfl, rfl⟩
  · exact h2

end

/-- **Every step keeps the priorities exact.** -/
theorem mutexStep_exact {a : MutexLabel T O} (h : MutexInv s) (he : Exact s.kernel)
    (hok : inheritOk s a = true) (hs : mutexStep fuel s a = some s') : Exact s'.kernel := by
  cases a with
  | start =>
    simp only [mutexStep] at hs
    split_ifs at hs
    obtain ⟨k', hk', rfl⟩ := Option.map_eq_some_iff.mp hs
    exact he.dispatched (systemSchedulerStart_dispatched h.wf.linked hk')
  | schedule =>
    obtain ⟨k', hk', rfl⟩ := Option.map_eq_some_iff.mp hs
    exact he.dispatched (rtSchedule_dispatched h.wf.linked hk')
  | yield =>
    obtain ⟨c, -, rfl⟩ := Option.map_eq_some_iff.mp hs
    exact he.dispatched (threadYield_dispatched h.wf.linked c)
  | startup t =>
    simp only [mutexStep] at hs
    split_ifs at hs
    cases hs
    change Exact (s.kernel.threadStartupStore t)
    unfold threadStartupStore
    exact he.setThread t _ fun _ => ⟨rfl, rfl, rfl, rfl⟩
  | resume t => cases hs; exact he
  | proceed a => exact h.proceed_exact he hok hs
  | suspend flag =>
    obtain ⟨c, hc, rfl⟩ := Option.map_eq_some_iff.mp hs
    obtain ⟨-, hrun, -⟩ := MutexState.self_eq hc
    rw [threadSuspend_eq hrun]
    exact he.suspendSelf h.wf.linked hrun flag
  | sleep =>
    obtain ⟨c, hc, rfl⟩ := Option.map_eq_some_iff.mp hs
    exact he.threadSleep h.wf.linked (MutexState.self_eq hc).2.1
  | timeout t =>
    simp only [mutexStep] at hs
    split_ifs at hs
    cases hs
    change Exact (s.kernel.threadTimeout t)
    rw [threadTimeout_eq]
    exact he.wake (fun m hm ht => (h.wf.waiting t m hm ht).1) h.wf.linked _
        fun _ => ⟨rfl, rfl, rfl, rfl⟩
  | changePriority t p => cases hok
  | take m timeout flag => exact h.take_exact he hs
  | takeResume => exact h.takeResume_exact he hok hs
  | release m => exact h.release_exact he hok hs
  | setprioceiling m p =>
    simp only [mutexStep] at hs
    split_ifs at hs with hm
    obtain ⟨k', hk', rfl⟩ := Option.map_eq_some_iff.mp hs
    exact he.mutexSetprioceiling h.wf hm hk'
  | detachMutex m =>
    simp only [mutexStep] at hs
    split_ifs at hs with hm
    cases hs
    exact he.mutexDetach h.wf hm (Bool.and_eq_true_iff.mp hok).2
  | detachThread t =>
    obtain ⟨k', hk', rfl⟩ := Option.map_eq_some_iff.mp hs
    refine he.threadDetach h.wf (fun m hp hm => ?_) hk'
    have := (Bool.and_eq_true_iff.mp hok).2
    simpa [hp, hm] using this
  | ipcWait o timeout flag =>
    simp only [mutexStep] at hs
    split_ifs at hs with ho
    obtain ⟨c, hc, rfl⟩ := Option.map_eq_some_iff.mp hs
    exact he.ipcWait h.wf.linked (MutexState.self_eq hc).2.1 ho timeout flag
  | ipcWake o =>
    simp only [mutexStep] at hs
    split_ifs at hs
    obtain ⟨k', hk', rfl⟩ := Option.map_eq_some_iff.mp hs
    unfold ipcListResume at hk'
    split at hk'
    · cases hk'
    · next t l hl =>
      cases hk'
      have ht : t ∈ s.kernel.waiters o := by rw [waiters, hl]; exact List.mem_cons_self
      rw [ipcResumeThread_eq (h.wf.linked.suspend ht)]
      exact he.wake (fun m hm ht => (h.wf.waiting t m hm ht).1) h.wf.linked _
        fun _ => ⟨rfl, rfl, rfl, rfl⟩
  | eventWake o t =>
    simp only [mutexStep] at hs
    split_ifs at hs with ho
    cases hs
    rw [ipcResumeThread_eq (h.wf.linked.suspend ho.2)]
    exact he.wake (fun m hm ht => (h.wf.waiting t m hm ht).1) h.wf.linked _
        fun _ => ⟨rfl, rfl, rfl, rfl⟩

theorem MutexInit.exact (h : MutexInit s) : Exact s.kernel := by
  obtain ⟨priority, object, hk, hp, hobj⟩ := h.kernel
  have hle : ∀ t, (Kernel.initial priority object).prioOf t ≤ 0xff := fun t =>
    (hp t).le.trans (by decide)
  rw [hk]
  refine ⟨fun t _ => ?_, fun m hm _ _ => ?_, fun m _ => List.Pairwise.nil, fun t => ⟨hle t, hle t⟩,
    fun m hm => ?_⟩
  · rw [threadGetMutexPriority_eq]; rfl
  · change (object m).priority = 0xff
    rw [(hobj m).2 hm]; rfl
  · change (object m).priority ≤ 0xff ∧ (object m).ceilingPriority ≤ 0xff
    rw [(hobj m).2 hm]; exact ⟨le_rfl, le_rfl⟩

theorem exact_reach (hs : (mutexSystem T O fuel).Reach inheritOk s) :
    MutexInv s ∧ Exact s.kernel :=
  hs.invariant (I := fun s => MutexInv s ∧ Exact s.kernel) (fun _ (h : MutexInit _) => ⟨h.inv, h.exact⟩) fun _ _ _ h hok hst =>
    ⟨mutexStep_inv h.1 (inheritOk_resumeOk hok) hst, mutexStep_exact h.1 h.2 hok hst⟩

/-- **Priority inheritance in every run.** -/
theorem inheritance_invariant (hs : (mutexSystem T O fuel).Reach inheritOk s)
    (hc : CleanedUp s) : InheritanceOk s.kernel :=
  (exact_reach hs).2.inheritanceOk fun _ hm => hc.settled (exact_reach hs).1.wf hm

/-- **Priority ceiling in every run.** -/
theorem ceiling_invariant (hs : (mutexSystem T O fuel).Reach inheritOk s) : CeilingOk s.kernel :=
  (exact_reach hs).2.ceilingOk (exact_reach hs).1.wf

/-! ## The shortcut of the clean-up -/

/-- Three threads of priorities 20, 10 and 5, and two mutexes. -/
def twoMutexes : MutexState (Fin 3) Bool where
  kernel := .initial (fun t => if t = 0 then 20 else if t = 1 then 10 else 5) fun _ => .mutexInit
  taking _ := none
  resumes := []
  depth _ _ := 0
  returned := none
  waiting _ := none

theorem twoMutexes_init : MutexInit twoMutexes :=
  ⟨⟨_, _, rfl, by decide, fun _ => ⟨rfl, fun _ => rfl⟩⟩, fun _ => rfl, rfl, fun _ _ => rfl, rfl,
    fun _ => rfl⟩

/-- Thread 0 takes a mutex; thread 1 takes the other and then waits for the first. -/
def boostTrace : List (MutexLabel (Fin 3) Bool) :=
  [.startup 0] ++ resumeTrace 0 ++ [.start, .take false (-1) .uninterruptible, .startup 1] ++
    resumeTrace 1 ++ [.schedule, .take true (-1) .uninterruptible,
      .take false 1 .uninterruptible, .schedule]

/-- The owner runs at the priority of the waiter. -/
theorem inheritanceOk_witness : ∃ s, (mutexSystem (Fin 3) Bool 4).Reach inheritOk s ∧
    s.kernel.prioOf 0 = 10 ∧ InheritanceOk s.kernel := by
  obtain ⟨s, hs, hp⟩ := System.exists_reach (mutexSystem (Fin 3) Bool 4) inheritOk
    (fun s => s.kernel.prioOf 0 = 10 ∧ ∀ t m, s.taking t = some m →
      (s.kernel.thread t).stat.isSuspend = true ∨ (s.kernel.thread t).error = .eok)
    twoMutexes_init boostTrace (by decide)
  obtain ⟨hpr, hc⟩ := of_decide_eq_true hp
  exact ⟨s, hs, hpr, inheritance_invariant hs hc⟩

/-- **The clean-up skips an owner whose priority is out of date**: thread 1 times out, and thread 2
raises it before it can clean up. Thread 0 keeps the priority it inherited. -/
theorem inheritanceOk_counterexample : ∃ s, (mutexSystem (Fin 3) Bool 4).Reach keepsPriorities s ∧
    CleanedUp s ∧ ¬ InheritanceOk s.kernel := by
  obtain ⟨s, hs, hp⟩ := System.exists_reach (mutexSystem (Fin 3) Bool 4) keepsPriorities
    (fun s => (s.kernel.prioOf 0 = 10 ∧ (s.kernel.thread 0).initPriority = 20 ∧
        (s.kernel.thread 0).takenObjectList = [false] ∧ s.kernel.inherited false = 0xff) ∧
      ∀ t m, s.taking t = some m →
        (s.kernel.thread t).stat.isSuspend = true ∨ (s.kernel.thread t).error = .eok)
    twoMutexes_init (boostTrace ++ [.timeout 1, .startup 2] ++ resumeTrace 2 ++
      [.schedule, .take true (-1) .uninterruptible, .schedule, .takeResume]) (by decide +kernel)
  obtain ⟨⟨hpr, hin, htk, hinh⟩, hc⟩ := of_decide_eq_true hp
  refine ⟨s, hs, hc, fun h => ?_⟩
  have := h.prio 0
  rw [hpr, hin, htk, leastOver_cons, hinh] at this
  change 10 = min 0xff 20 at this
  exact absurd this (by decide)

/-! ## A hand-over to a thread below the ceiling -/

/-- The owner runs at the ceiling. -/
theorem ceilingOk_witness : ∃ s, (mutexSystem (Fin 2) Unit 4).Reach inheritOk s ∧
    s.kernel.prioOf 0 = 3 ∧ CeilingOk s.kernel := by
  obtain ⟨s, hs, hp⟩ := System.exists_reach (mutexSystem (Fin 2) Unit 4) inheritOk
    (fun s => s.kernel.prioOf 0 = 3) oneMutex_init
    (contendedTrace ++ [.setprioceiling () 3]) (by decide)
  exact ⟨s, hs, of_decide_eq_true hp, ceiling_invariant hs⟩

/-- **A thread that gets a mutex by hand-over is left below its ceiling.** -/
theorem ceilingOk_counterexample : ∃ s, (mutexSystem (Fin 2) Unit 4).Reach keepsPriorities s ∧
    ¬ CeilingOk s.kernel := by
  obtain ⟨s, hs, hp⟩ := System.exists_reach (mutexSystem (Fin 2) Unit 4) keepsPriorities
    (fun s => (s.kernel.object ()).type = .mutex ∧ (s.kernel.object ()).owner = some 1 ∧
      (s.kernel.object ()).ceilingPriority = 3 ∧ s.kernel.prioOf 1 = 5) oneMutex_init
    (contendedTrace ++ [.setprioceiling () 3, .release ()]) (by decide)
  obtain ⟨hm, ho, hce, hpr⟩ := of_decide_eq_true hp
  refine ⟨s, hs, fun h => ?_⟩
  have := h.ceiling 1 () hm ho (by rw [hce]; decide)
  rw [hce, hpr] at this
  exact absurd this (by decide)

end RtThread
