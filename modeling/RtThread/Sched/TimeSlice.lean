import RtThread.Sched.Run

/-!
# Time slices

`rt_tick_increase` and `rt_thread_yield` mark the current thread with `RT_THREAD_STAT_YIELD`, and
`rt_schedule` looks at the mark. They are taken apart at their critical sections: the `rt_schedule` that
follows a mark is a step of its own. `asked` has no counterpart in the code, it says whether a thread has
yielded or used up its time slice since it was last switched in.

* `SliceState`, `SliceLabel`, `sliceStep`, `sliceSystem`;
* `SliceInv`: only the current thread can be marked, and it has asked for that;
* **`yield_fair`**: who is replaced by a thread of the same priority, and when a mark is left over.
-/

namespace RtThread

/-- The scheduler, with `remaining_tick` and `init_tick` of the threads. -/
structure SliceState (T O : Type) where
  sched : SchedState T O
  remainingTick : T → BitVec 32
  initTick : T → BitVec 32
  asked : T → Bool

/-- The section of `rt_tick_increase`, the section of `rt_thread_yield`, and the other operations. -/
inductive SliceLabel (T : Type) where
  | tick
  | yield
  | call (a : SchedLabel T)
  deriving DecidableEq, Repr

variable {T O : Type} [DecidableEq T] [DecidableEq O]

namespace SliceState

variable (s : SliceState T O)

/-- The current thread. -/
def current : Option T := s.sched.kernel.currentThread

/-- `remaining_tick` is reloaded, and the thread is marked. -/
def mark (c : T) : SliceState T O :=
  { s with
    sched := s.sched.withKernel (s.sched.kernel.threadYield c)
    remainingTick := Function.update s.remainingTick c (s.initTick c)
    asked := Function.update s.asked c true }

/-- `rt_tick_increase`, for the current thread. -/
def tickIncrease (c : T) : SliceState T O :=
  if s.remainingTick c - 1 = 0 then s.mark c
  else { s with remainingTick := Function.update s.remainingTick c (s.remainingTick c - 1) }

/-- The scheduler goes on; a thread that is switched in begins anew. -/
def withSched (d : SchedState T O) : SliceState T O :=
  { s with
    sched := d
    asked := fun t =>
      if d.kernel.currentThread = some t ∧ s.current ≠ some t then false else s.asked t }

end SliceState

/-- One step. `rt_thread_yield` has its own label. -/
def sliceStep (s : SliceState T O) : SliceLabel T → Option (SliceState T O)
  | .tick => s.current.map s.tickIncrease
  | .yield => s.current.map s.mark
  | .call a => if a = .yield then none else (schedStep s.sched a).map s.withSched

/-- The ready lists hold the READY threads, and no thread is marked. -/
structure SliceInit (s : SliceState T O) : Prop where
  sched : SchedInv s.sched.kernel
  pending : s.sched.pending = []
  clear : ∀ t, (s.sched.kernel.thread t).yieldFlag = false

/-- The scheduler and the clock as a system. -/
def sliceSystem (T O : Type) [DecidableEq T] [DecidableEq O] :
    System (SliceState T O) (SliceLabel T) := ⟨SliceInit, sliceStep⟩

/-- Ticks, yields and `rt_schedule` come at any time, the other operations as in `kernelUse`. -/
def sliceUse (s : SliceState T O) : SliceLabel T → Bool
  | .call a => kernelUse s.sched a
  | _ => true

/-- The invariant. -/
structure SliceInv (s : SliceState T O) : Prop where
  sched : SchedInv s.sched.kernel
  flag : ∀ t, (s.sched.kernel.thread t).yieldFlag = true → s.current = some t ∧ s.asked t = true

/-! ## Which operations change the marks -/

namespace Kernel

variable {k k' : Kernel T O}

theorem setThread_flag (t : T) (f : Thread O → Thread O)
    (hf : ∀ th, (f th).yieldFlag = true → th.yieldFlag = true) {u : T}
    (h : ((k.setThread t f).thread u).yieldFlag = true) : (k.thread u).yieldFlag = true := by
  rw [setThread_apply] at h
  split_ifs at h with hu
  · exact hu ▸ hf _ h
  · exact h

theorem scheduleInsertThread_flag (t : T) {u : T}
    (h : ((k.scheduleInsertThread t).thread u).yieldFlag = true) :
    (k.thread u).yieldFlag = true := by
  rw [scheduleInsertThread_thread] at h
  exact setThread_flag t (fun th => { th with stat := k.insertedStat t }) (fun _ h => h) h

theorem threadChangePriority_flag (t : T) (p : ℕ) {u : T}
    (h : ((k.threadChangePriority t p).thread u).yieldFlag = true) :
    (k.thread u).yieldFlag = true := by
  unfold threadChangePriority at h
  split_ifs at h
  · have h1 := scheduleInsertThread_flag t h
    exact setThread_flag t (Thread.writePriority p) (fun _ h => h) h1
  · exact setThread_flag t (Thread.writePriority p) (fun _ h => h) h

theorem resumeSection_flag (a : Pending T) {u : T}
    (h : ((k.resumeSection a).1.thread u).yieldFlag = true) : (k.thread u).yieldFlag = true := by
  cases a with
  | check t => exact h
  | unlink t => exact setThread_flag t (fun th => { th with threadTimer := false }) (fun _ h => h) h
  | insert t => exact scheduleInsertThread_flag t h

@[simp] theorem threadChangePriority_current (t : T) (p : ℕ) :
    (k.threadChangePriority t p).currentThread = k.currentThread := by
  unfold threadChangePriority
  split_ifs <;> simp

@[simp] theorem resumeSection_current (a : Pending T) :
    (k.resumeSection a).1.currentThread = k.currentThread := by
  cases a <;> simp [resumeSection, threadResumeUnlink]

/-- **`rt_schedule` marks no thread.** -/
theorem rtSchedule_flag (hs : k.rtSchedule = some k') {u : T}
    (h : (k'.thread u).yieldFlag = true) : (k.thread u).yieldFlag = true := by
  rcases rtSchedule_cases hs with ⟨-, rfl⟩ | ⟨c, t, p, -, -, -, -, ⟨-, rfl⟩ | ⟨-, -, rfl⟩⟩
  · exact h
  · exact setThread_flag c (fun th => { th with stat := .running }) (fun _ h => h) h
  · rw [switchTo_yieldFlag] at h
    split_ifs at h with hu
    exact h

/-- Where it switches, no thread is marked any more. -/
theorem rtSchedule_moved (hcur : ∀ t, (k.thread t).yieldFlag = true → k.currentThread = some t)
    (hs : k.rtSchedule = some k') (hmoved : k'.currentThread ≠ k.currentThread) (u : T) :
    (k'.thread u).yieldFlag = false := by
  rcases rtSchedule_cases hs with ⟨-, rfl⟩ | ⟨c, t, p, -, -, hc, -, ⟨-, rfl⟩ | ⟨-, -, rfl⟩⟩
  · exact absurd rfl hmoved
  · exact absurd rfl hmoved
  · rw [switchTo_yieldFlag]
    split_ifs with hu
    · rfl
    · exact Bool.eq_false_iff.mpr fun hflag =>
        hu (Option.some.inj (hc.symm.trans (hcur u hflag))).symm

end Kernel

section

variable {s s' : SchedState T O} {a : SchedLabel T}

/-- **No operation but a yield marks a thread.** -/
theorem schedStep_flag (ha : a ≠ .yield) (hs : schedStep s a = some s') {u : T}
    (h : (s'.kernel.thread u).yieldFlag = true) : (s.kernel.thread u).yieldFlag = true := by
  cases a with
  | insertThread t =>
    cases hs
    exact Kernel.scheduleInsertThread_flag t h
  | schedule =>
    simp only [schedStep] at hs
    split_ifs at hs
    obtain ⟨k', hk, rfl⟩ := Option.map_eq_some_iff.mp hs
    exact Kernel.rtSchedule_flag hk h
  | start =>
    simp only [schedStep] at hs
    split_ifs at hs
    obtain ⟨k', hk, rfl⟩ := Option.map_eq_some_iff.mp hs
    obtain ⟨⟨t, p⟩, -, hk⟩ := Option.bind_eq_some_iff.mp hk
    cases hk
    exact Kernel.setThread_flag (k := s.kernel) t
      (fun th => { th with stat := .running, yieldFlag := false })
      (fun _ h => absurd h Bool.false_ne_true) h
  | startup t =>
    simp only [schedStep] at hs
    split_ifs at hs
    cases hs
    exact Kernel.setThread_flag (k := s.kernel) t
      (fun th => { th with numberMask := priorityMask th.currentPriority
                           stat := .suspend .interruptible, yieldFlag := false })
      (fun _ h => absurd h Bool.false_ne_true) h
  | suspend flag =>
    obtain ⟨c, -, rfl⟩ := Option.map_eq_some_iff.mp hs
    change ((s.kernel.threadSuspendWithFlag c flag).2.thread u).yieldFlag = true at h
    unfold Kernel.threadSuspendWithFlag at h
    split_ifs at h
    · exact Kernel.setThread_flag (k := s.kernel) c
        (fun th => { th with stat := .suspend flag, threadTimer := false }) (fun _ h => h) h
    · exact h
  | proceed a =>
    simp only [schedStep] at hs
    split_ifs at hs
    cases hs
    exact Kernel.resumeSection_flag a h
  | yield => exact absurd rfl ha
  | exit =>
    obtain ⟨c, -, rfl⟩ := Option.map_eq_some_iff.mp hs
    exact Kernel.setThread_flag (k := s.kernel) c
      (fun th => { th with threadTimer := false, stat := .close, yieldFlag := false })
      (fun _ h => absurd h Bool.false_ne_true) h
  | changePriority t p =>
    cases hs
    exact Kernel.threadChangePriority_flag t p h
  | removeThread | resume | enterCritical | exitCritical =>
    cases hs
    exact h

/-- Only `rt_schedule` and `rt_system_scheduler_start` set `rt_current_thread`. -/
theorem schedStep_current (h1 : a ≠ .schedule) (h2 : a ≠ .start) (hs : schedStep s a = some s') :
    s'.kernel.currentThread = s.kernel.currentThread := by
  cases a with
  | schedule => exact absurd rfl h1
  | start => exact absurd rfl h2
  | insertThread t =>
    cases hs
    exact Kernel.scheduleInsertThread_current _ t
  | suspend flag =>
    obtain ⟨c, -, rfl⟩ := Option.map_eq_some_iff.mp hs
    change (s.kernel.threadSuspendWithFlag c flag).2.currentThread = _
    unfold Kernel.threadSuspendWithFlag
    split_ifs <;> rfl
  | proceed a =>
    simp only [schedStep] at hs
    split_ifs at hs
    cases hs
    exact Kernel.resumeSection_current a
  | changePriority t p =>
    cases hs
    exact Kernel.threadChangePriority_current t p
  | startup t =>
    simp only [schedStep] at hs
    split_ifs at hs
    cases hs
    rfl
  | yield | exit =>
    obtain ⟨c, -, rfl⟩ := Option.map_eq_some_iff.mp hs
    rfl
  | removeThread | resume | enterCritical | exitCritical =>
    cases hs
    rfl

/-- Where the current thread is another one, no thread is marked. -/
theorem schedStep_moved (hcur : ∀ t, (s.kernel.thread t).yieldFlag = true →
      s.kernel.currentThread = some t)
    (hs : schedStep s a = some s') (hmoved : s'.kernel.currentThread ≠ s.kernel.currentThread)
    (u : T) : (s'.kernel.thread u).yieldFlag = false := by
  by_cases h1 : a = .schedule
  · subst h1
    simp only [schedStep] at hs
    split_ifs at hs
    obtain ⟨k', hk, rfl⟩ := Option.map_eq_some_iff.mp hs
    exact Kernel.rtSchedule_moved hcur hk hmoved u
  by_cases h2 : a = .start
  · subst h2
    have hnone : s.kernel.currentThread = none := by
      simp only [schedStep] at hs
      split_ifs at hs with hnone
      exact hnone
    refine Bool.eq_false_iff.mpr fun hu => ?_
    have hc := hcur u (schedStep_flag (by simp) hs hu)
    rw [hnone] at hc
    cases hc
  · exact absurd (schedStep_current h1 h2 hs) hmoved

end

namespace SliceInv

variable {s s' : SliceState T O} {c t : T}

/-- The current thread is marked. -/
theorem mark (h : SliceInv s) (hc : s.current = some c) : SliceInv (s.mark c) where
  sched := by
    obtain ⟨hnot, hci⟩ := h.sched.current c hc
    exact h.sched.setThread hnot (fun th => { th with yieldFlag := true }) ⟨hnot, hci⟩
      (h.sched.started c hci) fun _ => rfl
  flag u hu := by
    by_cases huc : u = c
    · rw [huc]
      refine ⟨hc, ?_⟩
      show Function.update s.asked c true c = true
      rw [Function.update_self]
    · have hold : (s.sched.kernel.thread u).yieldFlag = true := by
        have hne := s.sched.kernel.setThread_of_ne huc fun th => { th with yieldFlag := true }
        rwa [← hne]
      exact absurd (Option.some.inj ((h.flag u hold).1.symm.trans hc)) huc

/-- **Every step keeps the invariant.** -/
theorem step (h : SliceInv s) {a : SliceLabel T} (hok : sliceUse s a = true)
    (hs : sliceStep s a = some s') : SliceInv s' := by
  cases a with
  | tick =>
    obtain ⟨c, hc, rfl⟩ := Option.map_eq_some_iff.mp hs
    unfold SliceState.tickIncrease
    split_ifs
    · exact h.mark hc
    · exact ⟨h.sched, h.flag⟩
  | yield =>
    obtain ⟨c, hc, rfl⟩ := Option.map_eq_some_iff.mp hs
    exact h.mark hc
  | call a =>
    simp only [sliceStep] at hs
    split_ifs at hs with ha
    obtain ⟨d, hd, rfl⟩ := Option.map_eq_some_iff.mp hs
    refine ⟨schedStep_inv h.sched hok hd, fun t ht => ?_⟩
    obtain ⟨hcur, hasked⟩ := h.flag t (schedStep_flag ha hd ht)
    have hsame : d.kernel.currentThread = s.current := by
      by_contra hmoved
      have hgone := schedStep_moved (fun t ht => (h.flag t ht).1) hd hmoved t
      exact Bool.false_ne_true (hgone.symm.trans ht)
    refine ⟨hsame.trans hcur, ?_⟩
    change (if d.kernel.currentThread = some t ∧ s.current ≠ some t then false else s.asked t) = true
    rw [if_neg fun hn => hn.2 hcur]
    exact hasked

end SliceInv

/-! ## `rt_schedule` -/

/-- A READY thread can replace the current thread, if that is marked. -/
def Served (k : Kernel T O) : Prop :=
  ∀ c, k.currentThread = some c → (k.thread c).yieldFlag = true →
    ∃ t, (k.thread t).stat = .ready ∧ ((k.thread c).stat = .running → k.prioOf t ≤ k.prioOf c)

namespace SchedInv

variable {k k' : Kernel T O} {c t : T}

/-- `rt_schedule` returns. -/
theorem rtSchedule_returns (h : SchedInv k) (hc : k.currentThread = some c) :
    ∃ k', k.rtSchedule = some k' := by
  unfold Kernel.rtSchedule
  by_cases hlock : k.schedulerLockNest ≠ 0
  · exact ⟨k, if_pos hlock⟩
  · rw [if_neg hlock]
    by_cases hg : k.readyPriorityGroup = 0#32
    · exact ⟨k, if_pos hg⟩
    · rw [if_neg hg]
      obtain ⟨t, ht, -⟩ := h.ready.highest hg
      rw [ht, hc]
      dsimp only [Option.bind_eq_bind, Option.bind_some]
      split_ifs <;> exact ⟨_, rfl⟩

/-- **The mark is gone after `rt_schedule`** exactly where it is served. -/
theorem rtSchedule_clear (h : SchedInv k)
    (hcur : ∀ t, (k.thread t).yieldFlag = true → k.currentThread = some t)
    (h0 : k.schedulerLockNest = 0) (hs : k.rtSchedule = some k') :
    (∀ t, (k'.thread t).yieldFlag = false) ↔ Served k := by
  rcases Kernel.rtSchedule_cases hs with ⟨h1, rfl⟩ | ⟨c, t, p, -, hg, hc, ht, hk⟩
  · -- no thread is READY
    have hnone := h.ready.none_of_group (h1.resolve_left (not_not.mpr h0))
    constructor
    · intro hall c _ hflag
      rw [hall c] at hflag
      cases hflag
    · intro hserved u
      by_contra hu
      have hflag := Bool.eq_true_of_not_eq_false hu
      obtain ⟨t, hready, -⟩ := hserved u (hcur u hflag) hflag
      exact hnone t hready
  · obtain ⟨t', ht', hready, hmin⟩ := h.ready.highest hg
    obtain ⟨rfl, rfl⟩ := Prod.mk.inj (Option.some.inj (ht.symm.trans ht'))
    have hnot := (h.current c hc).1
    have htc : t ≠ c := fun he => hnot (he ▸ hready)
    rcases hk with ⟨hst, rfl⟩ | ⟨hst, -, rfl⟩
    · -- the current thread goes on
      have hstay := hst.resolve_right htc
      simp only [Kernel.staysCurrent, Bool.and_eq_true, Bool.or_eq_true, decide_eq_true_eq,
        Bool.not_eq_true'] at hstay
      obtain ⟨hrun, hprio⟩ := hstay
      have hsame : ∀ u, (((k.scheduleRemoveThread c).setThread c fun th =>
          { th with stat := .running }).thread u).yieldFlag = (k.thread u).yieldFlag := fun u => by
        rw [Kernel.setThread_apply]
        split_ifs with hu
        · rw [hu]
          rfl
        · rfl
      constructor
      · intro hall d hd hflag
        rw [← hsame d, hall d] at hflag
        cases hflag
      · intro hserved u
        rw [hsame]
        by_contra hu
        have hflag := Bool.eq_true_of_not_eq_false hu
        obtain rfl : c = u := Option.some.inj (hc.symm.trans (hcur u hflag))
        obtain ⟨v, hv, hle⟩ := hserved c hc hflag
        rcases hprio with hlt | ⟨-, hclear⟩
        · exact absurd (hlt.trans_le ((hmin v hv).trans (hle hrun))) (lt_irrefl _)
        · rw [hflag] at hclear
          cases hclear
    · -- the current thread is left
      have hgone : ∀ u, ((k.switchTo c t (decide ((k.thread c).stat = .running))).thread
          u).yieldFlag = false := fun u => by
        rw [Kernel.switchTo_yieldFlag]
        split_ifs with hu
        · rfl
        · exact Bool.eq_false_iff.mpr fun hflag =>
            hu (Option.some.inj (hc.symm.trans (hcur u hflag))).symm
      refine ⟨fun _ d hd hflag => ⟨t, hready, fun hrun => ?_⟩, fun _ => hgone⟩
      obtain rfl : c = d := Option.some.inj (hc.symm.trans hd)
      simp only [Kernel.staysCurrent, hrun, decide_true, Bool.true_and, Bool.or_eq_false_iff,
        decide_eq_false_iff_not] at hst
      exact Nat.le_of_not_lt hst.1

end SchedInv

/-- **Only a marked thread is replaced by one of its priority.** -/
theorem schedStep_replaced {s s' : SchedState T O} {a : SchedLabel T} (h : SchedInv s.kernel)
    (hs : schedStep s a = some s') {c t : T} (hc : s.kernel.currentThread = some c)
    (hrun : (s.kernel.thread c).stat = .running) (ht : s'.kernel.currentThread = some t)
    (htc : t ≠ c) (hp : s.kernel.prioOf t = s.kernel.prioOf c) :
    (s.kernel.thread c).yieldFlag = true := by
  have hmoved : s'.kernel.currentThread ≠ s.kernel.currentThread := fun he =>
    htc (Option.some.inj (ht.symm.trans (he.trans hc)))
  by_cases h1 : a = .schedule
  · subst h1
    simp only [schedStep] at hs
    split_ifs at hs
    obtain ⟨k', hk, rfl⟩ := Option.map_eq_some_iff.mp hs
    rcases Kernel.rtSchedule_cases hk with ⟨-, rfl⟩ | ⟨d, u, p, -, hg, hd, hu, hcase⟩
    · exact absurd rfl hmoved
    · rcases hcase with ⟨-, rfl⟩ | ⟨hst, -, rfl⟩
      · exact absurd rfl hmoved
      · obtain ⟨u', hu', -, -⟩ := h.ready.highest hg
        obtain ⟨rfl, rfl⟩ := Prod.mk.inj (Option.some.inj (hu.symm.trans hu'))
        obtain rfl : c = d := Option.some.inj (hc.symm.trans hd)
        obtain rfl : u = t := Option.some.inj ((Kernel.switchTo_current ..).symm.trans ht)
        by_contra hflag
        have hclear := Bool.eq_false_of_not_eq_true hflag
        simp [Kernel.staysCurrent, hrun, hp, hclear] at hst
  by_cases h2 : a = .start
  · subst h2
    simp only [schedStep] at hs
    rw [if_neg (by rw [hc]; exact Option.some_ne_none c)] at hs
    cases hs
  · exact absurd (schedStep_current h1 h2 hs) hmoved

/-- **The yield flag.** In every run, with ticks, yields and `rt_schedule` at any time: a running thread
is replaced by another one of its priority only if it has yielded or used up its time slice since it was
switched in. And an `rt_schedule` with no scheduler lock leaves no thread marked exactly if the mark is
served. -/
theorem yield_fair {s : SliceState T O} (hs : (sliceSystem T O).Reach sliceUse s) :
    (∀ {a s' c t}, sliceStep s a = some s' → s.current = some c →
      (s.sched.kernel.thread c).stat = .running → s'.current = some t → t ≠ c →
      s.sched.kernel.prioOf t = s.sched.kernel.prioOf c → s.asked c = true) ∧
    ∀ c, s.current = some c → s.sched.kernel.schedulerLockNest = 0 →
      ∃ s', sliceStep s (.call .schedule) = some s' ∧
        ((∀ t, (s'.sched.kernel.thread t).yieldFlag = false) ↔ Served s.sched.kernel) := by
  have h : SliceInv s := by
    refine hs.invariant (fun s hs => ⟨hs.sched, fun t ht => ?_⟩) fun _ _ _ hI hok hst => hI.step hok hst
    exact absurd ((hs.clear t).symm.trans ht) Bool.false_ne_true
  have hcur : ∀ t, (s.sched.kernel.thread t).yieldFlag = true → s.current = some t :=
    fun t ht => (h.flag t ht).1
  constructor
  · intro a s' c t hst hc hrun ht htc hp
    have hmoved : s'.current ≠ s.current := fun he =>
      htc (Option.some.inj (ht.symm.trans (he.trans hc)))
    cases a with
    | tick =>
      obtain ⟨d, -, rfl⟩ := Option.map_eq_some_iff.mp hst
      refine absurd ?_ hmoved
      unfold SliceState.tickIncrease
      split_ifs <;> rfl
    | yield =>
      obtain ⟨d, -, rfl⟩ := Option.map_eq_some_iff.mp hst
      exact absurd rfl hmoved
    | call a =>
      simp only [sliceStep] at hst
      split_ifs at hst
      obtain ⟨d, hd, rfl⟩ := Option.map_eq_some_iff.mp hst
      exact (h.flag c (schedStep_replaced h.sched hd hc hrun ht htc hp)).2
  · intro c hc h0
    obtain ⟨k', hk⟩ := h.sched.rtSchedule_returns hc
    have hsome : s.sched.kernel.currentThread ≠ none := by
      intro hnone
      rw [SliceState.current, hnone] at hc
      cases hc
    refine ⟨s.withSched (s.sched.withKernel k'), ?_, h.sched.rtSchedule_clear hcur h0 hk⟩
    simp only [sliceStep, schedStep]
    rw [if_neg (by simp), if_neg hsome, hk]
    rfl

/-- Two threads of priority 10, one with a time slice of two ticks and one of a tick. -/
def twoSlices : SliceState (Fin 2) Unit where
  sched := ⟨Kernel.initial (fun _ => 10) fun _ => .mutexInit, []⟩
  remainingTick t := if t = 0 then 2 else 1
  initTick t := if t = 0 then 2 else 1
  asked _ := false

theorem twoSlices_init : SliceInit twoSlices where
  sched := SchedInit.inv (s := twoSlices.sched)
    { list := fun _ => rfl, group := rfl, current := rfl, stat := fun _ => rfl, mask := fun _ => rfl
      bound := by decide, pending := rfl }
  pending := rfl
  clear _ := rfl

/-- Thread 0 uses up its time slice, and then thread 1 does. -/
theorem yield_fair_two : ∃ s, (sliceSystem (Fin 2) Unit).Reach sliceUse s ∧ s.asked 1 = true ∧
    ∃ s', sliceStep s (.call .schedule) = some s' ∧
      ((∀ t, (s'.sched.kernel.thread t).yieldFlag = false) ↔ Served s.sched.kernel) := by
  obtain ⟨s, hs, hp⟩ := System.exists_reach (sliceSystem (Fin 2) Unit) sliceUse
    (fun s => s.current = some 1 ∧ (s.sched.kernel.thread 1).stat = .running ∧
      s.sched.kernel.schedulerLockNest = 0 ∧ s.sched.kernel.prioOf 0 = s.sched.kernel.prioOf 1 ∧
      ((sliceStep s (.call .schedule)).any fun s' => s'.current = some 0) = true) twoSlices_init
    ([.startup 0, .proceed (.check 0), .proceed (.unlink 0), .proceed (.insert 0), .startup 1,
      .proceed (.check 1), .proceed (.unlink 1), .proceed (.insert 1), .start].map .call ++
      [.tick, .call .schedule, .tick, .tick, .call .schedule, .tick])
    (by decide)
  obtain ⟨hc, hrun, h0, hprio, hnext⟩ := of_decide_eq_true hp
  obtain ⟨s', hst, ht⟩ := (Option.any_eq_true _ _).mp hnext
  obtain ⟨h1, h2⟩ := yield_fair hs
  exact ⟨s, hs, h1 hst hc hrun (of_decide_eq_true ht) (by decide) hprio, h2 1 hc h0⟩

/-- A thread yields while no other is ready: it stays marked. -/
theorem yield_left_over : ∃ s s', (sliceSystem (Fin 2) Unit).Reach sliceUse s ∧
    s.sched.kernel.schedulerLockNest = 0 ∧ sliceStep s (.call .schedule) = some s' ∧
    ¬∀ t, (s'.sched.kernel.thread t).yieldFlag = false := by
  obtain ⟨s, hs, hp⟩ := System.exists_reach (sliceSystem (Fin 2) Unit) sliceUse
    (fun s => s.sched.kernel.schedulerLockNest = 0 ∧
      ((sliceStep s (.call .schedule)).any fun s' => (s'.sched.kernel.thread 0).yieldFlag) = true)
    twoSlices_init
    ([.startup 0, .proceed (.check 0), .proceed (.unlink 0), .proceed (.insert 0), .start].map .call ++
      [.yield])
    (by decide)
  obtain ⟨h0, hnext⟩ := of_decide_eq_true hp
  obtain ⟨s', hst, ht⟩ := (Option.any_eq_true _ _).mp hnext
  refine ⟨s, s', hs, h0, hst, fun hall => ?_⟩
  rw [hall 0] at ht
  cases ht

end RtThread
