import RtThread.Kernel.Ffs
import RtThread.Kernel.Types

/-!
# The scheduler functions

`scheduler_up.c`, and the functions of `thread.c` that move a thread between the ready lists and the
suspended state. A function whose code has several critical sections is the composition of one
definition for each of them.

* `scheduleInsertThread`, `scheduleRemoveThread`, `threadChangePriority`;
* `threadSuspendWithFlag`, `threadResumeUnlink`, `resumeSection`, `threadResume`, `threadTimeout`;
* `schedulerGetHighestPriorityThread`, `switchTo`, `rtSchedule`;
* `threadStartupStore`, `threadYield`, `threadSleep`, `threadExit`, `systemSchedulerStart`.
-/

set_option linter.unusedSectionVars false

namespace RtThread

/-- `1 << current_priority`. -/
def priorityMask (p : ℕ) : BitVec 32 := 1#32 <<< p

/-- Write the priority attributes of a thread. -/
def Thread.writePriority {O : Type} (p : ℕ) (th : Thread O) : Thread O :=
  { th with currentPriority := p, numberMask := priorityMask p }

/-- The sections of `rt_thread_resume`: the test of the state, the unlinking, the insertion. -/
inductive Pending (T : Type) where
  | check (t : T) | unlink (t : T) | insert (t : T)
  deriving DecidableEq, Repr

instance {T : Type} [DecidableEq T] : LawfulBEq (Pending T) := inferInstance

namespace Kernel

variable {T O : Type} [DecidableEq T] [DecidableEq O] (k : Kernel T O)

/-- `rt_schedule_insert_thread`. -/
def scheduleInsertThread (t : T) : Kernel T O :=
  if k.currentThread = some t then
    k.setThread t fun th => { th with stat := .running }
  else
    { k.setThread t fun th => { th with stat := .ready } with
      list := if (k.thread t).yieldFlag then k.list.insertBeforeHead (.ready (k.prioOf t)) t
        else k.list.insertAfterHead (.ready (k.prioOf t)) t
      readyPriorityGroup := k.readyPriorityGroup ||| (k.thread t).numberMask }

/-- `rt_schedule_remove_thread`. -/
def scheduleRemoveThread (t : T) : Kernel T O :=
  { k.listRemove t with
    readyPriorityGroup :=
      if k.list.remove t (.ready (k.prioOf t)) = [] then
        k.readyPriorityGroup &&& ~~~(k.thread t).numberMask
      else k.readyPriorityGroup }

/-- `rt_thread_control` with `RT_THREAD_CTRL_CHANGE_PRIORITY`. -/
def threadChangePriority (t : T) (p : ℕ) : Kernel T O :=
  if (k.thread t).stat = .ready then
    ((k.scheduleRemoveThread t).setThread t (Thread.writePriority p)).scheduleInsertThread t
  else k.setThread t (Thread.writePriority p)

/-- `rt_thread_suspend_with_flag`; the thread is the calling one. -/
def threadSuspendWithFlag (t : T) (flag : SuspendFlag) : Err × Kernel T O :=
  if (k.thread t).stat = .ready ∨ (k.thread t).stat = .running then
    (.eok, (k.scheduleRemoveThread t).setThread t fun th =>
      { th with stat := .suspend flag, threadTimer := false })
  else (.error, k)

/-- The first critical section of `rt_thread_resume`. -/
def threadResumeUnlink (t : T) : Kernel T O :=
  (k.listRemove t).setThread t fun th => { th with threadTimer := false }

/-- A section of `rt_thread_resume`, with the section that follows it. -/
def resumeSection : Pending T → Kernel T O × List (Pending T)
  | .check t => (k, if (k.thread t).stat.isSuspend then [.unlink t] else [])
  | .unlink t => (k.threadResumeUnlink t, [.insert t])
  | .insert t => (k.scheduleInsertThread t, [])

/-- `rt_thread_resume` called with interrupts disabled. -/
def threadResume (t : T) : Err × Kernel T O :=
  if (k.thread t).stat.isSuspend then (.eok, (k.threadResumeUnlink t).scheduleInsertThread t)
  else (.error, k)

/-- `_thread_timeout`; `rt_timer_check` has taken the timer off its list. -/
def threadTimeout (t : T) : Kernel T O :=
  ((k.setThread t fun th => { th with error := .etimeout, threadTimer := false }).listRemove
    t).scheduleInsertThread t

/-- The store to `thread->stat` in `rt_thread_startup`, before it calls `rt_thread_resume`. -/
def threadStartupStore (t : T) : Kernel T O :=
  k.setThread t fun th =>
    { th with numberMask := priorityMask th.currentPriority, stat := .suspend .interruptible,
              yieldFlag := false }

/-- The critical section of `rt_thread_yield`. -/
def threadYield (t : T) : Kernel T O := k.setThread t fun th => { th with yieldFlag := true }

/-- `rt_thread_sleep` up to its `rt_schedule`. -/
def threadSleep (t : T) : Err × Kernel T O :=
  match (k.setThread t fun th => { th with error := .eok }).threadSuspendWithFlag t
      .interruptible with
  | (.eok, k) => (.eok, k.setThread t fun th => { th with threadTimer := true, error := .eintr })
  | r => r

/-- `rt_thread_defunct_enqueue`. -/
def threadDefunctEnqueue (t : T) : Kernel T O :=
  { k with list := k.list.insertAfterHead .defunct t }

/-- `_thread_exit` of the current thread `t`. -/
def threadExit (t : T) : Kernel T O :=
  ((k.scheduleRemoveThread t).setThread t fun th =>
    { th with threadTimer := false, stat := .close, yieldFlag := false }).threadDefunctEnqueue t

/-- `_scheduler_get_highest_priority_thread`. There is no result for an empty bitmap, where the code
indexes the table with -1, and for an empty list, where it takes the list head for a thread. -/
def schedulerGetHighestPriorityThread : Option (T × ℕ) :=
  if k.readyPriorityGroup = 0#32 then none
  else
    let highestReadyPriority := rtFfs k.readyPriorityGroup - 1
    match k.list (.ready highestReadyPriority) with
    | [] => none
    | t :: _ => some (t, highestReadyPriority)

/-- The part of `rt_schedule` that leaves `fromThread` for `toThread`. -/
def switchTo (fromThread toThread : T) (needInsertFromThread : Bool) : Kernel T O :=
  let k := { k with currentThread := some toThread }
  let k := if needInsertFromThread then k.scheduleInsertThread fromThread else k
  let k := k.setThread fromThread fun th => { th with yieldFlag := false }
  (k.scheduleRemoveThread toThread).setThread toThread fun th => { th with stat := .running }

/-- The current thread goes on running past a ready thread of priority `p`. -/
def staysCurrent (c : T) (p : ℕ) : Bool :=
  decide ((k.thread c).stat = .running) &&
    (decide (k.prioOf c < p) || (decide (k.prioOf c = p) && !(k.thread c).yieldFlag))

/-- `rt_schedule`. There is no result where the code would follow a null or wrong pointer. -/
def rtSchedule : Option (Kernel T O) :=
  if k.schedulerLockNest ≠ 0 then some k
  else if k.readyPriorityGroup = 0#32 then some k
  else do
    let (t, highest) ← k.schedulerGetHighestPriorityThread
    let c ← k.currentThread
    let toThread := if k.staysCurrent c highest then c else t
    if toThread ≠ c then
      some (k.switchTo c toThread
        (decide ((k.thread c).stat = .running) && !k.staysCurrent c highest))
    else
      some ((k.scheduleRemoveThread c).setThread c fun th => { th with stat := .running })

/-- `rt_system_scheduler_start`. -/
def systemSchedulerStart : Option (Kernel T O) := do
  let (t, _) ← k.schedulerGetHighestPriorityThread
  some (({ k with currentThread := some t }.scheduleRemoveThread t).setThread t fun th =>
    { th with stat := .running, yieldFlag := false })

/-! ## Projections -/

@[simp] theorem scheduleRemoveThread_thread (t : T) :
    (k.scheduleRemoveThread t).thread = k.thread := rfl

@[simp] theorem scheduleRemoveThread_object (t : T) :
    (k.scheduleRemoveThread t).object = k.object := rfl

@[simp] theorem scheduleRemoveThread_list (t : T) :
    (k.scheduleRemoveThread t).list = k.list.remove t := rfl

@[simp] theorem scheduleRemoveThread_current (t : T) :
    (k.scheduleRemoveThread t).currentThread = k.currentThread := rfl

@[simp] theorem scheduleRemoveThread_lockNest (t : T) :
    (k.scheduleRemoveThread t).schedulerLockNest = k.schedulerLockNest := rfl

@[simp] theorem threadDefunctEnqueue_thread (t : T) :
    (k.threadDefunctEnqueue t).thread = k.thread := rfl

@[simp] theorem threadDefunctEnqueue_object (t : T) :
    (k.threadDefunctEnqueue t).object = k.object := rfl

/-- The state an inserted thread gets. -/
def insertedStat (t : T) : Stat := if k.currentThread = some t then .running else .ready

@[simp] theorem scheduleInsertThread_thread (t : T) :
    (k.scheduleInsertThread t).thread =
      (k.setThread t fun th => { th with stat := k.insertedStat t }).thread := by
  unfold scheduleInsertThread insertedStat
  split_ifs <;> rfl

@[simp] theorem scheduleInsertThread_object (t : T) :
    (k.scheduleInsertThread t).object = k.object := by
  unfold scheduleInsertThread; split_ifs <;> rfl

@[simp] theorem scheduleInsertThread_current (t : T) :
    (k.scheduleInsertThread t).currentThread = k.currentThread := by
  unfold scheduleInsertThread; split_ifs <;> rfl

theorem scheduleInsertThread_list_of_current {t : T} (h : k.currentThread = some t) :
    (k.scheduleInsertThread t).list = k.list := by
  unfold scheduleInsertThread; rw [if_pos h]; rfl

/-- Inserting a thread other than the current one links it into the list of its priority. -/
theorem scheduleInsertThread_list {t : T} (h : k.currentThread ≠ some t) :
    ∃ l, l.Perm (t :: k.list (.ready (k.prioOf t))) ∧
      (k.scheduleInsertThread t).list = Function.update k.list (.ready (k.prioOf t)) l := by
  unfold scheduleInsertThread
  rw [if_neg h]
  dsimp only
  split_ifs
  · exact ⟨_, List.perm_append_singleton _ _, rfl⟩
  · exact ⟨_, .refl _, rfl⟩

theorem scheduleInsertThread_group {t : T} (h : k.currentThread ≠ some t) :
    (k.scheduleInsertThread t).readyPriorityGroup =
      k.readyPriorityGroup ||| (k.thread t).numberMask := by
  unfold scheduleInsertThread; rw [if_neg h]

theorem scheduleInsertThread_attrs (t u : T) :
    ((k.scheduleInsertThread t).thread u).attrs = (k.thread u).attrs := by
  rw [scheduleInsertThread_thread]; exact k.setThread_attrs t _ u fun _ => rfl

theorem switchTo_attrs (c t : T) (need : Bool) (u : T) :
    ((k.switchTo c t need).thread u).attrs = (k.thread u).attrs := by
  unfold switchTo
  dsimp only
  refine (setThread_attrs _ t (fun th => { th with stat := .running }) u fun _ => rfl).trans ?_
  rw [scheduleRemoveThread_thread]
  refine (setThread_attrs _ c (fun th => { th with yieldFlag := false }) u fun _ => rfl).trans ?_
  split_ifs
  · exact scheduleInsertThread_attrs _ c u
  · rfl

/-- The states of the threads after a switch. -/
theorem switchTo_stat {c t : T} (hct : t ≠ c) (need : Bool) (u : T) :
    ((k.switchTo c t need).thread u).stat = if u = t then .running
      else if u = c ∧ need = true then .ready else (k.thread u).stat := by
  have hcur : some t ≠ some c := fun e => hct (Option.some.inj e)
  unfold switchTo
  dsimp only
  by_cases hu : u = t
  · subst hu; simp
  · by_cases huc : u = c
    · subst huc
      cases need <;> simp [hu, insertedStat, hcur]
    · cases need <;> simp [hu, huc]

/-- A switch clears the yield flag of the thread it leaves, and no other. -/
theorem switchTo_yieldFlag (c t : T) (need : Bool) (u : T) :
    ((k.switchTo c t need).thread u).yieldFlag = if u = c then false else (k.thread u).yieldFlag := by
  have hrun : ∀ (k : Kernel T O) (f : Stat) v, ((k.setThread v fun th => { th with stat := f }).thread
      u).yieldFlag = (k.thread u).yieldFlag := fun k f v => by
    rw [setThread_apply]
    split_ifs with h
    · rw [h]
    · rfl
  unfold switchTo
  dsimp only
  rw [hrun, scheduleRemoveThread_thread, setThread_apply]
  by_cases hu : u = c
  · rw [if_pos hu, if_pos hu]
  · rw [if_neg hu, if_neg hu]
    cases need with
    | false => rfl
    | true =>
      rw [if_pos rfl, scheduleInsertThread_thread, hrun]

@[simp] theorem switchTo_current (c t : T) (need : Bool) :
    (k.switchTo c t need).currentThread = some t := by
  unfold switchTo; cases need <;> simp

@[simp] theorem switchTo_object (c t : T) (need : Bool) :
    (k.switchTo c t need).object = k.object := by
  unfold switchTo; cases need <;> simp

theorem group_ne_zero_of_highest {k : Kernel T O} {t : T} {p : ℕ}
    (h : k.schedulerGetHighestPriorityThread = some (t, p)) : k.readyPriorityGroup ≠ 0#32 :=
  fun h0 => by
    unfold schedulerGetHighestPriorityThread at h
    rw [if_pos h0] at h
    cases h

/-- **What `rt_schedule` can do.** Nothing, let the current thread go on, or leave it for the thread
at the head of the highest ready list. -/
theorem rtSchedule_cases {k k' : Kernel T O} (h : k.rtSchedule = some k') :
    ((k.schedulerLockNest ≠ 0 ∨ k.readyPriorityGroup = 0#32) ∧ k' = k) ∨
    ∃ c t p, k.schedulerLockNest = 0 ∧ k.readyPriorityGroup ≠ 0#32 ∧ k.currentThread = some c ∧
      k.schedulerGetHighestPriorityThread = some (t, p) ∧
      (((k.staysCurrent c p = true ∨ t = c) ∧
          k' = (k.scheduleRemoveThread c).setThread c fun th => { th with stat := .running }) ∨
        (k.staysCurrent c p = false ∧ t ≠ c ∧
          k' = k.switchTo c t (decide ((k.thread c).stat = .running)))) := by
  unfold rtSchedule at h
  split_ifs at h with h1 h2
  · exact .inl ⟨.inl h1, (Option.some.inj h).symm⟩
  · exact .inl ⟨.inr h2, (Option.some.inj h).symm⟩
  · obtain ⟨⟨t, p⟩, ht, h⟩ := Option.bind_eq_some_iff.mp h
    obtain ⟨c, hc, h⟩ := Option.bind_eq_some_iff.mp h
    refine .inr ⟨c, t, p, not_not.mp h1, h2, hc, ht, ?_⟩
    dsimp only at h
    cases hst : k.staysCurrent c p with
    | true =>
      rw [if_pos hst, if_neg (not_not.mpr rfl)] at h
      exact .inl ⟨.inl rfl, (Option.some.inj h).symm⟩
    | false =>
      simp only [hst, Bool.false_eq_true, if_false, Bool.not_false, Bool.and_true] at h
      by_cases htc : t = c
      · rw [if_neg (not_not.mpr htc)] at h
        exact .inl ⟨.inr htc, (Option.some.inj h).symm⟩
      · rw [if_pos htc] at h
        exact .inr ⟨rfl, htc, (Option.some.inj h).symm⟩

end Kernel

end RtThread
