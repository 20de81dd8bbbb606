import RtThread.Kernel.Linked
import RtThread.Lib.Links
import RtThread.Lib.System

/-!
# Resuming a thread under interrupts

`rt_thread_resume` down to the links of the lists. Its test of the state, its removal from the suspend
list and `rt_schedule_insert_thread` are sections of their own; between two of them interrupt handlers
may resume the thread, let its timer expire or start it.

* `LinkKernel` and its functions; `LinkKernel.Refines p k`: the links stand for the lists of `k`, with a
  lemma for each function;
* `ResumeState`, `resumeStep`: a stack of interrupted calls of `rt_thread_resume`;
* **`resume_atomic`**: in every run in which no insertion finds the thread linked, the lists stay well
  formed and the thread ends up in one ready list, once; `resume_broken`: a run in which one does.
-/

set_option linter.unusedSectionVars false

namespace RtThread

open Kernel

/-- The threads, the links of their lists, the bitmap and the current thread. -/
structure LinkKernel (T O : Type) where
  thread : T → Thread O
  links : Links (Head O ⊕ T)
  readyPriorityGroup : BitVec 32
  currentThread : Option T

variable {T O : Type} [DecidableEq T] [DecidableEq O]

namespace LinkKernel

variable (p : LinkKernel T O)

/-- Write to a thread. -/
def setThread (t : T) (f : Thread O → Thread O) : LinkKernel T O :=
  { p with thread := Function.update p.thread t (f (p.thread t)) }

/-- `rt_list_remove` of a thread's `tlist`. -/
def listRemove (t : T) : LinkKernel T O := { p with links := p.links.remove (.inr t) }

/-- `rt_schedule_insert_thread`. -/
def scheduleInsertThread (t : T) : LinkKernel T O :=
  if p.currentThread = some t then
    p.setThread t fun th => { th with stat := .running }
  else
    { p.setThread t fun th => { th with stat := .ready } with
      links := if (p.thread t).yieldFlag then
          p.links.insertBefore (.inl (.ready (p.thread t).currentPriority)) (.inr t)
        else p.links.insertAfter (.inl (.ready (p.thread t).currentPriority)) (.inr t)
      readyPriorityGroup := p.readyPriorityGroup ||| (p.thread t).numberMask }

/-- The first critical section of `rt_thread_resume`. -/
def threadResumeUnlink (t : T) : LinkKernel T O :=
  (p.listRemove t).setThread t fun th => { th with threadTimer := false }

/-- `_thread_timeout`; `rt_timer_check` has taken the timer off its list. -/
def threadTimeout (t : T) : LinkKernel T O :=
  ((p.setThread t fun th => { th with error := .etimeout, threadTimer := false }).listRemove
    t).scheduleInsertThread t

/-- The store to `thread->stat` in `rt_thread_startup`, before it calls `rt_thread_resume`. -/
def threadStartupStore (t : T) : LinkKernel T O :=
  p.setThread t fun th =>
    { th with numberMask := priorityMask th.currentPriority, stat := .suspend .interruptible,
              yieldFlag := false }

/-- A section of `rt_thread_resume`, with the section that follows it. -/
def resumeSection : Pending T → LinkKernel T O × List (Pending T)
  | .check t => (p, if (p.thread t).stat.isSuspend then [.unlink t] else [])
  | .unlink t => (p.threadResumeUnlink t, [.insert t])
  | .insert t => (p.scheduleInsertThread t, [])

/-- **The links stand for the lists of the kernel `k`.** -/
structure Refines (p : LinkKernel T O) (k : Kernel T O) : Prop where
  thread : p.thread = k.thread
  links : Represents p.links k.list
  group : p.readyPriorityGroup = k.readyPriorityGroup
  current : p.currentThread = k.currentThread

namespace Refines

variable {p : LinkKernel T O} {k : Kernel T O} {t : T}

theorem setThread (h : Refines p k) (t : T) (f : Thread O → Thread O) :
    Refines (p.setThread t f) (k.setThread t f) :=
  ⟨by rw [LinkKernel.setThread, h.thread]; rfl, h.links, h.group, h.current⟩

theorem listRemove (h : Refines p k) (t : T) : Refines (p.listRemove t) (k.listRemove t) :=
  ⟨h.thread, h.links.remove t, h.group, h.current⟩

/-- **Inserting a thread that is on no list.** -/
theorem scheduleInsertThread (h : Refines p k) (ht : Unlinked k t) :
    Refines (p.scheduleInsertThread t) (k.scheduleInsertThread t) := by
  unfold LinkKernel.scheduleInsertThread Kernel.scheduleInsertThread
  rw [h.current]
  by_cases hc : k.currentThread = some t
  · rw [if_pos hc, if_pos hc]
    exact h.setThread t _
  · have hset := h.setThread t fun th => { th with stat := .ready }
    rw [if_neg hc, if_neg hc]
    refine ⟨hset.thread, ?_, ?_, hset.current⟩
    · dsimp only
      rw [h.thread]
      by_cases hy : (k.thread t).yieldFlag = true
      · rw [if_pos hy, if_pos hy]
        exact h.links.insertBefore ht _
      · rw [if_neg hy, if_neg hy]
        exact h.links.insertAfter ht _
    · dsimp only
      rw [h.group, h.thread]

theorem threadResumeUnlink (h : Refines p k) (t : T) :
    Refines (p.threadResumeUnlink t) (k.threadResumeUnlink t) := (h.listRemove t).setThread t _

theorem threadTimeout (h : Refines p k) (hk : Linked k) (t : T) :
    Refines (p.threadTimeout t) (k.threadTimeout t) :=
  ((h.setThread t _).listRemove t).scheduleInsertThread (hk.unlinked_listRemove t)

theorem threadStartupStore (h : Refines p k) (t : T) :
    Refines (p.threadStartupStore t) (k.threadStartupStore t) := h.setThread t _

/-- A thread that is linked to itself is on no list. -/
theorem unlinked (h : Refines p k) (ht : p.links.next (.inr t) = .inr t) : Unlinked k t :=
  fun _ hm => h.links.next_ne hm ht

end Refines

end LinkKernel

/-! ## The system -/

/-- The kernel, and the interrupted calls of `rt_thread_resume`, the innermost first, each with its
next section. -/
structure ResumeState (T O : Type) where
  kernel : LinkKernel T O
  stack : List (Pending T)

/-- The innermost call goes on, or a handler interrupts it. -/
inductive ResumeLabel where
  | proceed
  | resume
  | timeout
  | startup
  deriving DecidableEq, Repr

variable (t : T)

/-- One step around the thread `t`; `_thread_timeout` and `rt_thread_startup` assert its state. -/
def resumeStep (s : ResumeState T O) : ResumeLabel → Option (ResumeState T O)
  | .proceed =>
    match s.stack with
    | [] => none
    | a :: rest => some ⟨(s.kernel.resumeSection a).1, (s.kernel.resumeSection a).2 ++ rest⟩
  | .resume => some { s with stack := .check t :: s.stack }
  | .timeout =>
    if (s.kernel.thread t).threadTimer = true ∧ (s.kernel.thread t).stat.isSuspend = true then
      some { s with kernel := s.kernel.threadTimeout t }
    else none
  | .startup =>
    if (s.kernel.thread t).stat = .init then
      some ⟨s.kernel.threadStartupStore t, .check t :: s.stack⟩
    else none

/-- A call of `rt_thread_resume` for a thread that is suspended or not started, with well-formed
lists. -/
structure ResumeInit (s : ResumeState T O) : Prop where
  lists : ∃ k, s.kernel.Refines k ∧ Linked k
  stat : (s.kernel.thread t).stat.isSuspend = true ∨ (s.kernel.thread t).stat = .init
  stack : s.stack = [.check t]

/-- The resume as a system. -/
def resumeSystem (T O : Type) [DecidableEq T] [DecidableEq O] (t : T) :
    System (ResumeState T O) ResumeLabel where
  init := ResumeInit t
  step := resumeStep t

/-- A step that inserts the thread finds it linked to itself; it is not the current thread, which is
set RUNNING instead. -/
def threadResumeOk (s : ResumeState T O) : ResumeLabel → Bool
  | .proceed =>
    match s.stack with
    | .insert u :: _ => s.kernel.links.next (.inr u) = .inr u ∧ s.kernel.currentThread ≠ some u
    | _ => true
  | .timeout => s.kernel.currentThread ≠ some t
  | _ => true

/-- The lists are well formed, and when no call is left, a thread that is started is READY and on one
ready list, once. -/
def ResumeAtomic (s : ResumeState T O) : Prop :=
  ∃ q, Represents s.kernel.links q ∧ (s.stack = [] → (s.kernel.thread t).stat ≠ .init →
    (s.kernel.thread t).stat = .ready ∧
      (q (.ready (s.kernel.thread t).currentPriority)).count t = 1 ∧
      ∀ h, t ∈ q h → h = .ready (s.kernel.thread t).currentPriority)

/-- Where the thread is in the middle of the calls. -/
def ResumePlace (k : Kernel T O) (stack : List (Pending T)) : Prop :=
  (k.thread t).stat = .init ∨ ((k.thread t).stat.isSuspend = true ∧ stack ≠ []) ∨
    ((k.thread t).stat = .ready ∧
      (t ∈ k.list (.ready (k.prioOf t)) ∨ (Unlinked k t ∧ .insert t ∈ stack)))

/-- The invariant of the resume; every interrupted call is one for `t`. -/
def ResumeInv (s : ResumeState T O) : Prop :=
  (∃ k, s.kernel.Refines k ∧ Linked k ∧ ResumePlace t k s.stack) ∧
    ∀ a ∈ s.stack, a = .check t ∨ a = .unlink t ∨ a = .insert t

variable {t} {s s' : ResumeState T O} {k : Kernel T O} {stack : List (Pending T)}

/-- **An insertion** makes the thread READY, on the list of its priority. -/
theorem ResumePlace.insert (hc : k.currentThread ≠ some t) :
    ResumePlace t (k.scheduleInsertThread t) stack := by
  obtain ⟨l, hl, hlist⟩ := k.scheduleInsertThread_list hc
  have hprio : (k.scheduleInsertThread t).prioOf t = k.prioOf t :=
    congrArg (·.1) (k.scheduleInsertThread_attrs t t)
  refine .inr (.inr ⟨?_, .inl ?_⟩)
  · simp [insertedStat, hc]
  · rw [hprio, hlist, Function.update_self]
    exact hl.symm.subset List.mem_cons_self

/-- A longer stack. -/
theorem ResumePlace.push (h : ResumePlace t k stack) (a : Pending T) :
    ResumePlace t k (a :: stack) := by
  rcases h with h | ⟨h, -⟩ | ⟨h, h'⟩
  · exact .inl h
  · exact .inr (.inl ⟨h, List.cons_ne_nil _ _⟩)
  · exact .inr (.inr ⟨h, h'.imp_right fun h' => ⟨h'.1, List.mem_cons_of_mem _ h'.2⟩⟩)

/-- **A section of the innermost call.** -/
theorem ResumeInv.proceed (h : ResumeInv t s) (hok : threadResumeOk t s .proceed = true)
    (hs : resumeStep t s .proceed = some s') : ResumeInv t s' := by
  obtain ⟨⟨k, hr, hk, hp⟩, ha⟩ := h
  obtain ⟨p, stack⟩ := s
  dsimp only at hr hp ha
  cases stack with
  | nil => cases hs
  | cons a rest =>
    cases hs
    have hrest : ∀ b ∈ rest, b = .check t ∨ b = .unlink t ∨ b = .insert t := fun b hb =>
      ha b (List.mem_cons_of_mem _ hb)
    rcases ha a List.mem_cons_self with rfl | rfl | rfl
    · -- the test: a call for a suspended thread goes on
      simp only [LinkKernel.resumeSection, hr.thread]
      by_cases hsus : (k.thread t).stat.isSuspend = true
      · rw [if_pos hsus]
        refine ⟨⟨k, hr, hk, .inr (.inl ⟨hsus, List.cons_ne_nil _ _⟩)⟩, fun b hb => ?_⟩
        rcases List.mem_cons.mp hb with rfl | hb
        · exact .inr (.inl rfl)
        · exact hrest b hb
      · rw [if_neg hsus]
        refine ⟨⟨k, hr, hk, ?_⟩, hrest⟩
        rcases hp with hp | ⟨hp, -⟩ | ⟨hp, hp'⟩
        · exact .inl hp
        · exact absurd hp hsus
        · exact .inr (.inr ⟨hp, hp'.imp_right fun hp' => ⟨hp'.1, by simpa using hp'.2⟩⟩)
    · -- the removal
      simp only [LinkKernel.resumeSection]
      refine ⟨⟨_, hr.threadResumeUnlink t, (hk.unlink t).setThread t _ rfl, ?_⟩, fun b hb => ?_⟩
      · have hstat : ((k.threadResumeUnlink t).thread t).stat = (k.thread t).stat := by
          rw [Kernel.threadResumeUnlink, setThread_self]
          rfl
        rw [ResumePlace, hstat]
        refine hp.imp_right fun hp => ?_
        rcases hp with ⟨hp, -⟩ | ⟨hp, -⟩
        · exact .inl ⟨hp, List.cons_ne_nil _ _⟩
        · exact .inr ⟨hp, .inr ⟨hk.unlinked_listRemove t, List.mem_cons_self⟩⟩
      · rcases List.mem_cons.mp hb with rfl | hb
        · exact .inr (.inr rfl)
        · exact hrest b hb
    · -- the insertion
      obtain ⟨hself, hc⟩ : p.links.next (.inr t) = .inr t ∧ p.currentThread ≠ some t := by
        simpa [threadResumeOk] using hok
      have hun := hr.unlinked hself
      exact ⟨⟨_, hr.scheduleInsertThread hun, hk.insert hun, .insert (hr.current ▸ hc)⟩, hrest⟩

/-- **Every step keeps the invariant.** -/
theorem resumeStep_inv (h : ResumeInv t s) {a : ResumeLabel} (hok : threadResumeOk t s a = true)
    (hs : resumeStep t s a = some s') : ResumeInv t s' := by
  cases a with
  | proceed => exact h.proceed hok hs
  | resume =>
    cases hs
    obtain ⟨⟨k, hr, hk, hp⟩, ha⟩ := h
    refine ⟨⟨k, hr, hk, hp.push _⟩, fun b hb => ?_⟩
    rcases List.mem_cons.mp hb with rfl | hb
    · exact .inl rfl
    · exact ha b hb
  | timeout =>
    simp only [resumeStep] at hs
    split_ifs at hs
    cases hs
    obtain ⟨⟨k, hr, hk, hp⟩, ha⟩ := h
    have hc : s.kernel.currentThread ≠ some t := by simpa [threadResumeOk] using hok
    have hlink : Linked (k.threadTimeout t) := by
      rw [threadTimeout_eq]
      exact hk.wake t (fun th => { th with error := .etimeout, threadTimer := false }) rfl
    exact ⟨⟨_, hr.threadTimeout hk t, hlink, .insert (hr.current ▸ hc)⟩, ha⟩
  | startup =>
    simp only [resumeStep] at hs
    split_ifs at hs with hi
    cases hs
    obtain ⟨⟨k, hr, hk, hp⟩, ha⟩ := h
    rw [hr.thread] at hi
    have hlink : Linked (k.threadStartupStore t) :=
      hk.write (hk.unlinked (.inr hi)) _ fun _ => by simp
    refine ⟨⟨_, hr.threadStartupStore t, hlink, .inr (.inl ⟨?_, List.cons_ne_nil _ _⟩)⟩,
      fun b hb => ?_⟩
    · rw [Kernel.threadStartupStore, setThread_self]
      rfl
    · rcases List.mem_cons.mp hb with rfl | hb
      · exact .inl rfl
      · exact ha b hb

theorem ResumeInit.inv (h : ResumeInit t s) : ResumeInv t s := by
  obtain ⟨k, hr, hk⟩ := h.lists
  have hstat := h.stat
  rw [hr.thread] at hstat
  refine ⟨⟨k, hr, hk, ?_⟩, fun a ha => ?_⟩
  · rw [h.stack]
    exact hstat.symm.imp_right fun hs => .inl ⟨hs, List.cons_ne_nil _ _⟩
  · rw [h.stack, List.mem_singleton] at ha
    exact .inl ha

/-- **`rt_thread_resume` is atomic** as long as no insertion finds the thread linked, and the thread is
not the current one. -/
theorem resume_atomic (hs : (resumeSystem T O t).Reach (threadResumeOk t) s) : ResumeAtomic t s := by
  obtain ⟨⟨k, hr, hk, hp⟩, -⟩ := hs.invariant (I := ResumeInv t) (fun _ => ResumeInit.inv)
    fun _ _ _ h hok hst => resumeStep_inv h hok hst
  refine ⟨k.list, hr.links, fun hstack hi => ?_⟩
  rw [hr.thread] at hi ⊢
  rcases hp with hp | ⟨-, hp⟩ | ⟨hready, hp⟩
  · exact absurd hp hi
  · exact absurd hstack hp
  · rcases hp with hp | ⟨-, hp⟩
    · exact ⟨hready, List.count_eq_one_of_mem (hk.nodup _) hp, fun h hm => hk.unique hm hp⟩
    · rw [hstack] at hp
      cases hp

/-- Thread 0 runs, thread 1 sleeps with its timer running. -/
def oneSleeper : ResumeState (Fin 2) Unit where
  kernel :=
    { thread := fun t => { Thread.initial 10 with
        stat := if t = 0 then .running else .suspend .uninterruptible
        threadTimer := decide (t = 1) }
      links := .self
      readyPriorityGroup := 0#32
      currentThread := some 0 }
  stack := [.check 1]

theorem oneSleeper_init : ResumeInit 1 oneSleeper := by
  refine ⟨⟨⟨oneSleeper.kernel.thread, fun _ => .mutexInit, fun _ => [], 0#32, some 0, 0⟩,
    ⟨rfl, Represents.self, rfl, rfl⟩, ⟨⟨fun _ => none, fun _ => List.nodup_nil, fun _ _ => by simp⟩,
      fun hm => ?_, fun {c} hc => ?_⟩⟩, .inl rfl, rfl⟩
  · cases hm
  · cases hc
    decide

/-- The timer expires between the test and the removal. -/
theorem resume_atomic_timeout : ∃ s, (resumeSystem (Fin 2) Unit 1).Reach (threadResumeOk 1) s ∧
    s.stack = [] ∧ (s.kernel.thread 1).error = .etimeout ∧ ResumeAtomic 1 s := by
  obtain ⟨s, hs, hp⟩ := System.exists_reach (resumeSystem (Fin 2) Unit 1) (threadResumeOk 1)
    (fun s => s.stack = [] ∧ (s.kernel.thread 1).error = .etimeout) oneSleeper_init
    [.proceed, .timeout, .proceed, .proceed] (by decide)
  obtain ⟨h1, h2⟩ := of_decide_eq_true hp
  exact ⟨s, hs, h1, h2, resume_atomic hs⟩

/-- **A second resume breaks the ready list**: a handler resumes the thread between the removal and the
insertion, and the insertion links the thread to itself. -/
theorem resume_broken : ¬ ∀ s, (resumeSystem (Fin 2) Unit 1).Reach System.anyStep s →
    ResumeAtomic 1 s := by
  intro h
  obtain ⟨s, hs, hp⟩ := System.exists_reach (resumeSystem (Fin 2) Unit 1) System.anyStep
    (fun s => s.kernel.links.next (.inl (.ready 10)) = .inr 1 ∧
      s.kernel.links.next (.inr 1) = .inr 1) oneSleeper_init
    [.proceed, .proceed, .resume, .proceed, .proceed, .proceed, .proceed] (by decide)
  obtain ⟨hhead, hself⟩ := of_decide_eq_true hp
  obtain ⟨q, hq, -⟩ := h s hs
  exact hq.next_ne (hq.mem_of_next hhead) hself

end RtThread
