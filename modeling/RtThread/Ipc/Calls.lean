import RtThread.Lib.System
import RtThread.Mutex.Cases
import RtThread.Mutex.Dispatch

/-!
# Blocking calls

What the semaphore, event, mailbox, message queue and memory pool functions share: a call either
returns from its first critical section or suspends its thread on an object and goes on, after its
`rt_schedule`, with a further section. `inside` are the threads in the middle of such a call.

* `CallState`, `block`, `wait`, `leave`; the environment `envStep` schedules, counts ticks and lets thread
  timers expire;
* `CallInv`: who waits is inside a call, who is suspended inside a call waits, and only suspended
  threads have a timer running;
* **`envStep_frame`**: what the environment can do to the threads inside a call;
* `CallInv.wait`, `CallInv.resume`, `CallInv.leave`: suspending, waking, returning.
-/

set_option linter.unusedSectionVars false

namespace RtThread

open Kernel

/-- `RT_TICK_MAX / 2`. -/
abbrev rtTickHalf : ℕ := 0x7fffffff

/-- The test of `rt_timer_check` for a timer that has come due. -/
def timerDue (tick timeoutTick : BitVec 32) : Bool := (tick - timeoutTick).toNat < rtTickHalf

/-- `RT_TIMER_CTRL_SET_TIME` asserts that the time is below `RT_TICK_MAX / 2`. -/
def timeoutOk (timeout : BitVec 32) : Bool := timeout.toInt ≤ 0 ∨ timeout.toNat < rtTickHalf

/-- What is left of a time-out, `timeout -= rt_tick_get() - start`, not below 0. -/
def timeLeft (timeout start tick : BitVec 32) : BitVec 32 :=
  if 0 < timeout.toInt then
    let timeout := timeout - (tick - start)
    if timeout.toInt < 0 then 0 else timeout
  else timeout

/-- The kernel, the ticks since the start, the `timeout_tick` of the thread timers, the threads in
the middle of a call with the locals of their calls, and the data of the objects. -/
structure CallState (T O L D : Type) where
  kernel : Kernel T O
  now : ℕ
  timeoutTick : T → BitVec 32
  inside : List T
  locals : T → L
  data : D

/-- What happens around the calls. -/
inductive EnvLabel (T : Type) where
  | start
  | schedule
  | yield
  | startup (t : T)
  | sleep (tick : BitVec 32)
  | tick
  | timeout (t : T)
  deriving DecidableEq, Repr

variable {T O L D : Type} [DecidableEq T] [DecidableEq O]

namespace CallState

variable (s : CallState T O L D)

/-- `rt_tick_get`. -/
def tick : BitVec 32 := BitVec.ofNat 32 s.now

/-- The running thread, outside a call. -/
def self : Option T :=
  s.kernel.currentThread.filter fun c => (s.kernel.thread c).stat = .running ∧ c ∉ s.inside

/-- The running thread, in the middle of a call. -/
def caller : Option T :=
  s.kernel.currentThread.filter fun c => (s.kernel.thread c).stat = .running ∧ c ∈ s.inside

/-- The call of `c` has suspended it: the kernel is now `k`. -/
def block (c : T) (k : Kernel T O) (timeout : BitVec 32) (l : L) : CallState T O L D :=
  { s with
    kernel := k
    timeoutTick := if 0 < timeout.toInt then
      Function.update s.timeoutTick c (s.tick + timeout) else s.timeoutTick
    inside := c :: s.inside
    locals := Function.update s.locals c l }

/-- The call of `c` is over. -/
def leave (c : T) : CallState T O L D := { s with inside := s.inside.erase c }

/-- Replace the kernel. -/
def withKernel (k : Kernel T O) : CallState T O L D := { s with kernel := k }

/-- Replace the objects' data. -/
def withData (d : D) : CallState T O L D := { s with data := d }

/-- The branch of a call of `c` that waits on `o`: the error it returns, none when it has suspended
the thread. -/
def wait (c : T) (o : O) (timeout : BitVec 32) (suspendFlag : SuspendFlag) (l : L) :
    Option (Option Err × CallState T O L D) :=
  if timeoutOk timeout then
    match s.kernel.ipcWait c o timeout.toInt suspendFlag with
    | (.eok, k) => some (none, s.block c k timeout l)
    | (e, k) => some (some e, s.withKernel k)
  else none

end CallState

/-- One step of the environment; `rt_thread_startup` is uninterrupted here. -/
def envStep (s : CallState T O L D) : EnvLabel T → Option (CallState T O L D)
  | .start =>
    if s.kernel.currentThread = none then s.kernel.systemSchedulerStart.map s.withKernel else none
  | .schedule => s.kernel.rtSchedule.map s.withKernel
  | .yield => s.kernel.currentThread.map fun c => s.withKernel (s.kernel.threadYield c)
  | .startup t =>
    if (s.kernel.thread t).stat = .init then
      some (s.withKernel ((s.kernel.threadStartupStore t).threadResume t).2)
    else none
  | .sleep tick =>
    if tick ≠ 0 ∧ tick.toNat < rtTickHalf then
      s.self.map fun c =>
        { s.withKernel (s.kernel.threadSleep c).2 with
          timeoutTick := Function.update s.timeoutTick c (s.tick + tick) }
    else none
  | .tick => some { s with now := s.now + 1 }
  | .timeout t =>
    if (s.kernel.thread t).threadTimer = true ∧ timerDue s.tick (s.timeoutTick t) = true then
      some (s.withKernel (s.kernel.threadTimeout t))
    else none

/-- Before the scheduler starts: initialized threads and objects, nobody inside a call. -/
structure CallInit (s : CallState T O L D) : Prop where
  kernel : ∃ priority object, s.kernel = Kernel.initial priority object ∧
    ∀ t, priority t < threadPriorityMax
  inside : s.inside = []

/-- Initialized threads and objects. -/
def CallState.initial (priority : T → ℕ) (object : O → IpcObject T) (locals : T → L) (data : D) :
    CallState T O L D where
  kernel := .initial priority object
  now := 0
  timeoutTick _ := 0
  inside := []
  locals := locals
  data := data

theorem CallState.initial_init {priority : T → ℕ} (h : ∀ t, priority t < threadPriorityMax)
    (object : O → IpcObject T) (locals : T → L) (data : D) :
    CallInit (CallState.initial priority object locals data) :=
  ⟨⟨priority, object, rfl, h⟩, rfl⟩

/-- Who waits is inside a call; who is suspended inside a call waits; only suspended threads have
their timer running. -/
structure CallInv (s : CallState T O L D) : Prop where
  linked : Linked s.kernel
  waiter : ∀ {o t}, t ∈ s.kernel.waiters o → t ∈ s.inside
  timer : ∀ {t}, (s.kernel.thread t).threadTimer = true → (s.kernel.thread t).stat.isSuspend = true
  suspended : ∀ {t}, t ∈ s.inside → (s.kernel.thread t).stat.isSuspend = true →
    ∃ o, t ∈ s.kernel.waiters o
  nodup : s.inside.Nodup

/-- A thread inside a call is left alone. -/
structure Untouched (k k' : Kernel T O) (t : T) : Prop where
  error : (k'.thread t).error = (k.thread t).error
  timer : (k'.thread t).threadTimer = (k.thread t).threadTimer
  waiters : ∀ o, t ∈ k'.waiters o ↔ t ∈ k.waiters o

/-- The timer of a waiting thread has expired. -/
structure TimedOut (s s' : CallState T O L D) (t : T) : Prop where
  due : timerDue s.tick (s.timeoutTick t) = true
  running : (s.kernel.thread t).threadTimer = true
  waiter : ∃ o, t ∈ s.kernel.waiters o
  error : (s'.kernel.thread t).error = .etimeout
  stopped : (s'.kernel.thread t).threadTimer = false
  unlinked : ∀ o, t ∉ s'.kernel.waiters o

/-- What the environment can do: the threads inside a call are untouched, or time out. -/
structure EnvFrame (s s' : CallState T O L D) : Prop where
  inside : s'.inside = s.inside
  locals : s'.locals = s.locals
  data : s'.data = s.data
  now : s.now ≤ s'.now
  timeoutTick : ∀ t ∈ s.inside, s'.timeoutTick t = s.timeoutTick t
  object : s'.kernel.object = s.kernel.object
  sublist : ∀ o, (s'.kernel.waiters o).Sublist (s.kernel.waiters o)
  calls : ∀ t ∈ s.inside, Untouched s.kernel s'.kernel t ∨ TimedOut s s' t

variable {s s' : CallState T O L D} {k' : Kernel T O} {c t : T} {o : O}

theorem CallState.self_iff : s.self = some c ↔ s.kernel.currentThread = some c ∧
    (s.kernel.thread c).stat = .running ∧ c ∉ s.inside := by
  rw [CallState.self, Option.filter_eq_some_iff]
  simp

theorem CallState.caller_iff : s.caller = some c ↔ s.kernel.currentThread = some c ∧
    (s.kernel.thread c).stat = .running ∧ c ∈ s.inside := by
  rw [CallState.caller, Option.filter_eq_some_iff]
  simp

theorem CallInit.inv (h : CallInit s) : CallInv s := by
  obtain ⟨⟨priority, object, hk, -⟩, hi⟩ := h
  refine ⟨⟨⟨fun _ => none, fun _ => ?_, fun _ _ => ?_⟩, fun {t h} ht => ?_, fun {c} hc => ?_⟩,
    fun {o t} ht => ?_, fun {t} ht => ?_, fun {t} ht => ?_, ?_⟩
  · rw [hk]; exact List.nodup_nil
  · rw [hk]; simp [Kernel.initial]
  · rw [hk] at ht; cases ht
  · rw [hk] at hc; cases hc
  · rw [waiters, hk] at ht; cases ht
  · rw [hk] at ht; cases ht
  · rw [hi] at ht; cases ht
  · rw [hi]; exact List.nodup_nil

namespace CallInv

/-- Scheduling. -/
theorem dispatched (h : CallInv s) (hd : Dispatched s.kernel k') :
    CallInv (s.withKernel k') ∧ EnvFrame s (s.withKernel k') := by
  have ha := hd.alike
  refine ⟨⟨hd.linked, fun {o t} ht => h.waiter ((ha.waiters o t).mp ht), fun {t} ht => ?_,
    fun {t} ht hs => ?_, h.nodup⟩, rfl, rfl, rfl, Nat.le_refl _, fun _ _ => rfl, hd.object,
    fun o => ?_, fun t _ => .inl ⟨ha.error t, ha.timer t, fun o => ha.waiters o t⟩⟩
  · exact (ha.isSuspend t).mpr (h.timer ((ha.timer t).symm.trans ht))
  · obtain ⟨o, ho⟩ := h.suspended ht ((ha.isSuspend t).mp hs)
    exact ⟨o, (ha.waiters o t).mpr ho⟩
  · exact (hd.waiters o).symm ▸ List.Sublist.refl _

/-- **A wake-up.** -/
theorem wake (h : CallInv s) (t : T) (f : Thread O → Thread O)
    (hf : ∀ th, (f th).stat = th.stat ∧ (f th).threadTimer = false) :
    CallInv (s.withKernel (s.kernel.wake t f)) := by
  have hmem : ∀ o u, u ∈ (s.kernel.wake t f).waiters o → u ∈ s.kernel.waiters o := fun o u hu => by
    rw [wake_waiters] at hu; exact List.mem_of_mem_erase hu
  refine ⟨h.linked.wake t f (hf _).1, fun {o u} hu => h.waiter (hmem o u hu), fun {u} hu => ?_,
    fun {u} hu hs => ?_, h.nodup⟩
  · change ((s.kernel.wake t f).thread u).threadTimer = true at hu
    change ((s.kernel.wake t f).thread u).stat.isSuspend = true
    by_cases hut : u = t
    · subst hut
      rw [wake_self] at hu
      dsimp only at hu
      rw [(hf _).2] at hu
      cases hu
    · rw [wake_of_ne hut] at hu ⊢
      exact h.timer hu
  · change ((s.kernel.wake t f).thread u).stat.isSuspend = true at hs
    by_cases hut : u = t
    · subst hut
      rw [wake_self] at hs
      exact absurd hs (by simp [(s.kernel.insertedStat_ne u).1])
    · rw [wake_of_ne hut] at hs
      obtain ⟨o, ho⟩ := h.suspended hu hs
      refine ⟨o, ?_⟩
      change u ∈ (s.kernel.wake t f).waiters o
      rw [wake_waiters]
      exact (List.mem_erase_of_ne hut).mpr ho

theorem wake_untouched (f : Thread O → Thread O) {u : T} (hu : u ≠ t) (k : Kernel T O) :
    Untouched k (k.wake t f) u := by
  refine ⟨by rw [wake_of_ne hu], by rw [wake_of_ne hu], fun o => ?_⟩
  rw [wake_waiters, List.mem_erase_of_ne hu]

/-- **`_thread_timeout`.** -/
theorem timeout (h : CallInv s) (ht : (s.kernel.thread t).threadTimer = true)
    (hd : timerDue s.tick (s.timeoutTick t) = true) :
    CallInv (s.withKernel (s.kernel.threadTimeout t)) ∧
      EnvFrame s (s.withKernel (s.kernel.threadTimeout t)) := by
  rw [threadTimeout_eq]
  refine ⟨h.wake t _ fun _ => ⟨rfl, rfl⟩, rfl, rfl, rfl, Nat.le_refl _, fun _ _ => rfl,
    wake_object _, fun o => ?_, fun u hu => ?_⟩
  · change ((s.kernel.wake t _).waiters o).Sublist _
    rw [wake_waiters]
    exact List.erase_sublist
  · by_cases hut : u = t
    · subst hut
      refine .inr ⟨hd, ht, h.suspended hu (h.timer ht), ?_, ?_, fun o ho => ?_⟩
      · change ((s.kernel.wake u _).thread u).error = _
        rw [wake_self]
      · change ((s.kernel.wake u _).thread u).threadTimer = _
        rw [wake_self]
      · change u ∈ (s.kernel.wake u _).waiters o at ho
        rw [wake_waiters] at ho
        exact (h.linked.nodup _).not_mem_erase ho
    · exact .inl (wake_untouched _ hut s.kernel)

/-- `rt_thread_startup`. -/
theorem startup (h : CallInv s) (ht : (s.kernel.thread t).stat = .init) :
    CallInv (s.withKernel ((s.kernel.threadStartupStore t).threadResume t).2) ∧
      EnvFrame s (s.withKernel ((s.kernel.threadStartupStore t).threadResume t).2) := by
  have hun := h.linked.unlinked (.inr ht)
  have htimer : (s.kernel.thread t).threadTimer = false := by
    cases hc : (s.kernel.thread t).threadTimer with
    | false => rfl
    | true => have := h.timer hc; rw [ht] at this; cases this
  obtain ⟨f, hf⟩ : ∃ f : Thread O → Thread O, f = fun th => { th with
      numberMask := priorityMask th.currentPriority, stat := .suspend .interruptible,
      yieldFlag := false } := ⟨_, rfl⟩
  have hst : s.kernel.threadStartupStore t = s.kernel.setThread t f := by rw [hf]; rfl
  have hsus : ((s.kernel.setThread t f).thread t).stat.isSuspend = true := by
    rw [setThread_self, hf]; rfl
  rw [hst, threadResume_eq hsus]
  have hlink : Linked (s.kernel.setThread t f) :=
    h.linked.write hun f fun _ => by rw [hf]; simp
  -- the store makes `t` a suspended thread on no list, for the time of this step
  have hthread : ∀ u ≠ t, ((s.kernel.setThread t f).wake t
      fun th => { th with threadTimer := false }).thread u = s.kernel.thread u := fun u hu => by
    rw [wake_of_ne hu, setThread_of_ne _ hu]
  have hwait : ∀ o, ((s.kernel.setThread t f).wake t
      fun th => { th with threadTimer := false }).waiters o = s.kernel.waiters o := fun o => by
    rw [wake_waiters]; exact List.erase_of_not_mem (hun _)
  have hself : ((s.kernel.setThread t f).wake t
      fun th => { th with threadTimer := false }).thread t =
        { s.kernel.thread t with
          numberMask := priorityMask (s.kernel.prioOf t), yieldFlag := false, threadTimer := false
          stat := (s.kernel.setThread t f).insertedStat t } := by
    rw [wake_self, setThread_self, hf]
  refine ⟨⟨hlink.wake t _ rfl, fun {o u} hu => ?_, fun {u} hu => ?_, fun {u} hu hs => ?_, h.nodup⟩,
    rfl, rfl, rfl, Nat.le_refl _, fun _ _ => rfl, by simp [CallState.withKernel], fun o => ?_,
    fun u hu => .inl ⟨?_, ?_, fun o => ?_⟩⟩
  · exact h.waiter ((hwait o) ▸ hu)
  · by_cases hut : u = t
    · subst hut
      have := congrArg Thread.threadTimer hself
      exact absurd (this.symm.trans hu) (by simp)
    · have := congrArg Thread.threadTimer (hthread u hut)
      have h1 := h.timer (this.symm.trans hu)
      rwa [← hthread u hut] at h1
  · by_cases hut : u = t
    · subst hut
      have := congrArg (fun th => th.stat.isSuspend) hself
      exact absurd (this.symm.trans hs) (by simp [((s.kernel.setThread u f).insertedStat_ne u).1])
    · have := congrArg (fun th => th.stat.isSuspend) (hthread u hut)
      obtain ⟨o, ho⟩ := h.suspended hu (this.symm.trans hs)
      exact ⟨o, (hwait o).symm ▸ ho⟩
  · exact (hwait o).symm ▸ List.Sublist.refl _
  · by_cases hut : u = t
    · subst hut
      have := congrArg Thread.error hself
      exact this
    · have := congrArg Thread.error (hthread u hut)
      exact this
  · by_cases hut : u = t
    · subst hut
      have := congrArg Thread.threadTimer hself
      exact this.trans htimer.symm
    · have := congrArg Thread.threadTimer (hthread u hut)
      exact this
  · exact (hwait o).symm ▸ Iff.rfl

/-- `rt_thread_sleep`, of a thread outside the calls. -/
theorem sleep (h : CallInv s) (hc : s.self = some c) (n : BitVec 32) :
    CallInv { s.withKernel (s.kernel.threadSleep c).2 with
      timeoutTick := Function.update s.timeoutTick c n } ∧
    EnvFrame s { s.withKernel (s.kernel.threadSleep c).2 with
      timeoutTick := Function.update s.timeoutTick c n } := by
  obtain ⟨-, hrun, hin⟩ := CallState.self_iff.mp hc
  obtain ⟨k₁, hk₁⟩ : ∃ k₁, k₁ = s.kernel.setThread c fun th => { th with error := .eok } :=
    ⟨_, rfl⟩
  have hrun₁ : (k₁.thread c).stat = .running := by rw [hk₁, setThread_self]; exact hrun
  have hlink₁ : Linked k₁ := hk₁ ▸ h.linked.setThread c _ rfl
  have hsleep : (s.kernel.threadSleep c).2 = (k₁.suspendSelf c .interruptible).setThread c
      fun th => { th with threadTimer := true, error := .eintr } := by
    unfold threadSleep
    rw [← hk₁, threadSuspend_eq hrun₁]
  rw [hsleep]
  have hlink := (hlink₁.suspendSelf c .interruptible).setThread c
    (fun th => { th with threadTimer := true, error := .eintr }) rfl
  have hother : ∀ u ≠ c, ((k₁.suspendSelf c .interruptible).setThread c
      fun th => { th with threadTimer := true, error := .eintr }).thread u =
        s.kernel.thread u := fun u hu => by
    rw [setThread_of_ne _ hu, Kernel.suspendSelf, setThread_of_ne _ hu, scheduleRemoveThread_thread, hk₁,
      setThread_of_ne _ hu]
  have hwait : ∀ o, ((k₁.suspendSelf c .interruptible).setThread c
      fun th => { th with threadTimer := true, error := .eintr }).waiters o =
        s.kernel.waiters o := fun o => by
    refine (suspendSelf_waiters hlink₁ hrun₁ .interruptible o).trans ?_
    rw [hk₁]; rfl
  have hcstat : (((k₁.suspendSelf c .interruptible).setThread c
      fun th => { th with threadTimer := true, error := .eintr }).thread c).stat.isSuspend =
        true := by
    rw [setThread_self, Kernel.suspendSelf, setThread_self]; rfl
  refine ⟨⟨hlink, fun {o t} ht => h.waiter (hwait o ▸ ht), fun {t} ht => ?_, fun {t} ht hs => ?_,
    h.nodup⟩, rfl, rfl, rfl, Nat.le_refl _, fun t ht => ?_, ?_, fun o => ?_, fun t ht => .inl ?_⟩
  · by_cases htc : t = c
    · subst htc; exact hcstat
    · have ht' := (congrArg Thread.threadTimer (hother t htc)).symm.trans ht
      have := congrArg (fun th => th.stat.isSuspend) (hother t htc)
      exact this.trans (h.timer ht')
  · have htc : t ≠ c := fun e => hin (e ▸ ht)
    have := congrArg (fun th => th.stat.isSuspend) (hother t htc)
    obtain ⟨o, ho⟩ := h.suspended ht (this.symm.trans hs)
    exact ⟨o, (hwait o).symm ▸ ho⟩
  · have htc : t ≠ c := fun e => hin (e ▸ ht)
    exact Function.update_of_ne htc _ _
  · rw [hk₁]; rfl
  · exact (hwait o).symm ▸ List.Sublist.refl _
  · have htc : t ≠ c := fun e => hin (e ▸ ht)
    refine ⟨congrArg Thread.error (hother t htc), congrArg Thread.threadTimer (hother t htc),
      fun o => ?_⟩
    exact (hwait o).symm ▸ Iff.rfl

end CallInv

/-- **What the environment can do.** It keeps the invariant; it leaves the objects and the calls
alone, but for waits that time out. -/
theorem envStep_frame (h : CallInv s) {a : EnvLabel T} (hs : envStep s a = some s') :
    CallInv s' ∧ EnvFrame s s' := by
  cases a with
  | start =>
    simp only [envStep] at hs
    split_ifs at hs
    obtain ⟨k, hk, rfl⟩ := Option.map_eq_some_iff.mp hs
    exact h.dispatched (systemSchedulerStart_dispatched h.linked hk)
  | schedule =>
    obtain ⟨k, hk, rfl⟩ := Option.map_eq_some_iff.mp hs
    exact h.dispatched (rtSchedule_dispatched h.linked hk)
  | yield =>
    obtain ⟨c, -, rfl⟩ := Option.map_eq_some_iff.mp hs
    exact h.dispatched (threadYield_dispatched h.linked c)
  | startup t =>
    simp only [envStep] at hs
    split_ifs at hs with ht
    cases hs
    exact h.startup ht
  | sleep tick =>
    simp only [envStep] at hs
    split_ifs at hs
    obtain ⟨c, hc, rfl⟩ := Option.map_eq_some_iff.mp hs
    exact h.sleep hc _
  | tick =>
    cases hs
    exact ⟨⟨h.linked, h.waiter, h.timer, h.suspended, h.nodup⟩, rfl, rfl, rfl, Nat.le_succ _,
      fun _ _ => rfl, rfl, fun _ => .refl _, fun _ _ => .inl ⟨rfl, rfl, fun _ => .rfl⟩⟩
  | timeout t =>
    simp only [envStep] at hs
    split_ifs at hs with ht
    cases hs
    exact h.timeout ht.1 ht.2

/-! ## Suspending, waking, returning -/

/-- `c`, which was running, waits on `o`. -/
structure Waits (k k' : Kernel T O) (c : T) (o : O) (timer : Bool) (e : Err) : Prop where
  linked : Linked k'
  stat : (k'.thread c).stat.isSuspend = true
  timer : (k'.thread c).threadTimer = timer
  error : (k'.thread c).error = e
  thread : ∀ u ≠ c, k'.thread u = k.thread u
  object : k'.object = k.object
  waiters : ∀ x u, u ∈ k'.waiters x ↔ (x = o ∧ u = c) ∨ u ∈ k.waiters x

/-- `t` has been woken with the error `e`. -/
structure Woken (k k' : Kernel T O) (t : T) (e : Err) : Prop where
  error : (k'.thread t).error = e
  timer : (k'.thread t).threadTimer = false
  unlinked : ∀ o, t ∉ k'.waiters o
  untouched : ∀ u ≠ t, Untouched k k' u
  sublist : ∀ o, (k'.waiters o).Sublist (k.waiters o)
  object : k'.object = k.object

/-- Waiting on an object, from a kernel where the error code of the thread is set. -/
theorem suspendOn_waits {k : Kernel T O} (hk : Linked k) (hc : (k.thread c).stat = .running)
    (o : O) (timeout : ℤ) (flag : SuspendFlag) :
    Waits k (if 0 < timeout then (k.suspendOn o c flag).setThread c
      fun th => { th with threadTimer := true } else k.suspendOn o c flag)
      c o (decide (0 < timeout)) (k.thread c).error := by
  have hother : ∀ u ≠ c, (k.suspendOn o c flag).thread u = k.thread u := fun u hu => by
    rw [suspendOn_thread, setThread_of_ne _ hu]
  have hlink := hk.suspendOn o c flag
  by_cases ht : 0 < timeout
  · rw [if_pos ht, decide_eq_true ht]
    refine ⟨hlink.setThread c _ rfl, ?_, ?_, ?_, fun u hu => ?_, rfl, fun x u => ?_⟩
    · rw [setThread_self, suspendOn_thread, setThread_self]; rfl
    · rw [setThread_self]
    · rw [setThread_self, suspendOn_thread, setThread_self]
    · rw [setThread_of_ne _ hu, hother u hu]
    · exact mem_suspendOn_waiters hk hc
  · rw [if_neg ht, decide_eq_false ht]
    refine ⟨hlink, ?_, ?_, ?_, hother, rfl, fun x u => mem_suspendOn_waiters hk hc⟩
    · rw [suspendOn_thread, setThread_self]; rfl
    · rw [suspendOn_thread, setThread_self]
    · rw [suspendOn_thread, setThread_self]

/-- **Waiting.** -/
theorem ipcWait_waits {k : Kernel T O} (hk : Linked k) (hc : (k.thread c).stat = .running)
    (o : O) (timeout : ℤ) (flag : SuspendFlag) :
    ∃ k', k.ipcWait c o timeout flag = (.eok, k') ∧
      Waits k k' c o (decide (0 < timeout)) .eintr := by
  obtain ⟨k₁, hk₁⟩ : ∃ k₁, k₁ = k.setThread c fun th => { th with error := .eintr } := ⟨_, rfl⟩
  have hrun₁ : (k₁.thread c).stat = .running := by rw [hk₁, setThread_self]; exact hc
  have hw := suspendOn_waits (hk₁ ▸ hk.setThread c _ rfl : Linked k₁) hrun₁ o timeout flag
  refine ⟨_, ?_, hw.linked, hw.stat, hw.timer, ?_, fun u hu => ?_, ?_, fun x u => ?_⟩
  · unfold ipcWait
    rw [← hk₁]
    dsimp only
    rw [ipcListSuspend_eq hrun₁]
  · rw [hw.error, hk₁, setThread_self]
  · rw [hw.thread u hu, hk₁, setThread_of_ne _ hu]
  · rw [hw.object, hk₁]; rfl
  · rw [hw.waiters, hk₁]; rfl

/-- **Waking a waiting thread.** -/
theorem ipcResumeThread_woken {k : Kernel T O} (hk : Linked k) (ht : t ∈ k.waiters o) (e : Err) :
    Woken k (k.ipcResumeThread e t) t e := by
  rw [ipcResumeThread_eq (hk.suspend ht)]
  refine ⟨by rw [wake_self], by rw [wake_self], fun o ho => ?_,
    fun u hu => CallInv.wake_untouched _ hu k, fun o => ?_, wake_object _⟩
  · rw [wake_waiters] at ho
    exact (hk.nodup _).not_mem_erase ho
  · rw [wake_waiters]
    exact List.erase_sublist

theorem ipcListResume_nil {k : Kernel T O} (h : k.waiters o = []) : k.ipcListResume o = none := by
  unfold ipcListResume
  rw [show k.list (.suspend o) = [] from h]

theorem ipcListResume_cons {k : Kernel T O} {l : List T} (h : k.waiters o = t :: l) :
    k.ipcListResume o = some (k.ipcResumeThread .eok t) := by
  unfold ipcListResume
  rw [show k.list (.suspend o) = t :: l from h]

namespace CallInv

/-- The data is not looked at. -/
theorem withData (h : CallInv s) (d : D) : CallInv (s.withData d) :=
  ⟨h.linked, h.waiter, h.timer, h.suspended, h.nodup⟩

theorem resume (h : CallInv s) (ht : t ∈ s.kernel.waiters o) (e : Err) :
    CallInv (s.withKernel (s.kernel.ipcResumeThread e t)) := by
  rw [ipcResumeThread_eq (h.linked.suspend ht)]
  exact h.wake t _ fun _ => ⟨rfl, rfl⟩

theorem block {k : Kernel T O} {b : Bool} {e : Err} (h : CallInv s)
    (hc : s.self = some c) (hw : Waits s.kernel k c o b e) (timeout : BitVec 32) (l : L) :
    CallInv (s.block c k timeout l) := by
  obtain ⟨-, -, hin⟩ := CallState.self_iff.mp hc
  refine ⟨hw.linked, fun {x t} ht => ?_, fun {t} ht => ?_, fun {t} ht hs => ?_,
    List.nodup_cons.mpr ⟨hin, h.nodup⟩⟩
  · rcases (hw.waiters x t).mp ht with ⟨-, rfl⟩ | ht
    · exact List.mem_cons_self
    · exact List.mem_cons_of_mem _ (h.waiter ht)
  · by_cases htc : t = c
    · subst htc; exact hw.stat
    · have h1 := hw.thread t htc
      have ht' := (congrArg Thread.threadTimer h1).symm.trans ht
      have := congrArg (fun th => th.stat.isSuspend) h1
      exact this.trans (h.timer ht')
  · by_cases htc : t = c
    · subst htc
      exact ⟨o, (hw.waiters o t).mpr (.inl ⟨rfl, rfl⟩)⟩
    · have := congrArg (fun th => th.stat.isSuspend) (hw.thread t htc)
      obtain ⟨x, hx⟩ := h.suspended ((List.mem_cons.mp ht).resolve_left htc) (this.symm.trans hs)
      exact ⟨x, (hw.waiters x t).mpr (.inr hx)⟩

/-- **Waiting** suspends the thread. -/
theorem wait (h : CallInv s) (hc : s.self = some c) {timeout : BitVec 32} {flag : SuspendFlag}
    {l : L} {r : Option Err} (hs : s.wait c o timeout flag l = some (r, s')) :
    ∃ k, r = none ∧ s' = s.block c k timeout l ∧ CallInv s' ∧
      Waits s.kernel k c o (decide (0 < timeout.toInt)) .eintr := by
  obtain ⟨-, hrun, -⟩ := CallState.self_iff.mp hc
  obtain ⟨k, hk, hw⟩ := ipcWait_waits h.linked hrun o timeout.toInt flag
  unfold CallState.wait at hs
  by_cases hok : timeoutOk timeout = true
  · rw [if_pos hok, hk] at hs
    cases hs
    exact ⟨k, rfl, rfl, h.block hc hw timeout l, hw⟩
  · rw [if_neg hok] at hs
    cases hs

theorem leave (h : CallInv s) (hc : s.caller = some c) : CallInv (s.leave c) := by
  obtain ⟨-, hrun, -⟩ := CallState.caller_iff.mp hc
  refine ⟨h.linked, fun {o t} ht => (List.mem_erase_of_ne fun e => ?_).mpr (h.waiter ht), h.timer,
    fun {t} ht hs => h.suspended (List.mem_of_mem_erase ht) hs, h.nodup.erase c⟩
  subst e
  exact h.linked.unlinked (.inl hrun) _ ht

/-- A thread outside the calls sets its error code. -/
theorem setError (h : CallInv s) (hc : c ∉ s.inside) (e : Err) :
    CallInv (s.withKernel (s.kernel.setThread c fun th => { th with error := e })) ∧
      ∀ u ∈ s.inside, (s.kernel.setThread c fun th => { th with error := e }).thread u =
        s.kernel.thread u := by
  obtain ⟨f, hf⟩ : ∃ f : Thread O → Thread O, f = fun th => { th with error := e } := ⟨_, rfl⟩
  rw [← hf]
  have hth : ∀ u ∈ s.inside, (s.kernel.setThread c f).thread u = s.kernel.thread u :=
    fun u hu => by
      have huc : u ≠ c := fun he => hc (he ▸ hu)
      exact setThread_of_ne _ huc f
  refine ⟨⟨h.linked.setThread c f (by rw [hf]), h.waiter, fun {u} hu => ?_, fun {u} hu hs => ?_,
    h.nodup⟩, hth⟩
  · change ((s.kernel.setThread c f).thread u).threadTimer = true at hu
    change ((s.kernel.setThread c f).thread u).stat.isSuspend = true
    by_cases huc : u = c
    · subst huc
      rw [setThread_self, hf] at hu ⊢
      exact h.timer hu
    · rw [setThread_of_ne _ huc] at hu ⊢
      exact h.timer hu
  · have := congrArg (fun th => th.stat.isSuspend) (hth u hu)
    exact h.suspended hu (this.symm.trans hs)

/-- A caller that has returned is a thread outside the calls. -/
theorem self_leave (h : CallInv s) (hc : s.caller = some c) : (s.leave c).self = some c := by
  obtain ⟨hcur, hrun, -⟩ := CallState.caller_iff.mp hc
  exact CallState.self_iff.mpr ⟨hcur, hrun, h.nodup.not_mem_erase⟩

/-- The caller waits on nothing and has no timer running. -/
theorem caller_idle (h : CallInv s) (hrun : (s.kernel.thread c).stat = .running) :
    (s.kernel.thread c).threadTimer = false ∧ ∀ o, c ∉ s.kernel.waiters o := by
  refine ⟨?_, fun o => h.linked.unlinked (.inl hrun) _⟩
  cases ht : (s.kernel.thread c).threadTimer with
  | false => rfl
  | true => have := h.timer ht; rw [hrun] at this; cases this

end CallInv

end RtThread
