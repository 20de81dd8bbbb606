import RtThread.Kernel.Ipc
import RtThread.Lib.System

/-!
# Threads, mutexes and IPC objects as a system

Every step is one critical section: a section of a function called by the running thread, a section
of an `rt_thread_resume` or `rt_thread_startup` in flight, a timer interrupt, or `rt_schedule`.

* `MutexState`: the kernel, the thread's places inside `_rt_mutex_take`, and a record of the calls;
* `MutexLabel`, `mutexStep`, `MutexInit`, `mutexSystem`.
-/

namespace RtThread

/-- The kernel and what the calls in progress know. `taking` are the threads inside
`_rt_mutex_take` after the suspension, `resumes` the sections of `rt_thread_resume` in flight. The
rest only records: `depth` the successful takes without a matching release, `returned` the take that
the last step returned from, `waiting` the last object other than a mutex a thread waited on. -/
structure MutexState (T O : Type) where
  kernel : Kernel T O
  taking : T → Option O
  resumes : List (Pending T)
  depth : T → O → ℕ
  returned : Option (T × O × Err)
  waiting : T → Option O

/-- The steps. -/
inductive MutexLabel (T O : Type) where
  | start
  | schedule
  | yield
  | startup (t : T)
  | resume (t : T)
  | proceed (a : Pending T)
  | suspend (flag : SuspendFlag)
  | sleep
  | timeout (t : T)
  | changePriority (t : T) (p : ℕ)
  | take (m : O) (timeout : ℤ) (flag : SuspendFlag)
  | takeResume
  | release (m : O)
  | setprioceiling (m : O) (p : ℕ)
  | detachMutex (m : O)
  | detachThread (t : T)
  | ipcWait (o : O) (timeout : ℤ) (flag : SuspendFlag)
  | ipcWake (o : O)
  | eventWake (o : O) (t : T)
  deriving DecidableEq, Repr

variable {T O : Type} [DecidableEq T] [DecidableEq O]

namespace MutexState

/-- The running thread, outside `_rt_mutex_take`. -/
def self (s : MutexState T O) : Option T :=
  s.kernel.currentThread.filter fun c =>
    (s.kernel.thread c).stat = .running ∧ s.taking c = none

/-- Replace the kernel. -/
def withKernel (s : MutexState T O) (k : Kernel T O) : MutexState T O :=
  { s with kernel := k, returned := none }

/-- The place of a thread inside `_rt_mutex_take`. -/
def setTaking (s : MutexState T O) (t : T) (m : Option O) : MutexState T O :=
  { s with taking := Function.update s.taking t m }

/-- Count the successful takes and releases. -/
def setDepth (s : MutexState T O) (t : T) (m : O) (f : ℕ → ℕ) : MutexState T O :=
  { s with depth := Function.update s.depth t (Function.update (s.depth t) m (f (s.depth t m))) }

/-- `_rt_mutex_take` returns. -/
def takeReturns (s : MutexState T O) (t : T) (m : O) (e : Err) : MutexState T O :=
  let s := if e = .eok then s.setDepth t m (· + 1) else s
  { s with taking := Function.update s.taking t none, returned := some (t, m, e) }

/-- Put a section in flight. -/
def push (s : MutexState T O) (a : Pending T) : MutexState T O :=
  { s with resumes := a :: s.resumes }

end MutexState

/-- One step. The mutex functions assert the type of their argument. -/
def mutexStep (fuel : ℕ) (s : MutexState T O) : MutexLabel T O → Option (MutexState T O)
  | .start =>
    if s.kernel.currentThread = none then s.kernel.systemSchedulerStart.map s.withKernel else none
  | .schedule => s.kernel.rtSchedule.map s.withKernel
  | .yield => s.kernel.currentThread.map fun c => s.withKernel (s.kernel.threadYield c)
  | .startup t =>
    if (s.kernel.thread t).stat = .init then
      some ((s.withKernel (s.kernel.threadStartupStore t)).push (.check t))
    else none
  | .resume t => some ((s.withKernel s.kernel).push (.check t))
  | .proceed a =>
    if a ∈ s.resumes then
      some { s.withKernel (s.kernel.resumeSection a).1 with
        resumes := (s.kernel.resumeSection a).2 ++ s.resumes.erase a }
    else none
  | .suspend flag => s.self.map fun c => s.withKernel (s.kernel.threadSuspendWithFlag c flag).2
  | .sleep => s.self.map fun c => s.withKernel (s.kernel.threadSleep c).2
  | .timeout t =>
    if (s.kernel.thread t).threadTimer = true ∧ (s.kernel.thread t).stat.isSuspend = true then
      some (s.withKernel (s.kernel.threadTimeout t))
    else none
  | .changePriority t p => some (s.withKernel (s.kernel.threadChangePriority t p))
  | .take m timeout flag =>
    if (s.kernel.object m).type = .mutex then do
      let c ← s.self
      match ← s.kernel.mutexTake fuel c m timeout flag with
      | (.ret e, k) => some ((s.withKernel k).takeReturns c m e)
      | (.blocked, k) => some ((s.withKernel k).setTaking c (some m))
    else none
  | .takeResume => do
    let c ← s.kernel.currentThread
    let m ← s.taking c
    if (s.kernel.thread c).stat = .running then
      (s.kernel.mutexTakeResume fuel c m).map fun r => (s.withKernel r.2).takeReturns c m r.1
    else none
  | .release m =>
    if (s.kernel.object m).type = .mutex then
      s.self.map fun c =>
        let r := s.kernel.mutexRelease c m
        if r.1 = .eok then (s.withKernel r.2).setDepth c m (· - 1) else s.withKernel r.2
    else none
  | .setprioceiling m p =>
    if (s.kernel.object m).type = .mutex then
      (s.kernel.mutexSetprioceiling fuel m p).map s.withKernel
    else none
  | .detachMutex m =>
    if (s.kernel.object m).type = .mutex then some (s.withKernel (s.kernel.mutexDetach m)) else none
  | .detachThread t =>
    (s.kernel.threadDetach fuel t).map fun k => (s.withKernel k).setTaking t none
  | .ipcWait o timeout flag =>
    if (s.kernel.object o).type ≠ .mutex then
      s.self.map fun c =>
        { s.withKernel (s.kernel.ipcWait c o timeout flag).2 with
          waiting := Function.update s.waiting c (some o) }
    else none
  | .ipcWake o =>
    if (s.kernel.object o).type ≠ .mutex then (s.kernel.ipcListResume o).map s.withKernel else none
  | .eventWake o t =>
    if (s.kernel.object o).type = .event ∧ t ∈ s.kernel.list (.suspend o) then
      some (s.withKernel (s.kernel.ipcResumeThread .eok t))
    else none

/-- Before the scheduler starts: initialized threads and objects, and nothing has happened. -/
structure MutexInit (s : MutexState T O) : Prop where
  kernel : ∃ priority object, s.kernel = Kernel.initial priority object ∧
    (∀ t, priority t < threadPriorityMax) ∧
    ∀ o, (object o).owner = none ∧ ((object o).type = .mutex → object o = IpcObject.mutexInit)
  taking : ∀ t, s.taking t = none
  resumes : s.resumes = []
  depth : ∀ t m, s.depth t m = 0
  returned : s.returned = none
  waiting : ∀ t, s.waiting t = none

/-- The mutexes as a system; `fuel` bounds the loop of `_thread_update_priority`. -/
def mutexSystem (T O : Type) [DecidableEq T] [DecidableEq O] (fuel : ℕ) :
    System (MutexState T O) (MutexLabel T O) := ⟨MutexInit, mutexStep fuel⟩

end RtThread
