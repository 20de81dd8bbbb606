import RtThread.Lib.Queues

/-!
# Threads, IPC objects and the kernel state

The data of `rtdef.h` that the scheduler, the thread functions and the IPC functions read and write,
in the configuration of `rtconfig.h` (`RT_THREAD_PRIORITY_MAX` is 32, one CPU).

The link `tlist` of a thread serves the ready lists, the suspend lists of IPC objects and the defunct
list alike, so all of them form one family `Queues (Head O) T`.

* `Stat`, `Thread`, `IpcObject`, `Head`, `Kernel`;
* `setThread`, `setObject` and their projections.
-/

set_option linter.unusedSectionVars false

namespace RtThread

/-- `RT_THREAD_PRIORITY_MAX`. -/
abbrev threadPriorityMax : ℕ := 32

/-- `RT_MUTEX_HOLD_MAX`. -/
abbrev mutexHoldMax : ℕ := 255

/-- How a thread is suspended. -/
inductive SuspendFlag where
  | interruptible | killable | uninterruptible
  deriving DecidableEq, Repr

/-- The bits `RT_THREAD_STAT_MASK` of `thread->stat`. -/
inductive Stat where
  | init | close | ready | running
  | suspend (flag : SuspendFlag)
  deriving DecidableEq, Repr

/-- The test of `RT_THREAD_SUSPEND_MASK`. -/
def Stat.isSuspend : Stat → Bool
  | .suspend _ => true
  | _ => false

/-- The error codes used here. -/
inductive Err where
  | eok | error | etimeout | efull | einval | eintr
  deriving DecidableEq, Repr

/-- `rt_object_get_type`, for the objects a thread can wait on. -/
inductive ObjectClass where
  | null | mutex | semaphore | event | mailbox | messageQueue
  deriving DecidableEq, Repr

/-- `RT_IPC_FLAG_FIFO` and `RT_IPC_FLAG_PRIO`. -/
inductive IpcFlag where
  | fifo | prio
  deriving DecidableEq, Repr

/-- `struct rt_thread`; `yieldFlag` is `RT_THREAD_STAT_YIELD`, `threadTimer` says that the thread
timer is started. -/
structure Thread (O : Type) where
  error : Err
  stat : Stat
  yieldFlag : Bool
  currentPriority : ℕ
  initPriority : ℕ
  numberMask : BitVec 32
  takenObjectList : List O
  pendingObject : Option O
  threadTimer : Bool
  deriving DecidableEq, Repr

/-- `_thread_init`. -/
def Thread.initial {O : Type} (priority : ℕ) : Thread O where
  error := .eok
  stat := .init
  yieldFlag := false
  currentPriority := priority
  initPriority := priority
  numberMask := 0#32
  takenObjectList := []
  pendingObject := none
  threadTimer := false

/-- What the scheduler leaves alone in a thread: priorities, owned mutexes, awaited mutex. -/
def Thread.attrs {O : Type} (th : Thread O) : ℕ × ℕ × BitVec 32 × List O × Option O :=
  (th.currentPriority, th.initPriority, th.numberMask, th.takenObjectList, th.pendingObject)

/-- `struct rt_ipc_object` with the fields of `struct rt_mutex`. -/
structure IpcObject (T : Type) where
  type : ObjectClass
  flag : IpcFlag
  ceilingPriority : ℕ
  priority : ℕ
  hold : ℕ
  owner : Option T
  deriving DecidableEq, Repr

/-- `rt_mutex_init`. -/
def IpcObject.mutexInit {T : Type} : IpcObject T where
  type := .mutex
  flag := .prio
  ceilingPriority := 0xff
  priority := 0xff
  hold := 0
  owner := none

/-- The lists a thread can hang on by its `tlist`. -/
inductive Head (O : Type) where
  | ready (p : ℕ)
  | suspend (o : O)
  | defunct
  deriving DecidableEq, Repr

/-- The kernel state. -/
structure Kernel (T O : Type) where
  thread : T → Thread O
  object : O → IpcObject T
  list : Queues (Head O) T
  readyPriorityGroup : BitVec 32
  currentThread : Option T
  schedulerLockNest : ℕ

/-- The kernel before the scheduler starts, with its threads and objects initialized. -/
def Kernel.initial {T O : Type} (priority : T → ℕ) (object : O → IpcObject T) : Kernel T O where
  thread t := .initial (priority t)
  object := object
  list _ := []
  readyPriorityGroup := 0#32
  currentThread := none
  schedulerLockNest := 0

namespace Kernel

variable {T O : Type} [DecidableEq T] [DecidableEq O] (k : Kernel T O)

/-- Write to a thread. -/
def setThread (t : T) (f : Thread O → Thread O) : Kernel T O :=
  { k with thread := Function.update k.thread t (f (k.thread t)) }

/-- Write to an object. -/
def setObject (o : O) (f : IpcObject T → IpcObject T) : Kernel T O :=
  { k with object := Function.update k.object o (f (k.object o)) }

/-- `rt_list_remove` of a thread's `tlist`. -/
def listRemove (t : T) : Kernel T O := { k with list := k.list.remove t }

@[simp] theorem setThread_self (t : T) (f : Thread O → Thread O) :
    (k.setThread t f).thread t = f (k.thread t) := Function.update_self ..

@[simp] theorem setThread_of_ne {t u : T} (h : u ≠ t) (f : Thread O → Thread O) :
    (k.setThread t f).thread u = k.thread u := Function.update_of_ne h ..

@[simp] theorem setThread_object (t : T) (f : Thread O → Thread O) :
    (k.setThread t f).object = k.object := rfl

@[simp] theorem setThread_list (t : T) (f : Thread O → Thread O) :
    (k.setThread t f).list = k.list := rfl

@[simp] theorem setThread_group (t : T) (f : Thread O → Thread O) :
    (k.setThread t f).readyPriorityGroup = k.readyPriorityGroup := rfl

@[simp] theorem setThread_current (t : T) (f : Thread O → Thread O) :
    (k.setThread t f).currentThread = k.currentThread := rfl

@[simp] theorem setThread_lockNest (t : T) (f : Thread O → Thread O) :
    (k.setThread t f).schedulerLockNest = k.schedulerLockNest := rfl

theorem setThread_setThread (t : T) (f g : Thread O → Thread O) :
    (k.setThread t f).setThread t g = k.setThread t fun th => g (f th) := by
  simp [setThread]

theorem setThread_attrs (t : T) (f : Thread O → Thread O) (u : T)
    (hf : ∀ th, (f th).attrs = th.attrs) : ((k.setThread t f).thread u).attrs = (k.thread u).attrs := by
  by_cases hu : u = t
  · subst hu; rw [setThread_self]; exact hf _
  · rw [setThread_of_ne _ hu]

@[simp] theorem setObject_self (o : O) (f : IpcObject T → IpcObject T) :
    (k.setObject o f).object o = f (k.object o) := Function.update_self ..

@[simp] theorem setObject_of_ne {o o' : O} (h : o' ≠ o) (f : IpcObject T → IpcObject T) :
    (k.setObject o f).object o' = k.object o' := Function.update_of_ne h ..

theorem setObject_apply (o o' : O) (f : IpcObject T → IpcObject T) :
    (k.setObject o f).object o' = if o' = o then f (k.object o) else k.object o' :=
  Function.update_apply ..

theorem setThread_apply (t u : T) (f : Thread O → Thread O) :
    (k.setThread t f).thread u = if u = t then f (k.thread t) else k.thread u :=
  Function.update_apply ..

@[simp] theorem setObject_thread (o : O) (f : IpcObject T → IpcObject T) :
    (k.setObject o f).thread = k.thread := rfl

@[simp] theorem setObject_list (o : O) (f : IpcObject T → IpcObject T) :
    (k.setObject o f).list = k.list := rfl

@[simp] theorem setObject_current (o : O) (f : IpcObject T → IpcObject T) :
    (k.setObject o f).currentThread = k.currentThread := rfl

@[simp] theorem listRemove_thread (t : T) : (k.listRemove t).thread = k.thread := rfl
@[simp] theorem listRemove_object (t : T) : (k.listRemove t).object = k.object := rfl
@[simp] theorem listRemove_list (t : T) : (k.listRemove t).list = k.list.remove t := rfl
@[simp] theorem listRemove_current (t : T) :
    (k.listRemove t).currentThread = k.currentThread := rfl
@[simp] theorem listRemove_group (t : T) :
    (k.listRemove t).readyPriorityGroup = k.readyPriorityGroup := rfl

/-- The thread's `current_priority`, the key of every priority-ordered list. -/
abbrev prioOf (t : T) : ℕ := (k.thread t).currentPriority

end Kernel

end RtThread
