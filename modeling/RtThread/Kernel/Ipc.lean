import RtThread.Kernel.Sched

/-!
# Waiting on IPC objects, and mutexes

The static functions of `ipc.c` that suspend and resume threads on an object, the mutex functions,
and the functions of `thread.c` that end a thread. Every definition is one critical section; the two
sections of `_rt_mutex_take` around its `rt_schedule` are `mutexTake` and `mutexTakeResume`.

The loop of `_thread_update_priority` follows the chain of owners for as long as priorities change.
`fuel` bounds its iterations; a result of `none` means that the bound was too small or that the code
would follow a null pointer.

* `ipcListSuspend`, `ipcWait`, `ipcListResume`, `ipcListResumeAll`;
* `mutexUpdatePriority`, `threadGetMutexPriority`, `threadUpdatePriority`;
* `mutexTake`, `mutexTakeResume`, `mutexRelease`, `mutexSetprioceiling`, `mutexDropThread`,
  `mutexDetach`;
* `threadDetachUnlink`, `threadDetachClose`, `threadDetach`.
-/

namespace RtThread

namespace Kernel

variable {T O : Type} [DecidableEq T] [DecidableEq O] (k : Kernel T O)

/-! ## Suspend lists -/

/-- Link a thread into the suspend list of an object, in the order of the object's flag. -/
def ipcListInsert (o : O) (t : T) : Kernel T O :=
  { k with list := match (k.object o).flag with
      | .fifo => k.list.insertBeforeHead (.suspend o) t
      | .prio => Function.update k.list (.suspend o)
          (Queues.insertByKey k.prioOf t (k.list (.suspend o))) }

/-- `_ipc_list_suspend`. -/
def ipcListSuspend (o : O) (t : T) (suspendFlag : SuspendFlag) : Err × Kernel T O :=
  if (k.thread t).stat.isSuspend then (.eok, k.ipcListInsert o t)
  else match k.threadSuspendWithFlag t suspendFlag with
    | (.eok, k) => (.eok, k.ipcListInsert o t)
    | r => r

/-- The branch of `_rt_sem_take`, `_rt_event_recv` and the mailbox and message queue functions that
waits on an object. -/
def ipcWait (self : T) (o : O) (timeout : ℤ) (suspendFlag : SuspendFlag) : Err × Kernel T O :=
  let k := k.setThread self fun th => { th with error := .eintr }
  match k.ipcListSuspend o self suspendFlag with
  | (.eok, k) => (.eok, if 0 < timeout then
      k.setThread self fun th => { th with threadTimer := true } else k)
  | r => r

/-- Wake a suspended thread with an error code, as `_ipc_list_resume` and `_ipc_list_resume_all` do
with the first thread of a list, and `rt_event_send` with any whose events have come. -/
def ipcResumeThread (e : Err) (t : T) : Kernel T O :=
  ((k.setThread t fun th => { th with error := e }).threadResume t).2

/-- `_ipc_list_resume`; there is no result for an empty list. -/
def ipcListResume (o : O) : Option (Kernel T O) :=
  match k.list (.suspend o) with
  | [] => none
  | t :: _ => some (k.ipcResumeThread .eok t)

/-- `_ipc_list_resume_all`. -/
def ipcListResumeAll (o : O) : Kernel T O :=
  (k.list (.suspend o)).foldl (fun k t => k.ipcResumeThread .error t) k

/-! ## Priority inheritance -/

/-- `_mutex_update_priority`. -/
def mutexUpdatePriority (m : O) : Kernel T O :=
  k.setObject m fun x => { x with
    priority := match k.list (.suspend m) with
      | [] => 0xff
      | t :: _ => k.prioOf t }

/-- `_thread_get_mutex_priority`. -/
def threadGetMutexPriority (t : T) : ℕ :=
  (k.thread t).takenObjectList.foldl (fun priority m =>
    let x := k.object m
    let mutexPrio := if x.priority < x.ceilingPriority then x.priority else x.ceilingPriority
    if mutexPrio < priority then mutexPrio else priority) (k.thread t).initPriority

/-- The loop of `_thread_update_priority`, entered after the priority of `t` has changed. -/
def threadUpdatePriorityLoop (suspendFlag : SuspendFlag) : ℕ → Kernel T O → T → Option (Kernel T O)
  | 0, _, _ => none
  | fuel + 1, k, t =>
    if (k.thread t).stat.isSuspend then
      match (k.thread t).pendingObject with
      | none => some k
      | some m =>
        if (k.object m).type = .mutex then
          -- re-insert the thread into the suspend list
          match (k.listRemove t).ipcListSuspend m t suspendFlag with
          | (.eok, k) =>
            let k := k.mutexUpdatePriority m
            match (k.object m).owner with
            | none => none
            | some o =>
              let mutexPriority := k.threadGetMutexPriority o
              if mutexPriority ≠ k.prioOf o then
                threadUpdatePriorityLoop suspendFlag fuel (k.threadChangePriority o mutexPriority) o
              else some k
          | (_, k) => some k
        else some k
    else some k

/-- `_thread_update_priority`. -/
def threadUpdatePriority (fuel : ℕ) (t : T) (priority : ℕ) (suspendFlag : SuspendFlag) :
    Option (Kernel T O) :=
  threadUpdatePriorityLoop suspendFlag fuel (k.threadChangePriority t priority) t

/-- Bring the owner's priority up to date, when it has changed. -/
def threadRefreshPriority (fuel : ℕ) (t : T) : Option (Kernel T O) :=
  if k.threadGetMutexPriority t ≠ k.prioOf t then
    k.threadUpdatePriority fuel t (k.threadGetMutexPriority t) .uninterruptible
  else some k

/-! ## Mutexes -/

/-- How the first section of `_rt_mutex_take` ends: with a return, or suspended. -/
inductive TakeResult where
  | ret (e : Err)
  | blocked
  deriving DecidableEq, Repr

/-- `rt_list_remove` of a mutex's `taken_list`. -/
def takenRemove (m : O) : Kernel T O :=
  { k with thread := fun t => { k.thread t with
      takenObjectList := (k.thread t).takenObjectList.erase m } }

/-- `rt_list_insert_after` into the `taken_object_list` of a thread. -/
def takenInsert (t : T) (m : O) : Kernel T O :=
  k.setThread t fun th => { th with takenObjectList := m :: th.takenObjectList }

/-- `_rt_mutex_take` for a mutex without owner. -/
def mutexTakeFree (fuel : ℕ) (self : T) (m : O) (suspendFlag : SuspendFlag) :
    Option (Kernel T O) := do
  let k := k.setObject m fun x => { x with owner := some self, priority := 0xff, hold := 1 }
  let ceiling := (k.object m).ceilingPriority
  let k ← if ceiling ≠ 0xff ∧ ceiling < k.prioOf self then
      k.threadUpdatePriority fuel self ceiling suspendFlag
    else some k
  some (k.takenInsert self m)

/-- `_rt_mutex_take` for a mutex owned by another thread `owner`, up to its `rt_schedule`. -/
def mutexTakeWait (fuel : ℕ) (self owner : T) (m : O) (timeout : ℤ) (suspendFlag : SuspendFlag) :
    Option (TakeResult × Kernel T O) :=
  let priority := k.prioOf self
  match k.ipcListSuspend m self suspendFlag with
  | (.eok, k) => do
    let k := k.setThread self fun th => { th with pendingObject := some m }
    let k ← if priority < (k.object m).priority then
        let k := k.setObject m fun x => { x with priority := priority }
        if priority < k.prioOf owner then
          k.threadUpdatePriority fuel owner priority .uninterruptible
        else some k
      else some k
    some (.blocked, if 0 < timeout then k.setThread self fun th => { th with threadTimer := true }
      else k)
  | (e, k) => some (.ret e, k)

/-- `_rt_mutex_take` up to its `rt_schedule`. -/
def mutexTake (fuel : ℕ) (self : T) (m : O) (timeout : ℤ) (suspendFlag : SuspendFlag) :
    Option (TakeResult × Kernel T O) :=
  let k := k.setThread self fun th => { th with error := .eok }
  match (k.object m).owner with
  | none => (k.mutexTakeFree fuel self m suspendFlag).map fun k => (.ret .eok, k)
  | some owner =>
    if owner = self then
      if (k.object m).hold < mutexHoldMax then
        some (.ret .eok, k.setObject m fun x => { x with hold := x.hold + 1 })
      else some (.ret .efull, k)
    else if timeout = 0 then
      some (.ret .etimeout, k.setThread self fun th => { th with error := .etimeout })
    else k.mutexTakeWait fuel self owner m timeout suspendFlag

/-- What `_rt_mutex_take` and `rt_mutex_drop_thread` do when `t` has left the suspend list of `m`:
the owner's priority is looked at only when it is that of `t`. -/
def mutexWaiterLeft (fuel : ℕ) (m : O) (t : T) : Option (Kernel T O) :=
  let k' := k.mutexUpdatePriority m
  match (k.object m).owner with
  | none => some k'
  | some o => if k.prioOf o = k.prioOf t then k'.threadRefreshPriority fuel o else some k'

/-- `_rt_mutex_take` after its `rt_schedule`. -/
def mutexTakeResume (fuel : ℕ) (self : T) (m : O) : Option (Err × Kernel T O) :=
  if (k.thread self).error = .eok then some (.eok, k)
  else do
    let k ← k.mutexWaiterLeft fuel m self
    let k := k.setThread self fun th => { th with pendingObject := none }
    some ((k.thread self).error, k)

/-- `rt_mutex_drop_thread`. -/
def mutexDropThread (fuel : ℕ) (m : O) (t : T) : Option (Kernel T O) :=
  (k.listRemove t).mutexWaiterLeft fuel m t

/-- `rt_mutex_setprioceiling`. -/
def mutexSetprioceiling (fuel : ℕ) (m : O) (priority : ℕ) : Option (Kernel T O) :=
  if priority < threadPriorityMax then
    let k := k.setObject m fun x => { x with ceilingPriority := priority }
    match (k.object m).owner with
    | none => some k
    | some o => k.threadRefreshPriority fuel o
  else some k

/-- The part of `rt_mutex_release` that gives the mutex to the first waiter. -/
def mutexHandOver (m : O) (next : T) : Kernel T O :=
  let k := k.listRemove next
  let k := k.setObject m fun x => { x with owner := some next, hold := 1 }
  let k := k.takenInsert next m
  let k := k.setThread next fun th => { th with pendingObject := none }
  let k := (k.threadResume next).2
  k.mutexUpdatePriority m

/-- The part of `rt_mutex_release` for the last release. -/
def mutexReleaseLast (self : T) (m : O) : Kernel T O :=
  let k := k.takenRemove m
  let x := k.object m
  let k := if x.ceilingPriority ≠ 0xff ∨ k.prioOf self = x.priority then
      k.threadChangePriority self (k.threadGetMutexPriority self)
    else k
  match k.list (.suspend m) with
  | next :: _ => k.mutexHandOver m next
  | [] => k.setObject m fun x => { x with owner := none, priority := 0xff }

/-- `rt_mutex_release`. -/
def mutexRelease (self : T) (m : O) : Err × Kernel T O :=
  if (k.object m).owner ≠ some self then
    (.error, k.setThread self fun th => { th with error := .error })
  else
    let k := k.setObject m fun x => { x with hold := x.hold - 1 }
    (.eok, if (k.object m).hold = 0 then k.mutexReleaseLast self m else k)

/-- `rt_mutex_detach`. -/
def mutexDetach (m : O) : Kernel T O :=
  ((k.ipcListResumeAll m).takenRemove m).setObject m fun x => { x with type := .null }

/-! ## The end of a thread -/

/-- The first section of `rt_thread_detach` and `rt_thread_delete`. -/
def threadDetachUnlink (t : T) : Kernel T O :=
  if (k.thread t).stat ≠ .init then k.scheduleRemoveThread t else k

/-- The second section of `rt_thread_detach` and `rt_thread_delete`. -/
def threadDetachClose (fuel : ℕ) (t : T) : Option (Kernel T O) := do
  let k := k.setThread t fun th =>
    { th with threadTimer := false, stat := .close, yieldFlag := false }
  let k ← match (k.thread t).pendingObject with
    | none => some k
    | some m =>
      if (k.object m).type = .mutex then
        (k.mutexDropThread fuel m t).map fun k =>
          k.setThread t fun th => { th with pendingObject := none }
      else some k
  some (k.threadDefunctEnqueue t)

/-- `rt_thread_detach` and `rt_thread_delete`, uninterrupted. -/
def threadDetach (fuel : ℕ) (t : T) : Option (Kernel T O) :=
  if (k.thread t).stat = .close then some k else (k.threadDetachUnlink t).threadDetachClose fuel t

end Kernel

end RtThread
