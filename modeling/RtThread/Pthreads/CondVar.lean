import RtThread.Pthreads.CondSem

/-!
# Condition variables

`components/libc/posix/pthreads/pthread_cond.c` with the mutex of the waits, whose owner hands it over to a thread
that waits for it. A POSIX signal resumes a thread that is suspended, whatever it is suspended on, and its handler
leaves `-RT_EINTR` in `thread->error`.

* `CondPc`, `CondRecord`, `CondVar`: where a thread is, what happened to a call, and the condition variable;
* `CondVar.enter`, `CondVar.back`: `_pthread_cond_timedwait` in `pthread_cond_wait` and `pthread_cond_timedwait`;
* `CondVar.release`, `CondVar.broadcast`: `pthread_cond_signal` and `pthread_cond_broadcast`;
* `CondLabel`, `condSystem`: the runs.
-/

namespace RtThread

/-- `pthread_cond_wait` or `pthread_cond_timedwait`. -/
inductive WaitKind where
  | forever
  | timed
  deriving DecidableEq

/-- The results 0, `EINVAL` and `ETIMEDOUT`. -/
inductive CondResult where
  | ok
  | einval
  | etimedout
  deriving DecidableEq

/-- `pthread_cond_signal` or `pthread_cond_broadcast`. -/
inductive CondOp where
  | signal
  | broadcast
  deriving DecidableEq

/-- Where a thread is: outside, or suspended on the mutex there; at the start of `_pthread_cond_timedwait` (again,
when it starts over), suspended, resumed with `thread->error`, at `pthread_mutex_lock` with the result, suspended
there, behind it; at the two sections of `pthread_cond_signal`; and in the loop of `pthread_cond_broadcast` at
`rt_sem_trytake` and at its two `rt_sem_release`. -/
inductive CondPc where
  | idle
  | returned (result : CondResult)
  | locking
  | enter (k : WaitKind) (again : Bool)
  | suspended (k : WaitKind)
  | ready (k : WaitKind) (e : Err)
  | relock (k : WaitKind) (e : Err)
  | relocking (k : WaitKind) (e : Err)
  | back (k : WaitKind) (e : Err)
  | signal
  | signalRelease
  | broadcast
  | broadcastRelease
  | broadcastLast
  deriving DecidableEq

namespace CondPc

/-- Outside of the functions. -/
def outside : CondPc → Bool
  | .idle => true
  | .returned _ => true
  | _ => false

/-- The wait has been interrupted and starts over. -/
def interrupted : CondPc → Bool
  | .enter k again => decide (k = .forever) && again
  | .ready k e => decide (k = .forever) && decide (e = .eintr)
  | .relock k e => decide (k = .forever) && decide (e = .eintr)
  | .relocking k e => decide (k = .forever) && decide (e = .eintr)
  | .back k e => decide (k = .forever) && decide (e = .eintr)
  | _ => false

/-- The wait is over but for the mutex. -/
def leaving : CondPc → Bool
  | .ready k e => !(decide (k = .forever) && decide (e = .eintr))
  | .relock k e => !(decide (k = .forever) && decide (e = .eintr))
  | .relocking k e => !(decide (k = .forever) && decide (e = .eintr))
  | .back k e => !(decide (k = .forever) && decide (e = .eintr))
  | _ => false

/-- On the list of the condition variable. -/
def asleep : CondPc → Bool
  | .suspended _ => true
  | _ => false

/-- The thread has given up the mutex in a wait that is in progress. -/
def waits (p : CondPc) : Bool := p.asleep || p.interrupted || p.leaving

/-- In `pthread_cond_signal` or `pthread_cond_broadcast`. -/
def calling : CondPc → Bool
  | .signal => true
  | .signalRelease => true
  | .broadcast => true
  | .broadcastRelease => true
  | .broadcastLast => true
  | _ => false

/-- In `pthread_cond_broadcast`. -/
def casting : CondPc → Bool
  | .broadcast => true
  | .broadcastRelease => true
  | .broadcastLast => true
  | _ => false

/-- Between `rt_sem_trytake` and the last `rt_sem_release` of `pthread_cond_broadcast`. -/
def last : CondPc → Bool
  | .broadcastLast => true
  | _ => false

end CondPc

/-- Classes of threads that are counted. -/
inductive CondClass where
  | interrupted
  | calling
  | casting
  | last
  deriving DecidableEq

/-- The threads of a class. -/
def CondClass.has : CondClass → CondPc → Bool
  | .interrupted => CondPc.interrupted
  | .calling => CondPc.calling
  | .casting => CondPc.casting
  | .last => CondPc.last

/-- What happened to the last call of a thread: the waits that were in progress at its start, those of them that
are in progress since, whether one of them has returned, what call it was when it has ended, the length of the
list at its start, and the sections of `pthread_cond_broadcast` that were run. -/
structure CondRecord (W : Type) where
  waiting : W → Bool
  since : W → Bool
  served : Bool
  ended : Option CondOp
  waiters : ℕ
  turns : ℕ

/-- A wait returns. -/
def CondRecord.returned {W : Type} [DecidableEq W] (r : CondRecord W) (x : W) : CondRecord W :=
  { r with since := Function.update r.since x false, served := r.served || r.since x }

/-- A condition variable and the mutex that is used with it; `recursive` is its type. The last three fields only
record what happened: the number of threads in each class, the calls, and for each wait that has returned whether
it found the mutex owned by the caller and whether it left it so. -/
structure CondVar (W : Type) where
  recursive : Bool
  owner : Option W
  hold : ℕ
  lockers : List W
  sem : CondSem W
  pc : W → CondPc
  number : CondClass → ℕ
  record : W → CondRecord W
  returns : List (Bool × Bool)

/-- `RT_MUTEX_HOLD_MAX`. -/
abbrev condHoldMax : ℕ := 255

namespace CondVar

variable {W : Type} [DecidableEq W] (s : CondVar W)

/-- Go on. -/
def goto (w : W) (p : CondPc) : CondVar W :=
  { s with
    pc := Function.update s.pc w p
    number := fun q => s.number q + (if q.has p then 1 else 0) - (if q.has (s.pc w) then 1 else 0) }

/-- The wait returns. -/
def finish (w : W) (result : CondResult) (found : Bool) : CondVar W :=
  { s.goto w (.returned result) with
    record := fun c => (s.record c).returned w
    returns := (found, decide (s.owner = some w)) :: s.returns }

/-- The mutex is handed over to a thread that waits for it, if there is one. -/
def handOver (next : W) : Option (CondVar W) :=
  if s.lockers = [] then some { s with owner := none, hold := 0 }
  else if next ∈ s.lockers then
    let s := { s with owner := some next, hold := 1, lockers := s.lockers.erase next }
    match s.pc next with
    | .relocking k e => some (s.goto next (.back k e))
    | _ => some (s.goto next .idle)
  else none

/-- `pthread_mutex_unlock` by the owner. -/
def mutexUnlock (next : W) : Option (CondVar W) :=
  if 1 < s.hold then some { s with hold := s.hold - 1 } else s.handOver next

/-- `pthread_mutex_lock`: taken (also by its owner, when that is allowed), or the thread is suspended. -/
def mutexLock (w : W) (taken suspended : CondPc) : CondVar W :=
  match s.owner with
  | none => { s.goto w taken with owner := some w, hold := 1 }
  | some o =>
    if o = w then
      if s.recursive ∧ s.hold < condHoldMax then { s.goto w taken with hold := s.hold + 1 } else s.goto w taken
    else { s.goto w suspended with lockers := s.lockers ++ [w] }

/-- `_pthread_cond_timedwait` up to its `rt_schedule`; `ticks` is the result of `rt_timespec_to_tick`. -/
def enter (w : W) (k : WaitKind) (again : Bool) (ticks : ℕ) (next : W) : Option (CondVar W) :=
  if s.owner ≠ some w then some (s.finish w .einval again)
  else if 0 < s.sem.value then
    some { s.finish w .ok true with sem := { s.sem with value := s.sem.value - 1 } }
  else if k = .timed ∧ ticks = 0 then some (s.finish w .etimedout true)
  else { s.goto w (.suspended k) with sem := s.sem.suspend w }.mutexUnlock next

/-- The rest of `pthread_cond_wait` and `pthread_cond_timedwait`. -/
def back (w : W) : WaitKind → Err → CondVar W
  | _, .eok => s.finish w .ok true
  | .forever, .eintr => s.goto w (.enter .forever true)
  | .timed, .etimeout => s.finish w .etimedout true
  | _, _ => s.finish w .einval true

/-- `rt_sem_release`: the first thread is resumed, or the value is raised. -/
def release : CondVar W :=
  match s.sem.suspended with
  | [] => { s with sem := s.sem.raise }
  | w :: l =>
    match s.pc w with
    | .suspended k => { s.goto w (.ready k .eok) with sem := { s.sem with suspended := l } }
    | _ => { s with sem := { s.sem with suspended := l } }

/-- A call of `pthread_cond_signal` or `pthread_cond_broadcast` starts. -/
def begin (w : W) (p : CondPc) : CondVar W :=
  { s.goto w p with
    record := Function.update s.record w
      ⟨fun x => (s.pc x).waits, fun x => (s.pc x).waits, false, none, s.sem.suspended.length, 0⟩ }

/-- The call ends. -/
def stop (w : W) (op : CondOp) : CondVar W :=
  { s.goto w .idle with record := Function.update s.record w { s.record w with ended := some op } }

/-- A section of `pthread_cond_broadcast`. -/
def turn (w : W) : CondVar W :=
  { s with record := Function.update s.record w { s.record w with turns := (s.record w).turns + 1 } }

/-- `rt_sem_trytake` in the loop of `pthread_cond_broadcast`. -/
def broadcast (w : W) : CondVar W :=
  match s.sem.trytake with
  | none => (s.turn w).goto w .broadcastRelease
  | some c => { (s.turn w).goto w .broadcastLast with sem := c }

/-- The next section of a thread. -/
def step (w : W) (ticks : ℕ) (next : W) : Option (CondVar W) :=
  match s.pc w with
  | .enter k again => s.enter w k again ticks next
  | .ready k e => some (s.goto w (.relock k e))
  | .relock k e => some (s.mutexLock w (.back k e) (.relocking k e))
  | .back k e => some (s.back w k e)
  | .signal => some (if s.sem.suspended = [] then s.stop w .signal else s.goto w .signalRelease)
  | .signalRelease => some (s.release.stop w .signal)
  | .broadcast => some (s.broadcast w)
  | .broadcastRelease => some ((s.release.turn w).goto w .broadcast)
  | .broadcastLast => some ((s.release.turn w).stop w .broadcast)
  | _ => none

/-- The timer of a thread. -/
def timeOut (w : W) : Option (CondVar W) :=
  match s.pc w with
  | .suspended .timed => some { s.goto w (.ready .timed .etimeout) with sem := s.sem.remove w }
  | _ => none

/-- A POSIX signal is delivered to a thread. -/
def deliver (w : W) : CondVar W :=
  match s.pc w with
  | .suspended k => { s.goto w (.ready k .eintr) with sem := s.sem.remove w }
  | .ready k _ => s.goto w (.ready k .eintr)
  | .relocking k e => { s.goto w (.back k e) with lockers := s.lockers.erase w }
  | .locking => { s.goto w .idle with lockers := s.lockers.erase w }
  | _ => s

/-- A thread that is outside calls a function. -/
def call (w : W) (next : CondVar W) : Option (CondVar W) := if (s.pc w).outside then some next else none

end CondVar

/-- The steps. -/
inductive CondLabel (W : Type) where
  | lock (w : W)
  | unlock (w next : W)
  | wait (w : W) (k : WaitKind)
  | signal (w : W)
  | broadcast (w : W)
  | go (w : W) (ticks : ℕ) (next : W)
  | timeOut (w : W)
  | deliver (w : W)
  deriving DecidableEq

/-- One step. -/
def condStep {W : Type} [DecidableEq W] (s : CondVar W) : CondLabel W → Option (CondVar W)
  | .lock w => s.call w (s.mutexLock w .idle .locking)
  | .unlock w next => if (s.pc w).outside ∧ s.owner = some w then s.mutexUnlock next else none
  | .wait w k => s.call w (s.goto w (.enter k false))
  | .signal w => s.call w (s.begin w .signal)
  | .broadcast w => s.call w (s.begin w .broadcast)
  | .go w ticks next => s.step w ticks next
  | .timeOut w => s.timeOut w
  | .deliver w => some (s.deliver w)

/-- `pthread_cond_init` and `pthread_mutex_init`. -/
structure CondInit {W : Type} (s : CondVar W) : Prop where
  owner : s.owner = none
  lockers : s.lockers = []
  sem : s.sem = .fresh
  pc : ∀ w, s.pc w = .idle
  number : ∀ q, s.number q = 0
  record : ∀ w, s.record w = ⟨fun _ => false, fun _ => false, false, none, 0, 0⟩
  returns : s.returns = []

end RtThread
