import RtThread.Pthreads.CondSem

/-!
# Reader-writer locks

`components/libc/posix/pthreads/pthread_rwlock.c`, with the parts of `pthread_cond.c` that it runs through. The
lock and its counters are guarded by `rw_mutex`, which a thread takes when it is free and gives up in
`pthread_cond_wait`; threads time out at any moment, also while another one holds `rw_mutex`.

* `RwPc`, `RwLock`: where a thread is, and the lock;
* `RwLock.test`, `RwLock.wait`, `RwLock.woken`: the loops of `rdlock` and `wrlock` in all their forms;
* `RwLock.drop`, `RwLock.signal`, `RwLock.broadcast`: `pthread_rwlock_unlock`;
* `RwLabel`, `rwSystem`: the runs.
-/

namespace RtThread

/-- Reading or writing. -/
inductive RwMode where
  | read
  | write
  deriving DecidableEq

/-- The forms `pthread_rwlock_tryrdlock`, `pthread_rwlock_rdlock` and `pthread_rwlock_timedrdlock`, or those of
`wrlock`. -/
inductive RwForm where
  | tryOnce
  | forever
  | timed
  deriving DecidableEq

/-- A call. -/
structure RwCall where
  mode : RwMode
  form : RwForm
  deriving DecidableEq

/-- The results 0, `EBUSY` and `ETIMEDOUT`. -/
inductive RwResult where
  | ok
  | busy
  | timedOut
  deriving DecidableEq

/-- Where a thread is: outside; at the first `pthread_mutex_lock` of a call, at the test of the lock, in
`pthread_cond_wait` or `pthread_cond_timedwait` up to their `rt_schedule`, suspended there (with a running timer
or without), behind it at `pthread_mutex_lock` and behind the wait (timed out or not), at `pthread_mutex_unlock`;
and in `pthread_rwlock_unlock`: at `pthread_mutex_lock`, behind it, at the two sections of
`pthread_cond_signal`, and in the loop of `pthread_cond_broadcast` at `rt_sem_trytake` and at its two
`rt_sem_release`. -/
inductive RwPc where
  | idle
  | returned (result : RwResult)
  | lock (c : RwCall)
  | test (c : RwCall)
  | wait (c : RwCall)
  | suspended (c : RwCall) (timer : Bool)
  | resumed (c : RwCall) (timedOut : Bool)
  | woken (c : RwCall) (timedOut : Bool)
  | leave (result : RwResult)
  | unlock
  | drop
  | signal
  | signalRelease
  | broadcast
  | broadcastRelease
  | broadcastLast
  deriving DecidableEq

/-- A lock. `cond` are `rw_condreaders` and `rw_condwriters`, `nwait` are `rw_nwaitreaders` and
`rw_nwaitwriters`. The last two fields only record who holds the lock. -/
structure RwLock (W : Type) where
  mutex : Option W
  refcount : ℤ
  nwait : RwMode → ℕ
  cond : RwMode → CondSem W
  pc : W → RwPc
  readers : List W
  writer : Option W

namespace RwLock

variable {W : Type} [DecidableEq W] (s : RwLock W)

/-- Go on. -/
def goto (w : W) (pc : RwPc) : RwLock W := { s with pc := Function.update s.pc w pc }

/-- `pthread_mutex_lock` by a thread that does not own `rw_mutex`. -/
def acquire (w : W) (pc : RwPc) : Option (RwLock W) :=
  if s.mutex = none then some { s.goto w pc with mutex := some w } else none

/-- The test of the loop: the call must wait. -/
def blocked : RwMode → Bool
  | .read => decide (s.refcount < 0) || decide (0 < s.nwait .write)
  | .write => decide (s.refcount ≠ 0)

/-- The lock is taken. -/
def grant (w : W) : RwMode → RwLock W
  | .read => { s with refcount := s.refcount + 1, readers := w :: s.readers }
  | .write => { s with refcount := -1, writer := some w }

/-- One turn of the loop up to the wait. -/
def test (w : W) (c : RwCall) : RwLock W :=
  if s.blocked c.mode then
    if c.form = .tryOnce then s.goto w (.leave .busy)
    else { s.goto w (.wait c) with nwait := Function.update s.nwait c.mode (s.nwait c.mode + 1) }
  else (s.grant w c.mode).goto w (.leave .ok)

/-- `_pthread_cond_timedwait` up to its `rt_schedule`; `ticks` is the result of `rt_timespec_to_tick`. -/
def wait (w : W) (c : RwCall) (ticks : ℕ) : RwLock W :=
  if 0 < (s.cond c.mode).value then
    { s.goto w (.woken c false) with
      cond := Function.update s.cond c.mode { s.cond c.mode with value := (s.cond c.mode).value - 1 } }
  else if c.form = .timed ∧ ticks = 0 then s.goto w (.woken c true)
  else
    { s.goto w (.suspended c (decide (c.form = .timed))) with
      mutex := none
      cond := Function.update s.cond c.mode ((s.cond c.mode).suspend w) }

/-- The rest of the turn behind the wait. -/
def woken (w : W) (c : RwCall) (timedOut : Bool) : RwLock W :=
  { s.goto w (if timedOut then .leave .timedOut else .test c) with
    nwait := Function.update s.nwait c.mode (s.nwait c.mode - 1) }

/-- `rt_sem_release` on a condition variable: the first thread goes on, or the value is raised. -/
def release (m : RwMode) : RwLock W :=
  match (s.cond m).suspended with
  | [] => { s with cond := Function.update s.cond m (s.cond m).raise }
  | w :: l =>
    match s.pc w with
    | .suspended c _ =>
      { s.goto w (.resumed c false) with cond := Function.update s.cond m { s.cond m with suspended := l } }
    | _ => { s with cond := Function.update s.cond m { s.cond m with suspended := l } }

/-- `pthread_rwlock_unlock` behind `pthread_mutex_lock`. -/
def drop (w : W) : RwLock W :=
  let s :=
    if 0 < s.refcount then { s with refcount := s.refcount - 1, readers := s.readers.erase w }
    else if s.refcount = -1 then { s with refcount := 0, writer := none }
    else s
  s.goto w
    (if 0 < s.nwait .write then if s.refcount = 0 then .signal else .leave .ok
    else if 0 < s.nwait .read then .broadcast
    else .leave .ok)

/-- The test of `pthread_cond_signal`. -/
def signal (w : W) : RwLock W :=
  s.goto w (if (s.cond .write).suspended = [] then .leave .ok else .signalRelease)

/-- `rt_sem_trytake` in the loop of `pthread_cond_broadcast`. -/
def broadcast (w : W) : RwLock W :=
  match (s.cond .read).trytake with
  | none => s.goto w .broadcastRelease
  | some c => { s.goto w .broadcastLast with cond := Function.update s.cond .read c }

/-- The next section of a thread. -/
def step (w : W) (ticks : ℕ) : Option (RwLock W) :=
  match s.pc w with
  | .lock c => s.acquire w (.test c)
  | .test c => some (s.test w c)
  | .wait c => some (s.wait w c ticks)
  | .resumed c timedOut => s.acquire w (.woken c timedOut)
  | .woken c timedOut => some (s.woken w c timedOut)
  | .leave result => some { s.goto w (.returned result) with mutex := none }
  | .unlock => s.acquire w .drop
  | .drop => some (s.drop w)
  | .signal => some (s.signal w)
  | .signalRelease => some ((s.release .write).goto w (.leave .ok))
  | .broadcast => some (s.broadcast w)
  | .broadcastRelease => some ((s.release .read).goto w .broadcast)
  | .broadcastLast => some ((s.release .read).goto w (.leave .ok))
  | _ => none

/-- Outside of the functions. -/
def outside (w : W) : Bool :=
  match s.pc w with
  | .idle => true
  | .returned _ => true
  | _ => false

/-- A call of one of the six functions that lock. -/
def call (w : W) (c : RwCall) : Option (RwLock W) := if s.outside w then some (s.goto w (.lock c)) else none

/-- A call of `pthread_rwlock_unlock` by a thread that holds the lock. -/
def callUnlock (w : W) : Option (RwLock W) :=
  if s.outside w && (decide (w ∈ s.readers) || decide (s.writer = some w)) then some (s.goto w .unlock) else none

/-- The timer of a thread. -/
def timeOut (w : W) : Option (RwLock W) :=
  match s.pc w with
  | .suspended c true =>
    some { s.goto w (.resumed c true) with
      cond := Function.update s.cond c.mode ((s.cond c.mode).remove w) }
  | _ => none

end RwLock

/-- The steps. -/
inductive RwLabel (W : Type) where
  | call (w : W) (c : RwCall)
  | unlock (w : W)
  | go (w : W) (ticks : ℕ)
  | timeOut (w : W)
  deriving DecidableEq

/-- One step. -/
def rwStep {W : Type} [DecidableEq W] (s : RwLock W) : RwLabel W → Option (RwLock W)
  | .call w c => s.call w c
  | .unlock w => s.callUnlock w
  | .go w ticks => s.step w ticks
  | .timeOut w => s.timeOut w

/-- `pthread_rwlock_init`. -/
structure RwInit {W : Type} (s : RwLock W) : Prop where
  mutex : s.mutex = none
  refcount : s.refcount = 0
  nwait : ∀ m, s.nwait m = 0
  cond : ∀ m, s.cond m = .fresh
  pc : ∀ w, s.pc w = .idle
  readers : s.readers = []
  writer : s.writer = none

/-- The runs. -/
def rwSystem (W : Type) [DecidableEq W] : System (RwLock W) (RwLabel W) where
  init := RwInit
  step := rwStep

end RtThread
