import RtThread.Ktime.Hrtimer
import RtThread.Utilities.ResourceId

/-!
# POSIX timers

`components/libc/compilers/common/ctime.c`: `timer_create` hands out an identifier of `id_timer` and enters
the timer object into `_g_timerid`; `timer_delete` puts the identifier back and frees the object, but its cell
of `_g_timerid` keeps pointing to it.

* `TimerObj`, `PsxTimers`, `PsxResult`;
* `PsxTimers.timerCreate`, `timerDelete`, `timerGettime`, `timerSettime`;
* `PsxLabel`, `psxSystem`: the runs.
-/

namespace RtThread

/-- `struct timespec`. -/
structure TimeSpec where
  sec : ℤ
  nsec : ℤ
  deriving DecidableEq

/-- `struct itimerspec`. -/
structure ITimerSpec where
  interval : TimeSpec
  value : TimeSpec
  deriving DecidableEq

/-- The clocks. -/
inductive ClockId where
  | realtime
  | realtimeAlarm
  | monotonic
  | boottime
  | boottimeAlarm
  | processCputime
  | threadCputime
  | other
  deriving DecidableEq

/-- The clocks that `timer_create` supports. -/
def ClockId.supported : ClockId → Bool
  | .other => false
  | _ => true

/-- `struct timer_obj` without its `hrtimer`; `active` is `status == ACTIVE`. -/
structure TimerObj (w : ℕ) where
  interval : TimeSpec
  value : TimeSpec
  reload : BitVec w
  active : Bool
  clockid : ClockId

/-- `TIMER_ID_MAX`. -/
def timerIdMax : ℕ := 50

/-- How a call ends: with a result, with -1 and an error number, with an error of a clock, or after a read
outside `_g_timerid`. -/
inductive PsxResult where
  | ok
  | created (timerid : ℕ)
  | einval
  | enomem
  | efault
  | overflow
  | clock
  | gotTime (its : ITimerSpec)
  | wild
  deriving DecidableEq

/-- A call with an identifier: the timer that had it, the result, and the timer objects that were accessed. -/
structure PsxCall (O : Type) where
  owner : Option O
  result : PsxResult
  touched : List O

/-- The timer objects, by address, with their high-resolution timers, the heap, `_g_timerid` and `id_timer`.
`live`, `allocs`, `frees` and `calls` only record what happened: the timers that were created and not
deleted, how often an address was allocated and freed, and the calls. -/
structure PsxTimers (O : Type) (w : ℕ) where
  hr : HrState O w
  obj : O → TimerObj w
  allocated : O → Bool
  gTimerid : ℕ → Option O
  idTimer : ResourceId
  live : List (ℕ × O)
  allocs : O → ℕ
  frees : O → ℕ
  calls : List (PsxCall O)

namespace PsxTimers

variable {O : Type} [DecidableEq O] {w : ℕ} (b : Board w) (s : PsxTimers O w)

/-- The timer that has an identifier. -/
def owner (k : ℕ) : Option O := (s.live.find? fun p => decide (p.1 = k)).map (·.2)

/-- `timer_create`, for pointers that are valid or not, `SIGEV_THREAD` or not, and the result of `rt_malloc`. -/
def timerCreate (valid thread : Bool) (clockid : ClockId) (mem : Option O) :
    Option (PsxResult × PsxTimers O w) :=
  if !valid then some (.einval, s)
  else if thread then some (.einval, s)
  else if !clockid.supported then some (.einval, s)
  else
    match mem with
    | none => some (.enomem, s)
    | some timer =>
      if s.allocated timer then none
      else
        (s.hr.hrtimerInit timer 0 false).map fun hr =>
          let s := { s with
            hr := hr
            obj := Function.update s.obj timer ⟨⟨0, 0⟩, (s.obj timer).value, 0, false, clockid⟩
            allocated := Function.update s.allocated timer true
            allocs := Function.update s.allocs timer (s.allocs timer + 1) }
          match resourceIdGet s.idTimer with
          | none => (.overflow, s)
          | some (k, m) =>
            (.created k, { s with
              idTimer := m
              gTimerid := Function.update s.gTimerid k (some timer)
              live := (k, timer) :: s.live })

/-- `rt_ktime_hrtimer_detach`; `interrupted` is whether `error` is `RT_EINTR` with either sign. -/
def hrtimerDetach (hr : HrState O w) (t : O) (interrupted : Bool) : HrState O w :=
  let hr := { hr.setTimer t fun x => { x with activated := false } with
    running := Function.update hr.running t false }
  if interrupted then ({ hr with nowtimer := none, list := hr.list.erase t } : HrState O w).setNext b
  else hr

/-- `timer_delete`, with the objects that are accessed. -/
def timerDelete (k : ℕ) (interrupted : Bool) : PsxResult × List O × PsxTimers O w :=
  if timerIdMax ≤ k then (.einval, [], s)
  else
    match s.gTimerid k with
    | none => (.einval, [], s)
    | some timer =>
      let hr := if (s.obj timer).active then s.hr.hrtimerStop b timer else s.hr
      (.ok, [timer], { s with
        idTimer := resourceIdPut s.idTimer k
        obj := Function.update s.obj timer { s.obj timer with active := false }
        hr := hrtimerDetach b hr timer interrupted
        allocated := Function.update s.allocated timer false
        frees := Function.update s.frees timer (s.frees timer + 1)
        live := s.live.filter fun p => !decide (p.1 = k) })

/-- `NANOSECOND_PER_SECOND`. -/
def nanosecondPerSecond : ℕ := 1000000000

/-- `RT_KTIME_RESMUL`. -/
def ktimeResmul : ℕ := 1000000

/-- What `timer_gettime` writes for an object; the nanoseconds are an `rt_uint32_t`. -/
def remaining (timer : O) : ITimerSpec :=
  let x := s.obj timer
  if x.active then
    let cnt := ((s.hr.timer timer).timeoutCnt - s.hr.getcnt) * b.cputimerRes / BitVec.ofNat w ktimeResmul
    let nanoseconds := cnt.toNat % 2 ^ 32
    ⟨x.interval, ⟨(nanoseconds / nanosecondPerSecond : ℕ), (nanoseconds % nanosecondPerSecond : ℕ)⟩⟩
  else ⟨x.interval, ⟨0, 0⟩⟩

/-- `timer_gettime`, with the objects that are accessed. -/
def timerGettime (k : ℕ) (itsNull : Bool) : PsxResult × List O :=
  if timerIdMax ≤ k then (.wild, [])
  else
    match s.gTimerid k with
    | none => (.einval, [])
    | some timer => if itsNull then (.efault, []) else (.gotTime (s.remaining b timer), [timer])

/-- The tests of `timer_settime` on the times. -/
def validSpec (v : ITimerSpec) : Bool :=
  decide (0 ≤ v.interval.nsec ∧ v.interval.nsec < nanosecondPerSecond ∧ 0 ≤ v.interval.sec ∧
    0 ≤ v.value.nsec ∧ v.value.nsec < nanosecondPerSecond ∧ 0 ≤ v.value.sec)

/-- `(ns * RT_KTIME_RESMUL) / res`. -/
def reloadCnt (ns : ℤ) : BitVec w :=
  (BitVec.ofInt 64 ns * BitVec.ofNat 64 ktimeResmul / b.cputimerRes.setWidth 64).setWidth w

/-- `timer_settime` behind its tests, for an object: `now` is what the clock says for `TIMER_ABSTIME`, with
`none` for an error, and zero otherwise. An assertion of `rt_ktime_hrtimer_control` may fail. -/
def settimeObj (timer : O) (v : ITimerSpec) (now : Option TimeSpec) :
    Option (PsxResult × PsxTimers O w) :=
  let x := s.obj timer
  if v.value.sec = 0 ∧ v.value.nsec = 0 then
    some (.ok, { s with
      hr := if x.active then s.hr.hrtimerStop b timer else s.hr
      obj := Function.update s.obj timer { x with active := false } })
  else if !x.clockid.supported then some (.einval, s)
  else
    match now with
    | none => some (.clock, s)
    | some ts =>
      let ns := v.value.nsec - ts.nsec + (v.value.sec - ts.sec) * nanosecondPerSecond
      if ns ≤ 0 then some (.ok, s)
      else
        let x' := { x with reload := reloadCnt b ns, interval := v.interval, value := v.value, active := true }
        let hr := if x.active then s.hr.hrtimerStop b timer else s.hr
        let hr := hr.setPeriodic timer !decide (v.interval.sec = 0 ∧ v.interval.nsec = 0)
        (hr.setTime timer x'.reload).map fun hr =>
          (.ok, { s with hr := hr.hrtimerStart b timer, obj := Function.update s.obj timer x' })

/-- `timer_settime`, with the objects that are accessed. With `ovalue` it calls `timer_gettime` first, which
changes nothing. -/
def timerSettime (k : ℕ) (v : ITimerSpec) (now : Option TimeSpec) :
    Option (PsxResult × List O × PsxTimers O w) :=
  if timerIdMax ≤ k then some (.wild, [], s)
  else
    match s.gTimerid k with
    | none => some (.einval, [], s)
    | some timer =>
      if !validSpec v then some (.einval, [], s)
      else (s.settimeObj b timer v now).map fun r => (r.1, [timer], r.2)

/-- Record a call. -/
def record (s' : PsxTimers O w) (k : ℕ) (result : PsxResult) (touched : List O) : PsxTimers O w :=
  { s' with calls := ⟨s.owner k, result, touched⟩ :: s'.calls }

end PsxTimers

/-- The calls, and what time and the time-outs do to the timers: `rtthread_timer_wrapper` writes `status` and
`reload`. -/
inductive PsxLabel (O : Type) (w : ℕ) where
  | create (valid thread : Bool) (clockid : ClockId) (mem : Option O)
  | delete (timerid : ℕ) (interrupted : Bool)
  | gettime (timerid : ℕ) (itsNull : Bool)
  | settime (timerid : ℕ) (v : ITimerSpec) (now : Option TimeSpec)
  | timeOuts (hr : HrState O w) (active : O → Bool) (reload : O → BitVec w)

/-- One call. -/
def psxStep {O : Type} [DecidableEq O] {w : ℕ} (b : Board w) (s : PsxTimers O w) :
    PsxLabel O w → Option (PsxTimers O w)
  | .create valid thread clockid mem => (s.timerCreate valid thread clockid mem).map (·.2)
  | .delete k interrupted =>
    let r := s.timerDelete b k interrupted
    some (s.record r.2.2 k r.1 r.2.1)
  | .gettime k itsNull =>
    let r := s.timerGettime b k itsNull
    some (s.record s k r.1 r.2)
  | .settime k v now => (s.timerSettime b k v now).map fun r => s.record r.2.2 k r.1 r.2.1
  | .timeOuts hr active reload =>
    some { s with hr := hr, obj := fun o => { s.obj o with active := active o, reload := reload o } }

/-- `_g_timerid` and `timer_id` are zero, and no object is allocated. -/
structure PsxInit {O : Type} {w : ℕ} (s : PsxTimers O w) : Prop where
  allocated : ∀ o, s.allocated o = false
  gTimerid : ∀ k, s.gTimerid k = none
  idTimer : s.idTimer = ⟨timerIdMax, fun _ => none, 0, none⟩
  live : s.live = []
  allocs : ∀ o, s.allocs o = 0
  frees : ∀ o, s.frees o = 0
  calls : s.calls = []

/-- The runs of the calls. -/
def psxSystem (O : Type) [DecidableEq O] {w : ℕ} (b : Board w) : System (PsxTimers O w) (PsxLabel O w) where
  init := PsxInit
  step := psxStep b

end RtThread
