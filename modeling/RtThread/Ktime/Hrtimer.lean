import RtThread.Lib.System
import RtThread.Lib.Wrap

/-!
# High-resolution timers

`components/drivers/ktime/src/hrtimer.c`: the timers hang on one list in the order of `timeout_cnt`, and the
hardware time-out is armed for one of them, `_nowtimer`. An `unsigned long` has `w` bits.

* `Hrtimer`, `Board`, `HrState`;
* `HrState.cntConvert`, `setNextTimeout`, `timeoutCallback`: `_cnt_convert`, `_set_next_timeout`,
  `_timeout_callback`;
* `HrState.hrtimerInit`, `hrtimerStart`, `hrtimerStop`, `setTime`: `rt_ktime_hrtimer_init`,
  `rt_ktime_hrtimer_start`, `rt_ktime_hrtimer_stop`, `rt_ktime_hrtimer_control` with
  `RT_TIMER_CTRL_SET_TIME`;
* `HrLabel`, `hrSystem`: the runs.
-/

namespace RtThread

/-- `struct rt_ktime_hrtimer`, with the bits of `parent.flag`. -/
structure Hrtimer (w : ℕ) where
  initCnt : BitVec w
  timeoutCnt : BitVec w
  periodic : Bool
  activated : Bool
  deriving DecidableEq

/-- The counters of a board: `rt_ktime_cputimer_getres`, `rt_ktime_hrtimer_getres`, and how many counts of
the CPU timer pass at least before a hardware time-out of some counts comes. -/
structure Board (w : ℕ) where
  wide : 0 < w
  cputimerRes : BitVec w
  hrtimerRes : BitVec w
  span : BitVec w → ℕ

/-- `unsigned long` has 32 bits. -/
theorem Board.wide_32 : 0 < 32 := by decide

/-- A call of a `timeout_func`, with the time and the deadline, and whether the timer was started and not
stopped since. -/
structure HrCall (H : Type) where
  timer : H
  time : ℕ
  deadline : ℕ
  running : Bool
  deriving DecidableEq

/-- The timers, `_timer_list`, `_nowtimer` and the hardware time-out with its parameter and the time before
which it does not come. The counter of the CPU timer is `time` modulo its range. `called`, `deadline`,
`running` and `armedFor` only record what happened: the calls, when a timer shall be called, whether it was
started and not stopped since, and the deadline for which the hardware time-out was armed. -/
structure HrState (H : Type) (w : ℕ) where
  time : ℕ
  timer : H → Hrtimer w
  list : List H
  nowtimer : Option H
  alarm : Option (H × ℕ)
  called : List (HrCall H)
  deadline : H → ℕ
  running : H → Bool
  armedFor : ℕ

namespace HrState

variable {H : Type} [DecidableEq H] {w : ℕ} (b : Board w) (s : HrState H w)

/-- `_HRTIMER_MAX_CNT / 2`. -/
def hrtimerHalf (w : ℕ) : BitVec w := BitVec.ofNat w (halfRange w)

/-- `rt_ktime_cputimer_getcnt`. -/
def getcnt : BitVec w := BitVec.ofNat w s.time

/-- `_cnt_convert` of a number of counts from now. -/
def convert (count : BitVec w) : BitVec w :=
  if count > hrtimerHalf w then 0
  else
    let rtn := count * b.cputimerRes / b.hrtimerRes
    if rtn = 0 then 1 else rtn

/-- `_cnt_convert`. -/
def cntConvert (cnt : BitVec w) : BitVec w := convert b (cnt - s.getcnt)

/-- Write to a timer. -/
def setTimer (t : H) (f : Hrtimer w → Hrtimer w) : HrState H w :=
  { s with timer := Function.update s.timer t (f (s.timer t)) }

/-- `_timeout_callback` up to its call of `_set_next_timeout`. The callback touches no timer. -/
def expire (t : H) : HrState H w :=
  { s with
    nowtimer := none
    list := s.list.erase t
    called := if (s.timer t).activated then s.called ++ [⟨t, s.time, s.deadline t, s.running t⟩]
      else s.called }

/-- `_set_next_timeout`, with `rt_ktime_hrtimer_settimeout`, which calls `_timeout_callback` at once for a
count of zero. These calls nest no deeper than the list is long. -/
def setNextTimeout : ℕ → HrState H w → HrState H w
  | 0, s => if s.list = [] then { s with nowtimer := none, alarm := none } else s
  | n + 1, s =>
    match s.list with
    | [] => { s with nowtimer := none, alarm := none }
    | t :: _ =>
      if s.nowtimer.all fun now => decide (t ≠ now ∧ (s.timer t).timeoutCnt < (s.timer now).timeoutCnt) then
        let cnt := s.cntConvert b (s.timer t).timeoutCnt
        if cnt = 0 then setNextTimeout n ({ s with nowtimer := some t, alarm := none }.expire t)
        else
          { s with
            nowtimer := some t
            alarm := some (t, s.time + b.span cnt)
            armedFor := s.deadline t }
      else s

/-- `_set_next_timeout`. -/
def setNext : HrState H w := setNextTimeout b s.list.length s

/-- `_timeout_callback`. -/
def timeoutCallback (t : H) : HrState H w := (s.expire t).setNext b

/-- `rt_ktime_hrtimer_init`, which asserts that the count is below half the range. -/
def hrtimerInit (t : H) (cnt : BitVec w) (periodic : Bool) : Option (HrState H w) :=
  if cnt < hrtimerHalf w then
    some { s.setTimer t fun _ => ⟨cnt, cnt + s.getcnt, periodic, false⟩ with
      deadline := Function.update s.deadline t (s.time + cnt.toNat)
      running := Function.update s.running t false }
  else none

/-- The loop of `rt_ktime_hrtimer_start`: the timer goes before the first one that is later. -/
def hrInsert (t : H) : List H → List H
  | [] => [t]
  | u :: l =>
    let d := (s.timer u).timeoutCnt - (s.timer t).timeoutCnt
    if d = 0 then u :: hrInsert t l
    else if d < hrtimerHalf w then t :: u :: l
    else u :: hrInsert t l

/-- The critical section of `rt_ktime_hrtimer_start`. -/
def link (t : H) : HrState H w :=
  { s.setTimer t fun x => { x with activated := true } with
    list := s.hrInsert t (s.list.erase t)
    running := Function.update s.running t true }

/-- `rt_ktime_hrtimer_start`. -/
def hrtimerStart (t : H) : HrState H w := (s.link t).setNext b

/-- The critical section of `rt_ktime_hrtimer_stop`. -/
def unlink (t : H) : HrState H w :=
  { s.setTimer t fun x => { x with activated := false } with
    nowtimer := none
    list := s.list.erase t
    running := Function.update s.running t false }

/-- `rt_ktime_hrtimer_stop`, which answers `-RT_ERROR` for a timer that is not activated. -/
def hrtimerStop (t : H) : HrState H w :=
  if (s.timer t).activated then (s.unlink t).setNext b
  else { s with running := Function.update s.running t false }

/-- `RT_TIMER_CTRL_SET_TIME`, which asserts that the count is below half the range. -/
def setTime (t : H) (cnt : BitVec w) : Option (HrState H w) :=
  if cnt < hrtimerHalf w then
    some { s.setTimer t fun x => { x with initCnt := cnt, timeoutCnt := cnt + s.getcnt } with
      deadline := Function.update s.deadline t (s.time + cnt.toNat) }
  else none

/-- `RT_TIMER_CTRL_SET_ONESHOT` and `RT_TIMER_CTRL_SET_PERIODIC`. -/
def setPeriodic (t : H) (periodic : Bool) : HrState H w :=
  s.setTimer t fun x => { x with periodic := periodic }

end HrState

/-- The operations on the timers: a start, alone or behind a `RT_TIMER_CTRL_SET_TIME`, a stop, the hardware
time-out, and the passing of time. -/
inductive HrLabel (H : Type) (w : ℕ) where
  | start (t : H)
  | restart (t : H) (cnt : BitVec w)
  | stop (t : H)
  | timeOut
  | elapse (k : ℕ)
  deriving DecidableEq

/-- One operation. -/
def hrStep {H : Type} [DecidableEq H] {w : ℕ} (b : Board w) (s : HrState H w) :
    HrLabel H w → Option (HrState H w)
  | .start t => some (s.hrtimerStart b t)
  | .restart t cnt => (s.setTime t cnt).map fun s => s.hrtimerStart b t
  | .stop t => some (s.hrtimerStop b t)
  | .timeOut =>
    match s.alarm with
    | some (t, at') => if at' ≤ s.time then some ({ s with alarm := none }.timeoutCallback b t) else none
    | none => none
  | .elapse k => some { s with time := s.time + k }

/-- All timers have been initialised, and none has been started. -/
structure HrInit {H : Type} {w : ℕ} (s : HrState H w) : Prop where
  list : s.list = []
  nowtimer : s.nowtimer = none
  alarm : s.alarm = none
  called : s.called = []
  activated : ∀ t, (s.timer t).activated = false
  running : ∀ t, s.running t = false
  timeoutCnt : ∀ t, (s.timer t).timeoutCnt = BitVec.ofNat w (s.deadline t)
  deadline : ∀ t, s.deadline t < s.time + halfRange w

/-- The runs of the operations. -/
def hrSystem (H : Type) [DecidableEq H] {w : ℕ} (b : Board w) : System (HrState H w) (HrLabel H w) where
  init := HrInit
  step := hrStep b

end RtThread
