import RtThread.Lib.SkipList
import RtThread.Lib.Wrap

/-!
# Timers

`timer.c`: the hard timers hang on `_timer_list` and the soft ones on `_soft_timer_list`, skip lists of
`RT_TIMER_SKIP_LIST_LEVEL` rows each, and are taken off when the tick has reached their `timeout_tick`.

* `Timer`, `TimerState`;
* `TimerState.timerInit`, `timerRemove`, `timerStart`, `timerStop`, `timerSetTime`: `rt_timer_init`,
  `_timer_remove`, `rt_timer_start`, `rt_timer_stop`, `rt_timer_control` with `RT_TIMER_CTRL_SET_TIME`;
* `TimerState.timerCheck`, `softTimerCheck`: `rt_timer_check`, `rt_soft_timer_check`, with their loop.
-/

namespace RtThread

/-- `rt_tick_t`. -/
abbrev Tick : Type := BitVec 32

/-- `RT_TICK_MAX / 2`. -/
def halfTickMax : Tick := 0xffffffff#32 / 2

/-- `RT_TIMER_SKIP_LIST_MASK`. -/
def timerSkipListMask : BitVec 32 := 0x3

/-- `struct rt_timer`, with the bits of `parent.flag`. -/
structure Timer where
  initTick : Tick
  timeoutTick : Tick
  periodic : Bool
  activated : Bool
  soft : Bool
  deriving DecidableEq

/-- The tick, the timers and the lists: the rows of `_soft_timer_list` and of `_timer_list`, from the top
row down, and the local `list` of the function that calls callbacks. `called` are the callbacks so far;
`startedAt` only records which start the last one of a timer was. -/
structure TimerState (T : Type) where
  tick : Tick
  timer : T → Timer
  rows : Bool → ℕ → List T
  list : List T
  randomNr : BitVec 32
  softTimerBusy : Bool
  timerThreadSuspended : Bool
  called : List T
  starts : ℕ
  startedAt : T → ℕ

namespace TimerState

variable {T : Type} [DecidableEq T] (levels : ℕ) (s : TimerState T)

/-- Write to a timer. -/
def setTimer (t : T) (f : Timer → Timer) : TimerState T :=
  { s with timer := Function.update s.timer t (f (s.timer t)) }

/-- The row of all timers. -/
def bottom (soft : Bool) : List T := s.rows soft (levels - 1)

/-- `rt_timer_init`, which asserts that the time is below half the range, for a timer on no list. -/
def timerInit (t : T) (time : Tick) (periodic soft : Bool) : Option (TimerState T) :=
  if time < halfTickMax then
    some (s.setTimer t fun _ => ⟨time, 0, periodic, false, soft⟩)
  else none

/-- `_timer_remove`: off whatever list the timer is on. -/
def timerRemove (t : T) : TimerState T :=
  { s with rows := fun soft l => (s.rows soft l).erase t, list := s.list.erase t }

/-- The test of `rt_timer_start` whether to go on behind a timer: it has the same `timeout_tick`, or it is
not less than half the range of ticks after it. -/
def passes (t u : T) : Bool :=
  let d := (s.timer u).timeoutTick - (s.timer t).timeoutTick
  decide (d = 0) || !decide (d < halfTickMax)

/-- The number of rows above the lowest that get the timer, at most `n`. -/
def rowsAbove : ℕ → BitVec 32 → ℕ
  | 0, _ => 0
  | n + 1, tst => if tst &&& timerSkipListMask = 0 then rowsAbove n (tst >>> 2) + 1 else 0

/-- Link the timer into its list. -/
def timerInsert (t : T) : TimerState T :=
  let soft := (s.timer t).soft
  let randomNr := s.randomNr + 1
  let top := levels - 1 - rowsAbove (levels - 1) randomNr
  { s with
    rows := Function.update s.rows soft fun l =>
      if top ≤ l then insertBehind (rowHead (s.passes t) (s.rows soft) l) t (s.rows soft l)
      else s.rows soft l
    randomNr := randomNr }

/-- `rt_timer_start`. A suspended timer thread is resumed. -/
def timerStart (t : T) : TimerState T :=
  let s := s.timerRemove t
  let s := s.setTimer t fun x => { x with activated := false, timeoutTick := s.tick + x.initTick }
  let s := s.timerInsert levels t
  let s := s.setTimer t fun x => { x with activated := true }
  { s with
    timerThreadSuspended := s.timerThreadSuspended && !((s.timer t).soft && !s.softTimerBusy)
    starts := s.starts + 1
    startedAt := Function.update s.startedAt t s.starts }

/-- `rt_timer_stop`, without a result for a timer that is not activated. -/
def timerStop (t : T) : Option (TimerState T) :=
  if (s.timer t).activated then
    some ((s.timerRemove t).setTimer t fun x => { x with activated := false })
  else none

/-- `RT_TIMER_CTRL_SET_TIME`, which asserts that the time is below half the range. -/
def timerSetTime (t : T) (time : Tick) : Option (TimerState T) :=
  if time < halfTickMax then some (s.setTimer t fun x => { x with initTick := time }) else none

/-- The tick has reached the timer. -/
def due (t : T) : Prop := s.tick - (s.timer t).timeoutTick < halfTickMax

instance (t : T) : Decidable (s.due t) := inferInstanceAs (Decidable (_ < _))

/-- The timer is taken off, and its callback called. -/
def timerExpire (callback : T → TimerState T → TimerState T) (soft : Bool) (t : T) : TimerState T :=
  let s := s.timerRemove t
  let s := if (s.timer t).periodic then s else s.setTimer t fun x => { x with activated := false }
  let s := { s with list := t :: s.list, softTimerBusy := soft || s.softTimerBusy }
  let s := callback t s
  { s with softTimerBusy := !soft && s.softTimerBusy }

/-- The timer is started again if it is periodic, and nobody has started or stopped it meanwhile. -/
def timerRearm (t : T) : TimerState T :=
  if s.list = [] then s
  else
    let s := { s with list := s.list.erase t }
    if (s.timer t).periodic ∧ (s.timer t).activated then
      (s.setTimer t fun x => { x with activated := false }).timerStart levels t
    else s

/-- The loop of `rt_timer_check` and of `rt_soft_timer_check`, for a number of turns. -/
def checkLoop (callback : T → TimerState T → TimerState T) (soft : Bool) :
    ℕ → TimerState T → Option (TimerState T)
  | 0, _ => none
  | n + 1, s =>
    match s.bottom levels soft with
    | [] => some s
    | t :: _ =>
      if s.due t then checkLoop callback soft n ((s.timerExpire callback soft t).timerRearm levels t)
      else some s

/-- `rt_timer_check`. -/
def timerCheck (callback : T → TimerState T → TimerState T) (fuel : ℕ) : Option (TimerState T) :=
  checkLoop levels callback false fuel { s with list := [] }

/-- `rt_soft_timer_check`. -/
def softTimerCheck (callback : T → TimerState T → TimerState T) (fuel : ℕ) : Option (TimerState T) :=
  checkLoop levels callback true fuel { s with list := [] }

/-- A callback that touches no timer; `elapse` ticks pass while it runs. -/
def quietCall (elapse : ℕ → Tick) (t : T) (s : TimerState T) : TimerState T :=
  { s with called := s.called ++ [t], tick := s.tick + elapse s.called.length }

end TimerState

end RtThread
