import Mathlib
import RtThread.Pthreads.CondSem

/-!
# Work queues

`workqueue.c`: works are submitted to queues at once or with a delay, the worker thread of a queue
runs them, and they can be cancelled. Each critical section is one step, and so is each access
outside one.

* `submitWork`, `urgentWork`, `cancelWork`, `timeoutHandler`, `takeWork`, `completionLoop`: the
  sections;
* `WorkState`, `WorkLabel`, `workStep`, `workqueues`: any number of queues, works and callers, the
  soft timer thread and the workers; `resubmitted` is a note of the specification, which no function
  reads;
* `WorkStep`, **`workStep_cases`**: what a step does;
* `WorkInv`: a work hangs on one list at most, its timer is an object exactly while it is being
  submitted, and a worker executes its current work; **`workqueue_invariant`**: it holds in all
  runs.

A failed assertion has no result.
-/

set_option linter.unusedSectionVars false

namespace RtThread

/-! ## Works and queues -/

/-- The timer of a work: whether it is a timer object, and `RT_TIMER_FLAG_ACTIVATED`. -/
structure WorkTimer where
  inited : Bool := false
  activated : Bool := false
  deriving DecidableEq

namespace WorkTimer

variable (timer : WorkTimer)

/-- `rt_timer_init`; an object is not initialized again. -/
def init : Option WorkTimer := if timer.inited = false then some ⟨true, false⟩ else none

/-- `rt_timer_stop`. -/
def stop : Option WorkTimer :=
  if timer.inited = true then some { timer with activated := false } else none

/-- `rt_timer_start`. -/
def start : Option WorkTimer :=
  if timer.inited = true then some { timer with activated := true } else none

/-- `rt_timer_detach`. -/
def detach : Option WorkTimer := if timer.inited = true then some ⟨false, false⟩ else none

end WorkTimer

/-- `struct rt_work`: `RT_WORK_STATE_PENDING`, `RT_WORK_STATE_SUBMITTING`, its timer, its queue. -/
structure RtWork (Q : Type) where
  pending : Bool := false
  submitting : Bool := false
  timer : WorkTimer := {}
  workqueue : Option Q := none
  deriving DecidableEq

/-- The lists: `work_list` and `delayed_list` of each queue. -/
inductive WorkHead (Q : Type) where
  | work (q : Q)
  | delayed (q : Q)
  deriving DecidableEq

/-- What a worker does next: it is suspended, looks at its list, executes a work, or acknowledges
the completion of one. -/
inductive WorkerPhase (W : Type) where
  | suspended
  | loop
  | run (w : W)
  | complete (w : W)
  deriving DecidableEq

/-- The time-out handler: it has been called, or has read the queue of its work. -/
inductive WorkHandler (Q W : Type) where
  | idle
  | entered (w : W)
  | read (w : W) (q : Q)
  deriving DecidableEq

/-- What a caller does next: `rt_timer_start` after a delayed submission, or a step of
`rt_workqueue_cancel_work_sync`. -/
inductive WorkCall (Q W : Type) where
  | idle
  | start (w : W)
  | syncTake (q : Q) (w : W)
  | syncWait (q : Q) (w : W)
  | syncCancel (q : Q) (w : W)
  | syncReturn (q : Q) (w : W)
  deriving DecidableEq

/-- The work that a synchronous cancel is about. -/
def WorkCall.cancels {Q W : Type} : WorkCall Q W → Option W
  | .syncTake _ w => some w
  | .syncWait _ w => some w
  | .syncCancel _ w => some w
  | .syncReturn _ w => some w
  | _ => none

/-- A caller that is woken. -/
def WorkCall.wake {Q W : Type} : WorkCall Q W → WorkCall Q W
  | .syncWait q w => .syncReturn q w
  | c => c

/-- The works and queues, the timer thread, the workers and the callers. -/
structure WorkState (Q W T : Type) where
  list : Queues (WorkHead Q) W
  work : W → RtWork Q
  workCurrent : Q → Option W
  worker : Q → WorkerPhase W
  sem : Q → CondSem T
  handler : WorkHandler Q W
  call : T → WorkCall Q W
  resubmitted : T → Bool

/-- The steps; `submit` with no ticks is `rt_workqueue_dowork`. -/
inductive WorkLabel (Q W T : Type) where
  | submit (t : T) (q : Q) (w : W) (ticks : BitVec 32)
  | start (t : T)
  | urgent (t : T) (q : Q) (w : W)
  | cancel (t : T) (q : Q) (w : W)
  | syncTest (t : T) (q : Q) (w : W)
  | syncTake (t : T)
  | syncCancel (t : T)
  | syncReturn (t : T)
  | expire (w : W)
  | handlerRead
  | handlerRun
  | take (q : Q)
  | finish (q : Q)
  | complete (q : Q)

/-- `RT_TICK_MAX / 2`. -/
def rtTickMaxHalf : ℕ := (2 ^ 32 - 1) / 2

/-- The loop of `_workqueue_work_completion`, with the threads that are woken: as long as the
semaphore cannot be taken, it is released. -/
def completionLoop {T : Type} [DecidableEq T] : ℕ → CondSem T → List T → Option (List T × CondSem T)
  | 0, _, _ => none
  | n + 1, sem, woken =>
    match sem.trytake with
    | some sem => some (woken, sem)
    | none =>
      match sem.suspended with
      | [] => completionLoop n sem.raise woken
      | t :: _ => completionLoop n (sem.remove t) (woken ++ [t])

namespace WorkState

section
variable {Q W T : Type} [DecidableEq Q] [DecidableEq W] [DecidableEq T] (s : WorkState Q W T)

/-- Write a work. -/
def setWork (w : W) (x : RtWork Q) : WorkState Q W T :=
  { s with work := Function.update s.work w x }

/-- Write the lists and a work. -/
def store (list : Queues (WorkHead Q) W) (w : W) (x : RtWork Q) : WorkState Q W T :=
  { s with list := list }.setWork w x

/-- A caller goes on. -/
def setCall (t : T) (c : WorkCall Q W) : WorkState Q W T :=
  { s with call := Function.update s.call t c }

/-- The worker is resumed when it is suspended and has no work. -/
def resumeWorker (q : Q) : WorkState Q W T :=
  let phase := if s.workCurrent q = none ∧ s.worker q = .suspended then .loop else s.worker q
  { s with worker := Function.update s.worker q phase }

/-- The section of `_workqueue_submit_work`. -/
def submitWork (q : Q) (w : W) (ticks : BitVec 32) : Option (Err × WorkState Q W T) :=
  let x := { s.work w with pending := false }
  let list := s.list.remove w
  if ticks = 0 then
    some (.eok, (s.store (list.insertBeforeHead (.work q) w) w
      { x with pending := true, workqueue := some q }).resumeWorker q)
  else if ticks.toNat < rtTickMaxHalf then
    (if x.submitting = true then x.timer.stop else x.timer.init).map fun timer =>
      (.eok, s.store (list.insertBeforeHead (.delayed q) w) w
        { x with timer := timer, submitting := true, workqueue := some q })
  else some (.error, s.store list w x)

/-- `rt_workqueue_urgent_work`. -/
def urgentWork (q : Q) (w : W) : WorkState Q W T :=
  { s with list := (s.list.remove w).insertAfterHead (.work q) w }.resumeWorker q

/-- `_workqueue_cancel_work`, and whether it returns `-RT_EBUSY`. -/
def cancelWork (q : Q) (w : W) : Option (Bool × WorkState Q W T) :=
  let x := { s.work w with pending := false }
  (if x.submitting = true then x.timer.stop.bind WorkTimer.detach else some x.timer).map
    fun timer => (decide (s.workCurrent q = some w), s.store (s.list.remove w) w
      { x with timer := timer, submitting := false, workqueue := none })

/-- The section of `_delayed_work_timeout_handler`. -/
def timeoutHandler (w : W) (q : Q) : Option (WorkState Q W T) :=
  (s.work w).timer.detach.map fun timer =>
    let x := { s.work w with timer := timer, submitting := false }
    let list := s.list.remove w
    (if s.workCurrent q ≠ some w then
      s.store (list.insertBeforeHead (.work q) w) w { x with pending := true }
    else s.store list w x).resumeWorker q

/-- The section of `_workqueue_thread_entry`. -/
def takeWork (q : Q) : WorkState Q W T :=
  match s.list (.work q) with
  | [] => { s with worker := Function.update s.worker q .suspended }
  | w :: _ =>
    { s.store (s.list.remove w) w { s.work w with pending := false, workqueue := none } with
      workCurrent := Function.update s.workCurrent q (some w)
      worker := Function.update s.worker q (.run w) }

/-- The threads of a list are woken. -/
def wakeCalls (woken : List T) : T → WorkCall Q W :=
  fun t => if t ∈ woken then (s.call t).wake else s.call t

/-- It is noted for all synchronous cancels of a work that it is submitted again. -/
def resubmit (w : W) : WorkState Q W T :=
  { s with resubmitted := fun t => s.resubmitted t || decide ((s.call t).cancels = some w) }

end

end WorkState

/-! ## The system -/

section
variable {Q W T : Type} [DecidableEq Q] [DecidableEq W] [DecidableEq T]

/-- One step. -/
def workStep (s : WorkState Q W T) : WorkLabel Q W T → Option (WorkState Q W T)
  | .submit t q w ticks =>
    if s.call t = .idle ∧ ticks.toNat < rtTickMaxHalf then
      (s.submitWork q w ticks).map fun r =>
        (r.2.resubmit w).setCall t (if ticks = 0 then .idle else .start w)
    else none
  | .start t =>
    match s.call t with
    | .start w => (s.work w).timer.start.map fun timer =>
      (s.setWork w { s.work w with timer := timer }).setCall t .idle
    | _ => none
  | .urgent t q w => if s.call t = .idle then some ((s.urgentWork q w).resubmit w) else none
  | .cancel t q w => if s.call t = .idle then (s.cancelWork q w).map (·.2) else none
  | .syncTest t q w =>
    if s.call t = .idle then
      some { s.setCall t (if s.workCurrent q = some w then .syncTake q w else .syncCancel q w) with
        resubmitted := Function.update s.resubmitted t false }
    else none
  | .syncTake t =>
    match s.call t with
    | .syncTake q w =>
      match (s.sem q).trytake with
      | some sem => some ({ s with sem := Function.update s.sem q sem }.setCall t (.syncReturn q w))
      | none => some ({ s with sem := Function.update s.sem q ((s.sem q).suspend t) }.setCall t
          (.syncWait q w))
    | _ => none
  | .syncCancel t =>
    match s.call t with
    | .syncCancel q w => (s.cancelWork q w).map fun r => r.2.setCall t (.syncReturn q w)
    | _ => none
  | .syncReturn t =>
    match s.call t with
    | .syncReturn _ _ => some (s.setCall t .idle)
    | _ => none
  | .expire w =>
    if s.handler = .idle ∧ (s.work w).timer.activated = true then
      let timer := { (s.work w).timer with activated := false }
      some { s.setWork w { s.work w with timer := timer } with handler := .entered w }
    else none
  | .handlerRead =>
    match s.handler with
    | .entered w => (s.work w).workqueue.map fun q => { s with handler := .read w q }
    | _ => none
  | .handlerRun =>
    match s.handler with
    | .read w q => (s.timeoutHandler w q).map fun s => { s with handler := .idle }
    | _ => none
  | .take q => if s.worker q = .loop then some (s.takeWork q) else none
  | .finish q =>
    match s.worker q with
    | .run w => some { s with
        workCurrent := Function.update s.workCurrent q none
        worker := Function.update s.worker q (.complete w) }
    | _ => none
  | .complete q =>
    match s.worker q with
    | .complete _ =>
      (completionLoop ((s.sem q).suspended.length + 2) (s.sem q) []).map fun r => { s with
        sem := Function.update s.sem q r.2
        worker := Function.update s.worker q .loop
        call := s.wakeCalls r.1 }
    | _ => none

variable (Q W T) in
/-- Initialized works, and queues that have been created. -/
def WorkState.initial : WorkState Q W T where
  list _ := []
  work _ := {}
  workCurrent _ := none
  worker _ := .loop
  sem _ := .fresh
  handler := .idle
  call _ := .idle
  resubmitted _ := false

variable (Q W T) in
/-- The work queues as a system. -/
def workqueues : System (WorkState Q W T) (WorkLabel Q W T) where
  init s := s = .initial Q W T
  step := workStep

end

/-! ## What a step does -/

/-- A work that is cancelled. -/
def RtWork.cancelled {Q : Type} (x : RtWork Q) : RtWork Q where
  timer := ⟨false, !x.submitting && x.timer.activated⟩

/-- A work that the time-out handler has taken from its delay. -/
def RtWork.expired {Q : Type} (x : RtWork Q) (pending : Bool) : RtWork Q where
  pending := pending
  workqueue := x.workqueue

section
variable {Q W T : Type} [DecidableEq Q] [DecidableEq W] [DecidableEq T] {s s' : WorkState Q W T}
  {q : Q} {w : W} {t : T} {a : WorkLabel Q W T} {ticks : BitVec 32}

namespace WorkState

@[simp] theorem setCall_self (s : WorkState Q W T) (t : T) (c : WorkCall Q W) :
    (s.setCall t c).call t = c := by
  show Function.update s.call t c t = c
  exact Function.update_self t c s.call

theorem resumeWorker_worker (s : WorkState Q W T) (q q' : Q) :
    (s.resumeWorker q).worker q' = s.worker q' ∨
      s.worker q' = .suspended ∧ (s.resumeWorker q).worker q' = .loop := by
  rw [resumeWorker]
  dsimp only
  by_cases hq : q' = q
  · rw [hq, Function.update_self]
    split_ifs with h
    · exact .inr ⟨h.2, rfl⟩
    · exact .inl rfl
  · rw [Function.update_of_ne hq]
    exact .inl rfl

end WorkState

/-- The timer of a work is an object exactly while the work is being submitted. -/
def WorkState.Inited (s : WorkState Q W T) : Prop :=
  ∀ w, (s.work w).timer.inited = (s.work w).submitting

/-- **What a step does**, when the timers are initialized and no semaphore has a value. -/
inductive WorkStep (s : WorkState Q W T) : WorkLabel Q W T → WorkState Q W T → Prop where
  | submitNow {t : T} {q : Q} {w : W} (hcall : s.call t = .idle) : WorkStep s (.submit t q w 0)
      ((((s.store ((s.list.remove w).insertBeforeHead (.work q) w) w
        { s.work w with pending := true, workqueue := some q }).resumeWorker q).resubmit w).setCall
          t .idle)
  | submitLater {t : T} {q : Q} {w : W} {ticks : BitVec 32} (hcall : s.call t = .idle)
      (h0 : ticks ≠ 0) : WorkStep s (.submit t q w ticks)
        (((s.store ((s.list.remove w).insertBeforeHead (.delayed q) w) w
          ⟨false, true, ⟨true, false⟩, some q⟩).resubmit w).setCall t (.start w))
  | start {t : T} {w : W} (hcall : s.call t = .start w) (hsub : (s.work w).submitting = true) :
      WorkStep s (.start t)
        ((s.setWork w { s.work w with timer := ⟨true, true⟩ }).setCall t .idle)
  | urgent {t : T} {q : Q} {w : W} (hcall : s.call t = .idle) : WorkStep s (.urgent t q w)
      (({ s with list := (s.list.remove w).insertAfterHead (.work q) w }.resumeWorker q).resubmit w)
  | cancel {t : T} {q : Q} {w : W} (hcall : s.call t = .idle) : WorkStep s (.cancel t q w)
      (s.store (s.list.remove w) w (.cancelled (s.work w)))
  | testCurrent {t : T} {q : Q} {w : W} (hcall : s.call t = .idle)
      (hcur : s.workCurrent q = some w) : WorkStep s (.syncTest t q w)
      { s.setCall t (.syncTake q w) with
        resubmitted := Function.update s.resubmitted t false }
  | testOther {t : T} {q : Q} {w : W} (hcall : s.call t = .idle)
      (hcur : s.workCurrent q ≠ some w) : WorkStep s (.syncTest t q w)
      { s.setCall t (.syncCancel q w) with
        resubmitted := Function.update s.resubmitted t false }
  | wait {t : T} {q : Q} {w : W} (hcall : s.call t = .syncTake q w) : WorkStep s (.syncTake t)
      ({ s with sem := Function.update s.sem q ((s.sem q).suspend t) }.setCall t (.syncWait q w))
  | syncCancel {t : T} {q : Q} {w : W} (hcall : s.call t = .syncCancel q w) :
      WorkStep s (.syncCancel t)
      ((s.store (s.list.remove w) w (.cancelled (s.work w))).setCall t (.syncReturn q w))
  | syncReturn {t : T} {q : Q} {w : W} (hcall : s.call t = .syncReturn q w) :
      WorkStep s (.syncReturn t)
      (s.setCall t .idle)
  | expire {w : W} (hhand : s.handler = .idle) (hact : (s.work w).timer.activated = true) :
      WorkStep s (.expire w)
        { s.setWork w { s.work w with timer := { (s.work w).timer with activated := false } } with
          handler := .entered w }
  | handlerRead {w : W} {q : Q} (hhand : s.handler = .entered w)
      (hq : (s.work w).workqueue = some q) : WorkStep s .handlerRead { s with handler := .read w q }
  | handlerQueue {w : W} {q : Q} (hhand : s.handler = .read w q)
      (hsub : (s.work w).submitting = true) (hcur : s.workCurrent q ≠ some w) :
      WorkStep s .handlerRun
        { (s.store ((s.list.remove w).insertBeforeHead (.work q) w) w
          (.expired (s.work w) true)).resumeWorker q with handler := .idle }
  | handlerDrop {w : W} {q : Q} (hhand : s.handler = .read w q)
      (hsub : (s.work w).submitting = true) (hcur : s.workCurrent q = some w) :
      WorkStep s .handlerRun
        { (s.store (s.list.remove w) w (.expired (s.work w) (s.work w).pending)).resumeWorker q with
          handler := .idle }
  | suspend {q : Q} (hworker : s.worker q = .loop) (hnil : s.list (.work q) = []) :
      WorkStep s (.take q) { s with worker := Function.update s.worker q .suspended }
  | take {q : Q} {w : W} (hworker : s.worker q = .loop)
      (hfirst : (s.list (.work q)).head? = some w) : WorkStep s (.take q)
        { s.store (s.list.remove w) w { s.work w with pending := false, workqueue := none } with
          workCurrent := Function.update s.workCurrent q (some w)
          worker := Function.update s.worker q (.run w) }
  | finish {q : Q} {w : W} (hworker : s.worker q = .run w) : WorkStep s (.finish q)
      { s with
        workCurrent := Function.update s.workCurrent q none
        worker := Function.update s.worker q (.complete w) }
  | complete {q : Q} {w : W} (hworker : s.worker q = .complete w) : WorkStep s (.complete q)
      { s with
        sem := Function.update s.sem q .fresh
        worker := Function.update s.worker q .loop
        call := s.wakeCalls (s.sem q).suspended }

/-- **The completion wakes all threads** and leaves no value. -/
theorem completionLoop_eq {n : ℕ} {sem : CondSem T} (hv : sem.value = 0)
    (hn : sem.suspended.length + 1 < n) (woken : List T) :
    completionLoop n sem woken = some (woken ++ sem.suspended, .fresh) := by
  obtain ⟨value, l⟩ := sem
  cases hv
  induction n generalizing l woken with
  | zero => exact absurd hn (Nat.not_lt_zero _)
  | succ n ih =>
    cases l with
    | nil =>
      cases n with
      | zero => exact absurd hn (Nat.lt_irrefl _)
      | succ n =>
        rw [List.append_nil]
        rfl
    | cons t l =>
      have hlen : l.length + 1 < n := by
        rw [List.length_cons] at hn
        omega
      have hnext := ih (woken ++ [t]) l hlen
      rw [List.append_assoc, List.singleton_append] at hnext
      rw [← hnext]
      show completionLoop n (CondSem.remove _ t) (woken ++ [t]) = _
      rw [CondSem.remove_head rfl]

namespace WorkState

/-- **Submitting a work with a delay**: its timer is an object that is stopped. -/
theorem submitWork_later (hi : s.Inited) (h0 : ticks ≠ 0) (hlt : ticks.toNat < rtTickMaxHalf)
    (q : Q) (w : W) : s.submitWork q w ticks =
      some (.eok, s.store ((s.list.remove w).insertBeforeHead (.delayed q) w) w
        ⟨false, true, ⟨true, false⟩, some q⟩) := by
  have hw := hi w
  rw [submitWork]
  dsimp only
  rw [if_neg h0, if_pos hlt]
  cases hsub : (s.work w).submitting with
  | true =>
    rw [hsub] at hw
    rw [if_pos rfl, WorkTimer.stop, if_pos hw, hw]
    rfl
  | false =>
    rw [hsub] at hw
    rw [if_neg Bool.false_ne_true, WorkTimer.init, if_pos hw]
    rfl

/-- **Cancelling a work.** -/
theorem cancelWork_eq (hi : s.Inited) (q : Q) (w : W) : s.cancelWork q w =
    some (decide (s.workCurrent q = some w),
      s.store (s.list.remove w) w (.cancelled (s.work w))) := by
  have hw := hi w
  rw [cancelWork, RtWork.cancelled]
  dsimp only
  cases hsub : (s.work w).submitting with
  | true =>
    rw [hsub] at hw
    rw [if_pos rfl, WorkTimer.stop, if_pos hw, Option.bind_some, WorkTimer.detach, if_pos hw]
    rfl
  | false =>
    rw [hsub] at hw
    rw [if_neg Bool.false_ne_true, Option.map_some, Bool.not_false, Bool.true_and, ← hw]

end WorkState

/-- **Every step is one of those.** -/
theorem workStep_cases (hi : s.Inited) (hv : ∀ q, (s.sem q).value = 0)
    (h : workStep s a = some s') : WorkStep s a s' := by
  cases a with
  | submit t q w ticks =>
    rw [workStep] at h
    by_cases hok : s.call t = .idle ∧ ticks.toNat < rtTickMaxHalf
    · rw [if_pos hok] at h
      by_cases h0 : ticks = 0
      · subst h0
        cases h
        exact .submitNow hok.1
      · rw [WorkState.submitWork_later hi h0 hok.2, Option.map_some, if_neg h0] at h
        cases h
        exact .submitLater hok.1 h0
    · rw [if_neg hok] at h
      cases h
  | start t =>
    rw [workStep] at h
    split at h
    · rename_i w hcall
      rw [WorkTimer.start] at h
      by_cases hin : (s.work w).timer.inited = true
      · rw [if_pos hin, Option.map_some, hin] at h
        cases h
        exact .start hcall ((hi w).symm.trans hin)
      · rw [if_neg hin] at h
        cases h
    · cases h
  | urgent t q w =>
    rw [workStep] at h
    split_ifs at h with hcall
    cases h
    exact .urgent hcall
  | cancel t q w =>
    rw [workStep, WorkState.cancelWork_eq hi] at h
    split_ifs at h with hcall
    cases h
    exact .cancel hcall
  | syncTest t q w =>
    rw [workStep] at h
    split_ifs at h with hcall hcur
    · cases h
      exact .testCurrent hcall hcur
    · cases h
      exact .testOther hcall hcur
  | syncTake t =>
    rw [workStep] at h
    split at h
    · rename_i q w hcall
      rw [CondSem.trytake, if_neg (by rw [hv q]; exact Nat.lt_irrefl 0)] at h
      cases h
      exact .wait hcall
    · cases h
  | syncCancel t =>
    rw [workStep] at h
    split at h
    · rename_i q w hcall
      rw [WorkState.cancelWork_eq hi] at h
      cases h
      exact .syncCancel hcall
    · cases h
  | syncReturn t =>
    rw [workStep] at h
    split at h
    · rename_i q w hcall
      cases h
      exact .syncReturn hcall
    · cases h
  | expire w =>
    rw [workStep] at h
    split_ifs at h with hok
    cases h
    exact .expire hok.1 hok.2
  | handlerRead =>
    rw [workStep] at h
    split at h
    · rename_i w hhand
      obtain ⟨q, hq, he⟩ := Option.map_eq_some_iff.mp h
      cases he
      exact .handlerRead hhand hq
    · cases h
  | handlerRun =>
    rw [workStep] at h
    split at h
    · rename_i w q hhand
      rw [WorkState.timeoutHandler, WorkTimer.detach] at h
      by_cases hin : (s.work w).timer.inited = true
      · have hsub := (hi w).symm.trans hin
        by_cases hcur : s.workCurrent q = some w
        · rw [if_pos hin, Option.map_some] at h
          dsimp only at h
          rw [if_neg (not_not.mpr hcur)] at h
          cases h
          exact .handlerDrop hhand hsub hcur
        · rw [if_pos hin, Option.map_some] at h
          dsimp only at h
          rw [if_pos hcur] at h
          cases h
          exact .handlerQueue hhand hsub hcur
      · rw [if_neg hin] at h
        cases h
    · cases h
  | take q =>
    rw [workStep] at h
    split_ifs at h with hworker
    rw [WorkState.takeWork] at h
    cases hlist : s.list (.work q) with
    | nil =>
      rw [hlist] at h
      cases h
      exact .suspend hworker hlist
    | cons w l =>
      rw [hlist] at h
      cases h
      exact .take hworker (by rw [hlist]; rfl)
  | finish q =>
    rw [workStep] at h
    split at h
    · rename_i w hworker
      cases h
      exact .finish hworker
    · cases h
  | complete q =>
    rw [workStep] at h
    split at h
    · rename_i w hworker
      rw [completionLoop_eq (hv q) (Nat.lt_succ_self _), Option.map_some] at h
      cases h
      exact .complete hworker
    · cases h

/-! ## The invariant -/

/-- What holds in all runs: a work hangs on one list at most, its timer is an object exactly while
the work is being submitted, and runs only then; a worker executes its current work, and a semaphore
has no value but the callers that wait. -/
structure WorkInv (s : WorkState Q W T) : Prop where
  once : Queues.Once s.list
  inited : s.Inited
  activated : ∀ w, (s.work w).timer.activated = true → (s.work w).submitting = true
  worker : ∀ q w, s.worker q = .run w ↔ s.workCurrent q = some w
  value : ∀ q, (s.sem q).value = 0
  waiting : ∀ q t, t ∈ (s.sem q).suspended ↔ ∃ w, s.call t = .syncWait q w

namespace WorkInv

theorem initial : WorkInv (WorkState.initial Q W T) where
  once := Queues.Once.empty
  inited _ := rfl
  activated _ h := nomatch h
  worker _ _ := iff_of_false nofun nofun
  value _ := rfl
  waiting _ _ := iff_of_false List.not_mem_nil (fun ⟨_, h⟩ => nomatch h)

/-- Lists and works are written. -/
theorem store (hs : WorkInv s) {list : Queues (WorkHead Q) W} (hl : Queues.Once list) {x : RtWork Q}
    (hx : x.timer.inited = x.submitting)
    (hact : x.timer.activated = true → x.submitting = true) : WorkInv (s.store list w x) where
  once := hl
  inited w' := by
    show (Function.update s.work w x w').timer.inited = (Function.update s.work w x w').submitting
    by_cases hw : w' = w
    · rw [hw, Function.update_self]
      exact hx
    · rw [Function.update_of_ne hw]
      exact hs.inited w'
  activated w' := by
    show (Function.update s.work w x w').timer.activated = true →
      (Function.update s.work w x w').submitting = true
    by_cases hw : w' = w
    · rw [hw, Function.update_self]
      exact hact
    · rw [Function.update_of_ne hw]
      exact hs.activated w'
  worker := hs.worker
  value := hs.value
  waiting := hs.waiting

/-- The timer of a work is started or stopped. -/
theorem setTimer (hs : WorkInv s) {timer : WorkTimer}
    (ht : timer.inited = (s.work w).timer.inited)
    (hact : timer.activated = true → (s.work w).submitting = true) :
    WorkInv (s.setWork w { s.work w with timer := timer }) :=
  hs.store hs.once (ht.trans (hs.inited w)) hact

/-- A work is cancelled. -/
theorem cancel (hs : WorkInv s) (w : W) :
    WorkInv (s.store (s.list.remove w) w (.cancelled (s.work w))) := by
  refine hs.store (hs.once.remove w) rfl fun h => ?_
  change (!(s.work w).submitting && (s.work w).timer.activated) = true at h
  rw [Bool.and_eq_true_iff, Bool.not_eq_true'] at h
  exact nomatch h.1.symm.trans (hs.activated w h.2)

theorem resumeWorker (hs : WorkInv s) (q : Q) : WorkInv (s.resumeWorker q) := by
  refine ⟨hs.once, hs.inited, hs.activated, fun q' w => ?_, hs.value, hs.waiting⟩
  refine Iff.trans ?_ (hs.worker q' w)
  rcases s.resumeWorker_worker q q' with h | ⟨hold, hnew⟩
  · rw [← h]
  · exact iff_of_false (fun h => nomatch hnew.symm.trans h) fun h => nomatch hold.symm.trans h

/-- A caller goes on that neither waits nor begins to wait. -/
theorem setCall (hs : WorkInv s) {c : WorkCall Q W} (hold : ∀ q w, s.call t ≠ .syncWait q w)
    (hnew : ∀ q w, c ≠ .syncWait q w) : WorkInv (s.setCall t c) := by
  refine ⟨hs.once, hs.inited, hs.activated, hs.worker, hs.value, fun q t' => ?_⟩
  refine (hs.waiting q t').trans ?_
  show _ ↔ ∃ w, Function.update s.call t c t' = _
  by_cases ht : t' = t
  · rw [ht, Function.update_self]
    exact iff_of_false (fun ⟨w, h⟩ => hold q w h) fun ⟨w, h⟩ => hnew q w h
  · rw [Function.update_of_ne ht]

/-- Notes and the handler do not matter. -/
theorem congr (hs : WorkInv s) (handler : WorkHandler Q W) (resubmitted : T → Bool) :
    WorkInv { s with handler := handler, resubmitted := resubmitted } :=
  ⟨hs.once, hs.inited, hs.activated, hs.worker, hs.value, hs.waiting⟩

/-- A worker goes on. -/
theorem setWorker (hs : WorkInv s) (cur : Option W) (p : WorkerPhase W)
    (hp : ∀ w, p = .run w ↔ cur = some w) : WorkInv { s with
      workCurrent := Function.update s.workCurrent q cur
      worker := Function.update s.worker q p } := by
  refine ⟨hs.once, hs.inited, hs.activated, fun q' w => ?_, hs.value, hs.waiting⟩
  show Function.update s.worker q p q' = _ ↔ Function.update s.workCurrent q cur q' = _
  by_cases hq : q' = q
  · rw [hq, Function.update_self, Function.update_self]
    exact hp w
  · rw [Function.update_of_ne hq, Function.update_of_ne hq]
    exact hs.worker q' w

/-- A worker that does not execute has no current work. -/
theorem current_none (hs : WorkInv s) (h : ∀ w, s.worker q ≠ .run w) : s.workCurrent q = none :=
  Option.eq_none_iff_forall_ne_some.mpr fun w hw => h w ((hs.worker q w).mpr hw)

/-- A worker that does not execute goes on without a work. -/
theorem setIdle (hs : WorkInv s) (h : ∀ w, s.worker q ≠ .run w) {p : WorkerPhase W}
    (hp : ∀ w, p ≠ .run w) : WorkInv { s with worker := Function.update s.worker q p } := by
  have hset := hs.setWorker (q := q) none p fun w => iff_of_false (hp w) nofun
  rwa [← hs.current_none h, Function.update_eq_self] at hset

/-- A caller that is woken does not wait. -/
theorem wake_ne (c : WorkCall Q W) (q : Q) (w : W) : c.wake ≠ .syncWait q w := by
  cases c <;> exact nofun

/-- **All callers that wait are woken.** -/
theorem wakeAll (hs : WorkInv s) (q : Q) : WorkInv { s with
    sem := Function.update s.sem q .fresh
    call := s.wakeCalls (s.sem q).suspended } := by
  refine ⟨hs.once, hs.inited, hs.activated, hs.worker, fun q' => ?_, fun q' t => ?_⟩
  · show (Function.update s.sem q .fresh q').value = 0
    by_cases hq : q' = q
    · rw [hq, Function.update_self]
      rfl
    · rw [Function.update_of_ne hq]
      exact hs.value q'
  · show t ∈ (Function.update s.sem q .fresh q').suspended ↔
      ∃ w, (if t ∈ (s.sem q).suspended then (s.call t).wake else s.call t) = _
    by_cases hm : t ∈ (s.sem q).suspended
    · rw [if_pos hm]
      refine iff_of_false (fun h => ?_) fun ⟨w, hw⟩ => wake_ne _ _ _ hw
      by_cases hq : q' = q
      · rw [hq, Function.update_self] at h
        exact absurd h List.not_mem_nil
      · rw [Function.update_of_ne hq] at h
        obtain ⟨w, hw⟩ := (hs.waiting q t).mp hm
        obtain ⟨w', hw'⟩ := (hs.waiting q' t).mp h
        rw [hw] at hw'
        cases hw'
        exact hq rfl
    · rw [if_neg hm]
      by_cases hq : q' = q
      · rw [hq, Function.update_self]
        exact iff_of_false List.not_mem_nil fun h => hm ((hs.waiting q t).mpr h)
      · rw [Function.update_of_ne hq]
        exact hs.waiting q' t

/-- **A caller begins to wait.** -/
theorem wait (hs : WorkInv s) (hcall : ∀ q w, s.call t ≠ .syncWait q w) (q : Q) (w : W) :
    WorkInv ({ s with sem := Function.update s.sem q ((s.sem q).suspend t) }.setCall t
      (.syncWait q w)) := by
  refine ⟨hs.once, hs.inited, hs.activated, hs.worker, fun q' => ?_, fun q' t' => ?_⟩
  · show (Function.update s.sem q ((s.sem q).suspend t) q').value = 0
    by_cases hq : q' = q
    · rw [hq, Function.update_self]
      exact hs.value q
    · rw [Function.update_of_ne hq]
      exact hs.value q'
  · show t' ∈ (Function.update s.sem q ((s.sem q).suspend t) q').suspended ↔
      ∃ w', Function.update s.call t (.syncWait q w) t' = _
    have hnot : ∀ q', t ∉ (s.sem q').suspended := fun q' hm => by
      obtain ⟨w', hw'⟩ := (hs.waiting q' t).mp hm
      exact hcall q' w' hw'
    by_cases hq : q' = q
    · rw [hq, Function.update_self, CondSem.mem_suspend]
      by_cases ht : t' = t
      · rw [ht, Function.update_self]
        exact iff_of_true (.inl rfl) ⟨w, rfl⟩
      · rw [Function.update_of_ne ht, ← hs.waiting q t']
        simp [ht]
    · rw [Function.update_of_ne hq]
      by_cases ht : t' = t
      · rw [ht, Function.update_self]
        exact iff_of_false (hnot q') fun ⟨w', h⟩ => hq (by cases h; rfl)
      · rw [Function.update_of_ne ht]
        exact hs.waiting q' t'

/-- **The invariant holds in all runs.** -/
theorem next (hs : WorkInv s) (h : WorkStep s a s') : WorkInv s' := by
  have hne : ∀ {t c}, s.call t = c → (∀ q w, c ≠ .syncWait q w) → ∀ q w, s.call t ≠ .syncWait q w :=
    fun h hc q w => h ▸ hc q w
  have hrun : ∀ {q p}, s.worker q = p → (∀ w, p ≠ .run w) → ∀ w, s.worker q ≠ .run w :=
    fun h hp w => h ▸ hp w
  cases h with
  | submitNow hcall =>
    exact (((hs.store (hs.once.moveBack _ _).1 (by exact hs.inited _)
      (by exact hs.activated _)).resumeWorker _).congr
      s.handler _).setCall (hne hcall nofun) nofun
  | submitLater hcall h0 =>
    exact ((hs.store (hs.once.moveBack _ _).1 rfl (fun _ => rfl)).congr s.handler _).setCall
      (hne hcall nofun) nofun
  | start hcall hsub =>
    exact (hs.setTimer (by exact hsub.symm.trans (hs.inited _).symm) fun _ => hsub).setCall
      (hne hcall nofun) nofun
  | @urgent t q w hcall =>
    have hmove := hs.store (w := w) (hs.once.moveFront w (.work q)).1 (hs.inited w)
      (hs.activated w)
    rw [WorkState.store, WorkState.setWork, Function.update_eq_self] at hmove
    exact (hmove.resumeWorker _).congr s.handler _
  | cancel hcall => exact hs.cancel _
  | testCurrent hcall hcur =>
    exact (hs.setCall (hne hcall nofun) (by exact nofun)).congr s.handler _
  | testOther hcall hcur =>
    exact (hs.setCall (hne hcall nofun) (by exact nofun)).congr s.handler _
  | wait hcall => exact hs.wait (hne hcall nofun) _ _
  | syncCancel hcall =>
    exact (hs.cancel _).setCall (hne hcall nofun) nofun
  | syncReturn hcall => exact hs.setCall (hne hcall nofun) nofun
  | expire hhand hact =>
    exact (hs.setTimer (by rfl) (by exact fun h => nomatch h)).congr _ s.resubmitted
  | handlerRead hhand hq => exact hs.congr _ _
  | handlerQueue hhand hsub hcur =>
    exact ((hs.store (hs.once.moveBack _ _).1 (by rfl) (by exact fun h => nomatch h)).resumeWorker
      _).congr _ s.resubmitted
  | handlerDrop hhand hsub hcur =>
    exact ((hs.store (hs.once.remove _) (by rfl) (by exact fun h => nomatch h)).resumeWorker
      _).congr _ s.resubmitted
  | suspend hworker hnil => exact hs.setIdle (hrun hworker nofun) nofun
  | @take q w hworker hfirst =>
    exact (hs.store (hs.once.remove w) (by exact hs.inited w) (by exact hs.activated w)).setWorker
      (some w) (.run w) fun w' => by simp
  | finish hworker => exact hs.setWorker none _ fun w => iff_of_false nofun nofun
  | complete hworker =>
    exact (hs.setIdle (p := .loop) (hrun hworker nofun) nofun).wakeAll _

theorem cases (hs : WorkInv s) (h : workStep s a = some s') : WorkStep s a s' :=
  workStep_cases hs.inited hs.value h

theorem step (hs : WorkInv s) (h : workStep s a = some s') : WorkInv s' := hs.next (hs.cases h)

end WorkInv

/-- **The invariant holds in all runs**, whatever is submitted, cancelled and expires. -/
theorem workqueue_invariant {ok : WorkState Q W T → WorkLabel Q W T → Bool} (h : (workqueues Q W T).Reach ok s) :
    WorkInv s := by
  refine h.invariant (I := WorkInv) ?_ ?_
  · intro s h0
    exact h0 ▸ WorkInv.initial
  · intro s a s' hs _ hstep
    exact hs.step hstep

end

/-- A delayed work expires. -/
theorem workqueue_expired : ∃ s, (workqueues Unit Bool Bool).Reach System.anyStep s ∧
    s.handler = .entered true ∧ WorkInv s := by
  obtain ⟨s, h, hp⟩ := (workqueues Unit Bool Bool).exists_reach System.anyStep
    (fun s => decide (s.handler = .entered true)) (s := .initial Unit Bool Bool) rfl
    [.submit true () true 10, .start true, .expire true] (by decide)
  exact ⟨s, h, of_decide_eq_true hp, workqueue_invariant h⟩

end RtThread
