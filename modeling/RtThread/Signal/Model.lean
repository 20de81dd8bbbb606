import RtThread.Kernel.Types
import RtThread.Lib.System

/-!
# Thread signals

The pending signals of a thread are the bits of `sig_pending` and the nodes of `si_list`, which come
from a pool that all threads share.

* `SigInfo`, `SigThread`, `SigPhase`, `SigState`: the nodes, the threads, and the calls in progress;
* `SigState.kill`, `SigState.deliver`, `SigState.unmask`, `SigState.wait`, `SigState.handleLoop`,
  `SigState.next`: the sections of `rt_thread_kill`, `_signal_deliver`, `rt_signal_unmask`,
  `rt_signal_wait` and `rt_thread_handle_sig` under disabled interrupts;
* `SigLabel`, `signalSystem`: their interleavings.

A section that follows the pointer `sig_vectors` while it is NULL has no result.
-/

namespace RtThread

/-- `RT_SIG_MAX`. -/
def sigMax : ℕ := 32

/-- `sig_mask`. -/
def sigMask (signo : ℕ) : BitVec 32 := 1#32 <<< signo

/-- `struct siginfo_node`, with its block of the pool. -/
structure SigInfo (N : Type) where
  node : N
  signo : ℕ

/-- What a thread has for its signals; `vectors` says which of the handlers are not NULL, and the flags
are those of `stat`. -/
structure SigThread (N : Type) where
  pending : BitVec 32
  mask : BitVec 32
  siList : List (SigInfo N)
  vectors : Option (ℕ → Bool)
  suspended : Bool
  signal : Bool
  signalPending : Bool
  signalWait : Bool
  error : Err

/-- Where a call is: before `rt_mp_alloc`, the insertion and `_signal_deliver` in `rt_thread_kill`,
called by `self`, in an interrupt or not; before the first section of `rt_thread_handle_sig`, before and
after the handler; and suspended in `rt_signal_wait`. -/
inductive SigPhase (T N : Type) where
  | idle
  | alloc (self : T) (isr : Bool) (t : T) (sig : ℕ)
  | insert (self : T) (isr : Bool) (t : T) (sig : ℕ) (n : N)
  | deliver (self : T) (isr : Bool) (t : T)
  | handle (t : T) (clean : Bool)
  | call (t : T) (clean : Bool) (n : SigInfo N) (handler : Bool)
  | called (t : T) (clean : Bool) (n : SigInfo N)
  | wait (t : T) (set : BitVec 32)

/-- The threads, the free blocks of `_siginfo_pool` and the calls. -/
structure SigState (T C N : Type) where
  thread : T → SigThread N
  free : List N
  calls : C → SigPhase T N

/-- The loop of `rt_signal_wait` that takes the first node with a signal of the set. -/
def takeSignal {N : Type} (set : BitVec 32) : List (SigInfo N) → Option (SigInfo N × List (SigInfo N))
  | [] => none
  | n :: rest =>
    if sigMask n.signo &&& set ≠ 0 then some (n, rest)
    else (takeSignal set rest).map fun r => (r.1, n :: r.2)

namespace SigState

variable {T C N : Type} [DecidableEq T] [DecidableEq C] (s : SigState T C N)

/-- A thread changes. -/
def setThread (t : T) (th : SigThread N) : SigState T C N :=
  { s with thread := Function.update s.thread t th }

/-- A call goes on. -/
def setCall (c : C) (ph : SigPhase T N) : SigState T C N :=
  { s with calls := Function.update s.calls c ph }

/-- `rt_thread_kill` until the end of its first section; the entry of a signal that is already pending
is written over with the same number. -/
def kill (c : C) (self : T) (isr : Bool) (t : T) (sig : ℤ) : SigState T C N :=
  if 0 ≤ sig ∧ sig < sigMax then
    let th := s.thread t
    if th.pending &&& sigMask sig.toNat ≠ 0 ∧ (th.siList.any fun n => n.signo = sig.toNat) then s
    else s.setCall c (.alloc self isr t sig.toNat)
  else s

/-- `_signal_deliver`; a thread that is neither suspended nor the caller gets a context for
`_signal_entry`. -/
def deliver (c : C) (self : T) (isr : Bool) (t : T) : SigState T C N :=
  let th := s.thread t
  if th.pending &&& th.mask = 0 then s.setCall c .idle
  else if th.suspended then
    (s.setThread t { th with suspended := false, signal := true, signalPending := true }).setCall c .idle
  else if t = self then
    (s.setThread t { th with signal := true }).setCall c (if isr then .idle else .handle t true)
  else if th.signal then s.setCall c .idle
  else (s.setThread t { th with signal := true, signalPending := false }).setCall c .idle

/-- `rt_signal_mask`. -/
def mask (t : T) (signo : ℕ) : SigState T C N :=
  s.setThread t { s.thread t with mask := (s.thread t).mask &&& ~~~sigMask signo }

/-- `rt_signal_unmask`. -/
def unmask (c : C) (self : T) (isr : Bool) (signo : ℕ) : SigState T C N :=
  let th := { s.thread self with mask := (s.thread self).mask ||| sigMask signo }
  (s.setThread self th).setCall c
    (if th.mask &&& th.pending ≠ 0 then .deliver self isr self else .idle)

/-- `__done` in `rt_signal_wait`. -/
def waitDone (c : C) (t : T) (set : BitVec 32) : SigState T C N :=
  let th := s.thread t
  match takeSignal set th.siList with
  | none => s.setCall c .idle
  | some (n, rest) =>
    let th := { th with siList := rest, pending := th.pending &&& ~~~sigMask n.signo }
    ({ s with free := n.node :: s.free }.setThread t th).setCall c .idle

/-- `rt_signal_wait` until it returns or the thread is suspended. -/
def wait (c : C) (t : T) (set : BitVec 32) (timeout : ℤ) : SigState T C N :=
  let th := s.thread t
  if set = 0 then s
  else if th.pending &&& set ≠ 0 then s.waitDone c t set
  else if timeout = 0 then s
  else (s.setThread t { th with suspended := true, signalWait := true }).setCall c (.wait t set)

/-- The end of `rt_thread_handle_sig` after its loop, and that of `_signal_entry`. -/
def handleEnd (c : C) (t : T) : SigState T C N :=
  (s.setThread t { s.thread t with signal := false }).setCall c .idle

/-- The loop of `rt_thread_handle_sig`, from its test to the end of the section. -/
def handleLoop (c : C) (t : T) (clean : Bool) : Option (SigState T C N) :=
  let th := s.thread t
  if th.pending &&& th.mask ≠ 0 then
    match th.siList with
    | [] => some (s.handleEnd c t)
    | n :: rest =>
      match th.vectors with
      | none => none
      | some vectors =>
        let th := { th with siList := rest, pending := th.pending &&& ~~~sigMask n.signo }
        some ((s.setThread t th).setCall c (.call t clean n (vectors n.signo)))
  else some (s.handleEnd c t)

/-- The next section of a call. -/
def next (c : C) : Option (SigState T C N) :=
  match s.calls c with
  | .idle => none
  | .alloc self isr t sig =>
    match s.free with
    | [] => some (s.setCall c (.deliver self isr t))
    | n :: free => some ({ s with free := free }.setCall c (.insert self isr t sig n))
  | .insert self isr t sig n =>
    let th := s.thread t
    let th := { th with siList := th.siList ++ [⟨n, sig⟩], pending := th.pending ||| sigMask sig }
    some ((s.setThread t th).setCall c (.deliver self isr t))
  | .deliver self isr t => some (s.deliver c self isr t)
  | .handle t clean =>
    let th := s.thread t
    if th.pending &&& th.mask ≠ 0 ∧ th.signalWait = false then s.handleLoop c t clean
    -- `_signal_entry` clears the flag whatever `rt_thread_handle_sig` finds
    else some (if clean then s.setCall c .idle else s.handleEnd c t)
  | .call t clean n _ => some (s.setCall c (.called t clean n))
  | .called t clean n =>
    let s := { s with free := n.node :: s.free }.setCall c (.handle t clean)
    (s.setThread t { s.thread t with error := .eintr }).handleLoop c t clean
  | .wait t set =>
    let th := s.thread t
    if th.suspended then none
    else if th.error = .etimeout then
      some ((s.setThread t { th with signalWait := false, error := .eok }).setCall c .idle)
    else some ((s.setThread t { th with signalWait := false }).waitDone c t set)

end SigState

/-- A call begins with its first section; a call in progress goes on with its next one; a thread is
suspended for another reason, and woken up, by its timer or not. -/
inductive SigLabel (T C : Type) where
  | kill (c : C) (self : T) (isr : Bool) (t : T) (sig : ℤ)
  | mask (t : T) (signo : ℕ)
  | unmask (c : C) (self : T) (isr : Bool) (signo : ℕ)
  | wait (c : C) (t : T) (set : BitVec 32) (timeout : ℤ)
  | handleSig (c : C) (t : T) (clean : Bool)
  | next (c : C)
  | install (t : T) (signo : ℤ) (handler : Bool)
  | block (t : T)
  | wake (t : T) (expired : Bool)

namespace SigState

variable {T C N : Type} [DecidableEq T] [DecidableEq C] (s : SigState T C N)

/-- The call has not begun. -/
def isIdle (c : C) : Bool :=
  match s.calls c with
  | .idle => true
  | _ => false

/-- `rt_signal_install`, after which the handler is `handler ≠ NULL`. -/
def install (t : T) (signo : ℤ) (handler : Bool) : SigState T C N :=
  if 0 ≤ signo ∧ signo < sigMax then
    let vectors := (s.thread t).vectors.getD fun _ => true
    s.setThread t { s.thread t with vectors := some (Function.update vectors signo.toNat handler) }
  else s

/-- One step; a shift by 32 or more is undefined. -/
def step : SigLabel T C → Option (SigState T C N)
  | .kill c self isr t sig => if s.isIdle c then some (s.kill c self isr t sig) else none
  | .mask t signo => if signo < sigMax then some (s.mask t signo) else none
  | .unmask c self isr signo =>
    if s.isIdle c ∧ signo < sigMax then some (s.unmask c self isr signo) else none
  | .wait c t set timeout => if s.isIdle c then some (s.wait c t set timeout) else none
  | .handleSig c t clean =>
    if s.isIdle c then
      let th := s.thread t
      some ((s.setThread t { th with signalPending := th.signalPending && !clean }).setCall c
        (.handle t clean))
    else none
  | .next c => s.next c
  | .install t signo handler => some (s.install t signo handler)
  | .block t => some (s.setThread t { s.thread t with suspended := true })
  | .wake t expired =>
    let th := s.thread t
    some (s.setThread t
      { th with suspended := false, error := if expired then .etimeout else th.error })

end SigState

/-- The interleavings of the calls, when no signal has been sent and the blocks of the pool are free. -/
def signalSystem (T C : Type) {N : Type} [DecidableEq T] [DecidableEq C] (pool : List N) :
    System (SigState T C N) (SigLabel T C) where
  init s := pool.Nodup ∧ s.free = pool ∧ (∀ c, s.calls c = .idle) ∧
    ∀ t, (s.thread t).siList = [] ∧ (s.thread t).pending = 0
  step s a := s.step a

end RtThread
