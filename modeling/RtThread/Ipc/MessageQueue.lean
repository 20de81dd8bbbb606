import Mathlib.Data.List.Perm.Subperm
import RtThread.Ipc.Calls
import RtThread.Kernel.Align
import RtThread.Lib.Chain
import RtThread.Lib.Ring

/-!
# Message queues

A message queue has its messages on a free list and on a queue list. A sender takes a message off
the free list, copies its buffer and links the message; a receiver unlinks a message, copies it out
and puts it back: three critical sections each, and the message belongs to the call in between.
`flight` records the messages in this state, so that a section can follow whoever runs it, a thread
or an interrupt handler. `priority` says whether `RT_USING_MESSAGEQUEUE_PRIORITY` is defined.

* `MessageQueue` and the sections of its functions; `mqSend`, `mqUrgent`, `mqRecv`, `mqResume`;
* `MqWell`: free list, queue list, tail and entry, and the messages in flight;
* `MqEffect`: a deque with operations in flight;
* **`mq_conservation`**: in every run, every message is free, queued or in flight, and the sections
  do to the contents what they do to the deque.
-/

set_option linter.unusedSectionVars false

namespace RtThread

open Kernel

/-- `RT_MQ_ENTRY_MAX`. -/
abbrev mqEntryMax : ℕ := 0xffff

/-- `sizeof(struct rt_mq_message)`. -/
def mqHeaderSize (priority : Bool) : ℕ := if priority then 12 else 8

/-- A message that belongs to a call: of a sender before and after it has copied its buffer, of a
receiver before and after it has copied the message out. -/
inductive MqFlight where
  | sending (urgent : Bool) (buffer : List UInt8) (prio : ℤ)
  | copied (urgent : Bool) (buffer : List UInt8) (prio : ℤ)
  | receiving (size : ℕ) (message : List UInt8)
  | read (size : ℕ) (message : List UInt8) (out : List UInt8)
  deriving DecidableEq, Repr

/-- `struct rt_messagequeue`, with the fields of its `struct rt_mq_message`s, which are numbered. -/
structure MessageQueue where
  msgSize : ℕ
  maxMsgs : ℕ
  entry : ℕ
  head : Option ℕ
  tail : Option ℕ
  free : Option ℕ
  next : ℕ → Option ℕ
  length : ℕ → ℕ
  prio : ℕ → ℤ
  bytes : ℕ → ℕ → UInt8
  flight : ℕ → Option MqFlight

/-- The lists of waiting threads of a message queue: `parent.suspend_thread` and
`suspend_sender_thread`. -/
inductive MqList (M : Type) where
  | receivers (m : M)
  | senders (m : M)
  deriving DecidableEq, Repr

/-- What a waiting call does. -/
inductive MqOp where
  | send (buffer : List UInt8) (prio : ℤ)
  | recv (size : ℕ)
  deriving DecidableEq, Repr

/-- How a section ends: in the suspended state, with an error, with a message taken for sending,
copied, linked, unlinked or copied out, or with the return of what has been received. -/
inductive MqResult where
  | waits
  | failed (e : Err)
  | taken (b : ℕ)
  | copied
  | sent
  | unlinked (b : ℕ)
  | read
  | received (out : List UInt8)
  deriving DecidableEq, Repr

/-- The locals of `_rt_mq_send_wait` and `_rt_mq_recv` in their loops. -/
structure MqLocals (M : Type) where
  mq : M
  op : MqOp
  timeout : BitVec 32
  flag : SuspendFlag
  tickDelta : BitVec 32
  deriving DecidableEq, Repr

/-- The calls on message queues. -/
abbrev MqCalls (T M : Type) := CallState T (MqList M) (MqLocals M) (M → MessageQueue)

/-- The steps of the message queue system. -/
inductive MqLabel (T M : Type) where
  | env (a : EnvLabel T)
  | send (m : M) (buffer : List UInt8) (prio : ℤ) (timeout : BitVec 32) (flag : SuspendFlag)
  | urgent (m : M) (buffer : List UInt8)
  | recv (m : M) (size : ℕ) (timeout : BitVec 32) (flag : SuspendFlag)
  | resume
  | copy (m : M) (b : ℕ)
  | link (m : M) (b : ℕ)
  | read (m : M) (b : ℕ)
  | putBack (m : M) (b : ℕ)
  deriving DecidableEq, Repr

variable {T M : Type} [DecidableEq T] [DecidableEq M]

/-! ## The sections -/

namespace MessageQueue

variable (mq : MessageQueue)

/-- The message of `length` bytes in `b`. -/
def message (b : ℕ) : List UInt8 := (List.range (mq.length b)).map (mq.bytes b)

/-- Put a message on the free list. -/
def putFree (b : ℕ) : MessageQueue :=
  { mq with next := Function.update mq.next b mq.free, free := some b }

/-- The queue that `rt_mq_init` and `rt_mq_create` set up. The priorities and the bytes of the messages
are what the memory had before. -/
def setup (prio : ℕ → ℤ) (bytes : ℕ → ℕ → UInt8) (msgSize maxMsgs : ℕ) : MessageQueue :=
  (List.range (maxMsgs % 2 ^ 16)).foldl putFree
    { msgSize := msgSize % 2 ^ 16, maxMsgs := maxMsgs % 2 ^ 16, entry := 0, head := none
      tail := none, free := none, next := fun _ => none, length := fun _ => 0, prio := prio
      bytes := bytes, flight := fun _ => none }

/-- `rt_mq_init`. -/
def init (priority : Bool) (prio : ℕ → ℤ) (bytes : ℕ → ℕ → UInt8) (msgSize poolSize : ℕ) :
    MessageQueue :=
  setup prio bytes msgSize (poolSize / (rtAlign msgSize + mqHeaderSize priority))

/-- `rt_mq_create`. -/
def create (prio : ℕ → ℤ) (bytes : ℕ → ℕ → UInt8) (msgSize maxMsgs : ℕ) : MessageQueue :=
  setup prio bytes msgSize maxMsgs

/-- Take the message `b` off the free list. -/
def takeFree (b : ℕ) (f : MqFlight) : MessageQueue :=
  { mq with free := mq.next b, flight := Function.update mq.flight b (some f) }

/-- `_rt_mq_send_wait` and `rt_mq_urgent` copy their buffer. -/
def copyIn (b : ℕ) (urgent : Bool) (buffer : List UInt8) (prio : ℤ) : MessageQueue :=
  { mq with
    next := if urgent then mq.next else Function.update mq.next b none
    length := Function.update mq.length b buffer.length
    bytes := Function.update mq.bytes b (blit (mq.bytes b) 0 buffer)
    flight := Function.update mq.flight b (some (.copied urgent buffer prio)) }

/-- `_rt_mq_send_wait` links a message to the queue. -/
def linkTail (b : ℕ) : MessageQueue :=
  let mq := match mq.tail with
    | some t => { mq with next := Function.update mq.next t (some b) }
    | none => mq
  let mq := { mq with tail := some b }
  if mq.head = none then { mq with head := some b } else mq

/-- The loop of `_rt_mq_send_wait` over the queue, with priorities; there is no result when `fuel`
was not enough. -/
def prioLoop (b : ℕ) : ℕ → MessageQueue → Option ℕ → Option ℕ → Option MessageQueue
  | 0, _, _, _ => none
  | _ + 1, mq, _, none => some mq
  | fuel + 1, mq, prev, some node =>
    if mq.prio node < mq.prio b then
      let mq := match prev with
        | none => { mq with head := some b }
        | some p => { mq with next := Function.update mq.next p (some b) }
      some { mq with next := Function.update mq.next b (some node) }
    else if mq.next node = none then
      let mq := if node ≠ b then { mq with next := Function.update mq.next node (some b) } else mq
      some { mq with tail := some b }
    else prioLoop b fuel mq (some node) (mq.next node)

/-- `_rt_mq_send_wait` links a message to the queue, with priorities. -/
def linkPrio (b : ℕ) (prio : ℤ) : Option MessageQueue :=
  let mq := { mq with prio := Function.update mq.prio b prio }
  let mq := if mq.head = none then { mq with head := some b } else mq
  prioLoop b (mq.maxMsgs + 1) mq none mq.head

/-- `rt_mq_urgent` links a message to the beginning of the queue. -/
def linkHead (b : ℕ) : MessageQueue :=
  let mq := { mq with next := Function.update mq.next b mq.head, head := some b }
  if mq.tail = none then { mq with tail := some b } else mq

/-- The message `b` is linked to the queue. -/
def linkIn (priority : Bool) (b : ℕ) (urgent : Bool) (prio : ℤ) : Option MessageQueue :=
  if urgent then some (mq.linkHead b)
  else if priority then mq.linkPrio b prio
  else some (mq.linkTail b)

/-- `_rt_mq_recv` takes the message `b` off the queue. -/
def unlink (b size : ℕ) : MessageQueue :=
  { mq with
    head := mq.next b
    tail := if mq.tail = some b then none else mq.tail
    entry := if mq.entry > 0 then mq.entry - 1 else mq.entry
    flight := Function.update mq.flight b (some (.receiving size (mq.message b))) }

/-- The bytes `_rt_mq_recv` copies out. -/
def copyOut (b size : ℕ) : List UInt8 :=
  let len := if mq.length b > size then size else mq.length b
  (List.range len).map (mq.bytes b)

/-- `_rt_mq_recv` has copied the message out. -/
def copyTo (b size : ℕ) (message : List UInt8) : MessageQueue :=
  { mq with
    flight := Function.update mq.flight b (some (.read size message (mq.copyOut b size))) }

/-- The call that a message belonged to is through with it. -/
def land (b : ℕ) : MessageQueue := { mq with flight := Function.update mq.flight b none }

end MessageQueue

/-- Wake the first waiting thread of a list, if there is one. -/
def mqWake (s : MqCalls T M) (h : MqList M) : MqCalls T M :=
  match s.kernel.ipcListResume h with
  | some k => s.withKernel k
  | none => s

/-- Replace a message queue. -/
def mqSet (s : MqCalls T M) (m : M) (mq : MessageQueue) : MqCalls T M :=
  s.withData (Function.update s.data m mq)

/-- The loops of `_rt_mq_send_wait` and `_rt_mq_recv` wait. -/
def mqWait (s : MqCalls T M) (c : T) (l : MqLocals M) (h : MqList M) :
    Option (MqResult × MqCalls T M) :=
  (s.wait c h l.timeout l.flag
    { l with tickDelta := if 0 < l.timeout.toInt then s.tick else l.tickDelta }).map fun r =>
      (r.1.elim .waits .failed, r.2)

/-- The loop of `_rt_mq_send_wait`, up to the end of its critical section. -/
def mqSendLoop (s : MqCalls T M) (thread : Option T) (l : MqLocals M) (buffer : List UInt8)
    (prio : ℤ) : Option (MqResult × MqCalls T M) :=
  match (s.data l.mq).free with
  | none => thread.bind fun c =>
    if l.timeout = 0 then
      some (.failed .efull, s.withKernel (s.kernel.setThread c fun th => { th with error := .eintr }))
    else mqWait s c l (.senders l.mq)
  | some b => some (.taken b,
      mqSet s l.mq ((s.data l.mq).takeFree b (.sending false buffer prio)))

/-- The loop of `_rt_mq_recv`, up to the end of its critical section. There is no result where the
code would follow a null head. -/
def mqRecvLoop (s : MqCalls T M) (thread : Option T) (l : MqLocals M) (size : ℕ) :
    Option (MqResult × MqCalls T M) :=
  if (s.data l.mq).entry = 0 then
    thread.bind fun c =>
      if l.timeout = 0 then
        some (.failed .etimeout,
          s.withKernel (s.kernel.setThread c fun th => { th with error := .etimeout }))
      else mqWait s c l (.receivers l.mq)
  else (s.data l.mq).head.map fun b =>
    (.unlinked b, mqSet s l.mq ((s.data l.mq).unlink b size))

/-- `_rt_mq_send_wait`, its first critical section. -/
def mqSend (s : MqCalls T M) (m : M) (buffer : List UInt8) (prio : ℤ) (timeout : BitVec 32)
    (flag : SuspendFlag) : Option (MqResult × MqCalls T M) :=
  if buffer.length > (s.data m).msgSize then some (.failed .error, s)
  else if (s.data m).free = none ∧ timeout = 0 then some (.failed .efull, s)
  else mqSendLoop s s.self
    { mq := m, op := .send buffer prio, timeout := timeout, flag := flag, tickDelta := 0 } buffer prio

/-- `rt_mq_urgent`, its first critical section. -/
def mqUrgent (s : MqCalls T M) (m : M) (buffer : List UInt8) : MqResult × MqCalls T M :=
  if buffer.length > (s.data m).msgSize then (.failed .error, s)
  else
    match (s.data m).free with
    | none => (.failed .efull, s)
    | some b => (.taken b, mqSet s m ((s.data m).takeFree b (.sending true buffer 0)))

/-- `_rt_mq_recv`, its first critical section. -/
def mqRecv (s : MqCalls T M) (m : M) (size : ℕ) (timeout : BitVec 32) (flag : SuspendFlag) :
    Option (MqResult × MqCalls T M) :=
  if (s.data m).entry = 0 ∧ timeout = 0 then some (.failed .etimeout, s)
  else mqRecvLoop s s.self
    { mq := m, op := .recv size, timeout := timeout, flag := flag, tickDelta := 0 } size

/-- `_rt_mq_send_wait` and `_rt_mq_recv` after their `rt_schedule`. -/
def mqResume (s : MqCalls T M) (c : T) : Option (MqResult × MqCalls T M) :=
  if (s.kernel.thread c).error ≠ .eok then some (.failed (s.kernel.thread c).error, s.leave c)
  else
    let l := { s.locals c with timeout := timeLeft (s.locals c).timeout (s.locals c).tickDelta s.tick }
    match l.op with
    | .send buffer prio => mqSendLoop (s.leave c) (some c) l buffer prio
    | .recv size => mqRecvLoop (s.leave c) (some c) l size

/-- `_rt_mq_send_wait` and `rt_mq_urgent` copy their buffer, with interrupts enabled. -/
def mqCopy (s : MqCalls T M) (m : M) (b : ℕ) : Option (MqResult × MqCalls T M) :=
  match (s.data m).flight b with
  | some (.sending urgent buffer prio) =>
    some (.copied, mqSet s m ((s.data m).copyIn b urgent buffer prio))
  | _ => none

/-- The last critical section of `_rt_mq_send_wait` and `rt_mq_urgent`. -/
def mqLink (priority : Bool) (s : MqCalls T M) (m : M) (b : ℕ) : Option (MqResult × MqCalls T M) :=
  match (s.data m).flight b with
  | some (.copied urgent _ prio) => ((s.data m).linkIn priority b urgent prio).map fun mq =>
    let mq := mq.land b
    if mq.entry < mqEntryMax then
      (.sent, mqWake (mqSet s m { mq with entry := mq.entry + 1 }) (.receivers m))
    else (.failed .efull, mqSet s m mq)
  | _ => none

/-- `_rt_mq_recv` copies the message out, with interrupts enabled. -/
def mqRead (s : MqCalls T M) (m : M) (b : ℕ) : Option (MqResult × MqCalls T M) :=
  match (s.data m).flight b with
  | some (.receiving size message) =>
    some (.read, mqSet s m ((s.data m).copyTo b size message))
  | _ => none

/-- The last critical section of `_rt_mq_recv`. -/
def mqPutBack (s : MqCalls T M) (m : M) (b : ℕ) : Option (MqResult × MqCalls T M) :=
  match (s.data m).flight b with
  | some (.read _ _ out) =>
    some (.received out, mqWake (mqSet s m (((s.data m).putFree b).land b)) (.senders m))
  | _ => none

/-! ## The system -/

/-- One step of the threads and their environment, with what it returns. `RT_ASSERT(size != 0)`
holds for what is sent and received. -/
def mqStep (priority : Bool) (s : MqCalls T M) : MqLabel T M → Option (MqResult × MqCalls T M)
  | .env a => (envStep s a).map fun s => (.waits, s)
  | .send m buffer prio timeout flag =>
    if buffer.length ≠ 0 then mqSend s m buffer prio timeout flag else none
  | .urgent m buffer => if buffer.length ≠ 0 then some (mqUrgent s m buffer) else none
  | .recv m size timeout flag => if size ≠ 0 then mqRecv s m size timeout flag else none
  | .resume => s.caller.bind fun c => mqResume s c
  | .copy m b => mqCopy s m b
  | .link m b => mqLink priority s m b
  | .read m b => mqRead s m b
  | .putBack m b => mqPutBack s m b

/-- Threads and message queues, initialized; `rt_mq_init` has not returned an error, and a message
fits into the memory between two headers. -/
structure MqInit (priority : Bool) (s : MqCalls T M) : Prop where
  calls : CallInit s
  created : ∀ m, ∃ prio bytes msgSize, msgSize % 2 ^ 16 ≤ rtAlign msgSize ∧
    ((∃ poolSize, s.data m = .init priority prio bytes msgSize poolSize ∧ (s.data m).maxMsgs ≠ 0) ∨
      ∃ maxMsgs, s.data m = .create prio bytes msgSize maxMsgs)

/-- What holds of a message in flight. -/
def MqFlight.Holds (mq : MessageQueue) (b : ℕ) : MqFlight → Prop
  | .sending _ _ _ => True
  | .copied urgent buffer _ => mq.message b = buffer ∧ (urgent = false → mq.next b = none)
  | .receiving _ message => mq.message b = message
  | .read size message out => out = message.take size

/-- `fr` is the free list and `qu` the queue list. -/
structure MqLists (mq : MessageQueue) (fr qu : List ℕ) : Prop where
  free : NextChain mq.next mq.free fr
  queue : NextChain mq.next mq.head qu
  tail : mq.tail = qu.getLast?
  entry : mq.entry = qu.length

/-- Every message is free, queued or in flight, and only one of these. -/
structure MqSlots (mq : MessageQueue) (fr qu : List ℕ) : Prop where
  slot : ∀ b, b < mq.maxMsgs ↔ b ∈ fr ∨ b ∈ qu ∨ mq.flight b ≠ none
  freeOnly : ∀ b ∈ fr, b ∉ qu ∧ mq.flight b = none
  queueOnly : ∀ b ∈ qu, mq.flight b = none
  holds : ∀ b f, mq.flight b = some f → f.Holds mq b

/-- The invariant of a message queue. -/
structure MqWell (mq : MessageQueue) (fr qu : List ℕ) : Prop where
  lists : MqLists mq fr qu
  slots : MqSlots mq fr qu
  max : mq.maxMsgs ≤ mqEntryMax

/-- A change to the message `b`: where it is now, and that the others are where they were. -/
theorem MqSlots.update {mq mq' : MessageQueue} {fr qu fr' qu' : List ℕ} {b : ℕ}
    (h : MqSlots mq fr qu) (hb : b < mq.maxMsgs) (hmax : mq'.maxMsgs = mq.maxMsgs)
    (hflight : ∀ c ≠ b, mq'.flight c = mq.flight c) (hfr : ∀ c ≠ b, c ∈ fr' ↔ c ∈ fr)
    (hqu : ∀ c ≠ b, c ∈ qu' ↔ c ∈ qu) (hmessage : ∀ c ≠ b, mq'.message c = mq.message c)
    (hnext : ∀ c ≠ b, mq.flight c ≠ none → mq'.next c = mq.next c)
    (hplace : (b ∈ fr' ∧ b ∉ qu' ∧ mq'.flight b = none) ∨
      (b ∉ fr' ∧ b ∈ qu' ∧ mq'.flight b = none) ∨
      (b ∉ fr' ∧ b ∉ qu' ∧ ∃ f, mq'.flight b = some f ∧ f.Holds mq' b)) :
    MqSlots mq' fr' qu' := by
  refine ⟨fun c => ?_, fun c hc => ?_, fun c hc => ?_, fun c f hc => ?_⟩
  · by_cases hcb : c = b
    · subst hcb
      rw [hmax]
      refine iff_of_true hb ?_
      rcases hplace with ⟨h1, -⟩ | ⟨-, h1, -⟩ | ⟨-, -, f, h1, -⟩
      · exact .inl h1
      · exact .inr (.inl h1)
      · exact .inr (.inr (by rw [h1]; simp))
    · rw [hmax, hfr c hcb, hqu c hcb, hflight c hcb]
      exact h.slot c
  · by_cases hcb : c = b
    · subst hcb
      rcases hplace with ⟨-, h1⟩ | ⟨h1, -⟩ | ⟨h1, -⟩
      · exact h1
      · exact absurd hc h1
      · exact absurd hc h1
    · rw [hqu c hcb, hflight c hcb]
      exact h.freeOnly c ((hfr c hcb).mp hc)
  · by_cases hcb : c = b
    · subst hcb
      rcases hplace with ⟨-, h1, -⟩ | ⟨-, -, h1⟩ | ⟨-, h1, -⟩
      · exact absurd hc h1
      · exact h1
      · exact absurd hc h1
    · rw [hflight c hcb]
      exact h.queueOnly c ((hqu c hcb).mp hc)
  · by_cases hcb : c = b
    · subst hcb
      rcases hplace with ⟨-, -, h1⟩ | ⟨-, -, h1⟩ | ⟨-, -, g, h1, h2⟩
      · rw [h1] at hc; cases hc
      · rw [h1] at hc; cases hc
      · rw [h1] at hc
        exact Option.some.inj hc ▸ h2
    · rw [hflight c hcb] at hc
      have hold := h.holds c f hc
      have hm := hmessage c hcb
      have hn := hnext c hcb (by rw [hc]; simp)
      cases f with
      | sending urgent buffer prio => trivial
      | copied urgent buffer prio => exact ⟨hm.trans hold.1, fun hu => hn.trans (hold.2 hu)⟩
      | receiving size message => exact hm.trans hold
      | read size message out => exact hold

namespace MqWell

variable {mq : MessageQueue} {fr qu : List ℕ} {b : ℕ} {f : MqFlight}

theorem flight_lt (h : MqWell mq fr qu) (hb : mq.flight b = some f) : b < mq.maxMsgs :=
  (h.slots.slot b).mpr (.inr (.inr (by rw [hb]; simp)))

theorem flight_not_free (h : MqWell mq fr qu) (hb : mq.flight b = some f) : b ∉ fr := fun hm => by
  rw [(h.slots.freeOnly b hm).2] at hb; cases hb

theorem flight_not_queued (h : MqWell mq fr qu) (hb : mq.flight b = some f) : b ∉ qu := fun hm => by
  rw [h.slots.queueOnly b hm] at hb; cases hb

/-- **Taking a free message** for sending. -/
theorem takeFree (h : MqWell mq fr qu) (hb : mq.free = some b) (urgent : Bool)
    (buffer : List UInt8) (prio : ℤ) :
    ∃ fr', fr = b :: fr' ∧ MqWell (mq.takeFree b (.sending urgent buffer prio)) fr' qu := by
  have hfree := h.lists.free
  rw [hb] at hfree
  obtain ⟨fr', rfl, hfr'⟩ := hfree.pop
  obtain ⟨hbq, hbf⟩ := h.slots.freeOnly b List.mem_cons_self
  have hnd := (List.nodup_cons.mp hfree.nodup).1
  refine ⟨fr', rfl, ⟨hfr', h.lists.queue, h.lists.tail, h.lists.entry⟩, ?_, h.max⟩
  refine h.slots.update (b := b) ((h.slots.slot b).mpr (.inl List.mem_cons_self)) rfl
    (fun c hc => Function.update_of_ne hc _ _) (fun c hc => ?_) (fun _ _ => .rfl) (fun _ _ => rfl)
    (fun _ _ _ => rfl) (.inr (.inr ⟨hnd, hbq, _, Function.update_self .., trivial⟩))
  rw [List.mem_cons, or_iff_right hc]

/-- **Copying a buffer** into a message. -/
theorem copyIn (h : MqWell mq fr qu) {urgent : Bool} {buffer : List UInt8} {prio : ℤ}
    (hb : mq.flight b = some (.sending urgent buffer prio)) :
    MqWell (mq.copyIn b urgent buffer prio) fr qu ∧
      ∀ c ∈ qu, (mq.copyIn b urgent buffer prio).message c = mq.message c := by
  have hfr := h.flight_not_free hb
  have hqu := h.flight_not_queued hb
  have hnext : ∀ c ≠ b, (mq.copyIn b urgent buffer prio).next c = mq.next c := fun c hc => by
    cases urgent
    · exact Function.update_of_ne hc _ _
    · rfl
  have hmessage : ∀ c ≠ b, (mq.copyIn b urgent buffer prio).message c = mq.message c :=
    fun c hc => by
      have h1 : (mq.copyIn b urgent buffer prio).length c = mq.length c :=
        Function.update_of_ne hc _ _
      have h2 : (mq.copyIn b urgent buffer prio).bytes c = mq.bytes c :=
        Function.update_of_ne hc _ _
      rw [MessageQueue.message, h1, h2, MessageQueue.message]
  have hself : (mq.copyIn b urgent buffer prio).message b = buffer := by
    have h1 : (mq.copyIn b urgent buffer prio).length b = buffer.length :=
      Function.update_self ..
    have h2 : (mq.copyIn b urgent buffer prio).bytes b = blit (mq.bytes b) 0 buffer :=
      Function.update_self ..
    rw [MessageQueue.message, h1, h2]
    apply List.ext_getElem (by simp)
    intro i hi1 hi2
    rw [List.getElem_map, List.getElem_range, blit_of_mem (Nat.zero_le _) (by omega)]
    rfl
  have hne : ∀ c ∈ qu, c ≠ b := fun c hc e => hqu (e ▸ hc)
  refine ⟨⟨⟨h.lists.free.frame fun c hc => hnext c fun e => hfr (e ▸ hc),
    h.lists.queue.frame fun c hc => hnext c (hne c hc), h.lists.tail, h.lists.entry⟩, ?_, h.max⟩,
    fun c hc => hmessage c (hne c hc)⟩
  refine h.slots.update (b := b) (h.flight_lt hb) rfl (fun c hc => Function.update_of_ne hc _ _)
    (fun _ _ => .rfl) (fun _ _ => .rfl) hmessage (fun c hc _ => hnext c hc)
    (.inr (.inr ⟨hfr, hqu, _, Function.update_self .., hself, fun hu => ?_⟩))
  subst hu
  exact Function.update_self ..

/-- **Unlinking the first message.** -/
theorem unlink (h : MqWell mq fr qu) (hb : mq.head = some b) (size : ℕ) :
    ∃ qu', qu = b :: qu' ∧ mq.flight b = none ∧ MqWell (mq.unlink b size) fr qu' := by
  have hqueue := h.lists.queue
  rw [hb] at hqueue
  obtain ⟨qu', rfl, hqu'⟩ := hqueue.pop
  have hbf := h.slots.queueOnly b List.mem_cons_self
  have hnd := (List.nodup_cons.mp hqueue.nodup).1
  have hfr : b ∉ fr := fun hm => (h.slots.freeOnly b hm).1 List.mem_cons_self
  have htail : (if mq.tail = some b then none else mq.tail) = qu'.getLast? := by
    rw [h.lists.tail]
    cases qu' with
    | nil => simp
    | cons c l =>
      rw [List.getLast?_cons_cons, if_neg fun e => ?_]
      exact hnd (List.mem_of_getLast? e)
  have hentry : (if mq.entry > 0 then mq.entry - 1 else mq.entry) = qu'.length := by
    rw [h.lists.entry, List.length_cons, if_pos (Nat.succ_pos _)]
    rfl
  refine ⟨qu', rfl, hbf, ⟨h.lists.free, hqu', htail, hentry⟩, ?_, h.max⟩
  refine h.slots.update (b := b) ((h.slots.slot b).mpr (.inr (.inl List.mem_cons_self))) rfl
    (fun c hc => Function.update_of_ne hc _ _) (fun _ _ => .rfl) (fun c hc => ?_) (fun _ _ => rfl)
    (fun _ _ _ => rfl) (.inr (.inr ⟨hfr, hnd, _, Function.update_self .., rfl⟩))
  rw [List.mem_cons, or_iff_right hc]

theorem copyOut_eq (mq : MessageQueue) (b size : ℕ) :
    mq.copyOut b size = (mq.message b).take size := by
  unfold MessageQueue.copyOut MessageQueue.message
  rw [← List.map_take, List.take_range]
  dsimp only
  split_ifs with hlt
  · rw [Nat.min_eq_left (by omega)]
  · rw [Nat.min_eq_right (by omega)]

/-- **Copying a message out.** -/
theorem copyTo (h : MqWell mq fr qu) {size : ℕ} {message : List UInt8}
    (hb : mq.flight b = some (.receiving size message)) :
    MqWell (mq.copyTo b size message) fr qu ∧ mq.copyOut b size = message.take size := by
  have hout : mq.copyOut b size = message.take size := by
    rw [copyOut_eq]
    exact congrArg (List.take size) (h.slots.holds b _ hb)
  refine ⟨⟨⟨h.lists.free, h.lists.queue, h.lists.tail, h.lists.entry⟩, ?_, h.max⟩, hout⟩
  exact h.slots.update (b := b) (h.flight_lt hb) rfl (fun c hc => Function.update_of_ne hc _ _)
    (fun _ _ => .rfl) (fun _ _ => .rfl) (fun _ _ => rfl) (fun _ _ _ => rfl)
    (.inr (.inr ⟨h.flight_not_free hb, h.flight_not_queued hb, _, Function.update_self .., hout⟩))

/-- **Putting a message back.** -/
theorem putBack (h : MqWell mq fr qu) (hb : mq.flight b = some f) :
    MqWell ((mq.putFree b).land b) (b :: fr) qu := by
  have hfr := h.flight_not_free hb
  have hqu := h.flight_not_queued hb
  have hnext : ∀ c ≠ b, ((mq.putFree b).land b).next c = mq.next c := fun c hc =>
    Function.update_of_ne hc _ _
  refine ⟨⟨h.lists.free.push hfr, h.lists.queue.frame fun c hc => hnext c fun e => hqu (e ▸ hc),
    h.lists.tail, h.lists.entry⟩, ?_, h.max⟩
  refine h.slots.update (b := b) (h.flight_lt hb) rfl (fun c hc => Function.update_of_ne hc _ _)
    (fun c hc => ?_) (fun _ _ => .rfl) (fun _ _ => rfl) (fun c hc _ => hnext c hc)
    (.inl ⟨List.mem_cons_self, hqu, Function.update_self ..⟩)
  rw [List.mem_cons, or_iff_right hc]

end MqWell

/-! ## Linking -/

/-- Only the queue list differs. -/
structure MqSame (mq mq' : MessageQueue) : Prop where
  maxMsgs : mq'.maxMsgs = mq.maxMsgs
  entry : mq'.entry = mq.entry
  free : mq'.free = mq.free
  flight : mq'.flight = mq.flight
  length : mq'.length = mq.length
  bytes : mq'.bytes = mq.bytes

/-- `mq'` has the queue list `qu'`, and off the queue the links of `mq`. -/
structure MqLinked (mq mq' : MessageQueue) (b : ℕ) (qu qu' : List ℕ) : Prop where
  same : MqSame mq mq'
  queue : NextChain mq'.next mq'.head qu'
  tail : mq'.tail = qu'.getLast?
  next : ∀ c ≠ b, c ∉ qu → mq'.next c = mq.next c

section

variable {mq : MessageQueue} {fr qu : List ℕ} {b : ℕ}

/-- The end of the queue is where a message without successor is linked. -/
theorem linkBehind (hq : NextChain mq.next mq.head (qu ++ [t])) (hb : b ∉ qu ++ [t])
    (hnb : mq.next b = none) :
    MqLinked mq { mq with next := Function.update mq.next t (some b), tail := some b } b (qu ++ [t])
      (qu ++ [t, b]) := by
  have hsame : Function.update mq.next b none = mq.next := by
    rw [← hnb, Function.update_eq_self]
  have := hq.append hb
  rw [hsame] at this
  refine ⟨⟨rfl, rfl, rfl, rfl, rfl, rfl⟩, this, ?_, fun c _ hc => ?_⟩
  · rw [List.getLast?_append]
    rfl
  · have hct : c ≠ t := fun e => hc (e ▸ List.mem_append_right _ List.mem_cons_self)
    exact Function.update_of_ne hct _ _

/-- **`_rt_mq_send_wait`** links at the end. -/
theorem linkTail_linked (h : MqLists mq fr qu) (hb : b ∉ qu) (hnb : mq.next b = none) :
    MqLinked mq (mq.linkTail b) b qu (qu ++ [b]) := by
  rcases List.eq_nil_or_concat qu with rfl | ⟨l, t, rfl⟩
  · have hhead : mq.head = none := h.queue.eq_nil_iff.mp rfl
    have htail : mq.tail = none := h.tail
    have heq : mq.linkTail b = { mq with tail := some b, head := some b } := by
      unfold MessageQueue.linkTail
      rw [htail]
      exact if_pos hhead
    rw [heq]
    refine ⟨⟨rfl, rfl, rfl, rfl, rfl, rfl⟩, .cons ?_, rfl, fun _ _ _ => rfl⟩
    rw [hnb]
    exact .nil
  · rw [List.concat_eq_append] at *
    have hhead : mq.head ≠ none := fun e => by
      have := h.queue.eq_nil_iff.mpr e
      simp at this
    have htail : mq.tail = some t := by rw [h.tail, List.getLast?_append]; rfl
    have heq : mq.linkTail b =
        { mq with next := Function.update mq.next t (some b), tail := some b } := by
      unfold MessageQueue.linkTail
      rw [htail]
      exact if_neg hhead
    have := linkBehind h.queue hb hnb
    rw [heq, List.append_assoc]
    exact this

/-- **`rt_mq_urgent`** links at the beginning. -/
theorem linkHead_linked (h : MqLists mq fr qu) (hb : b ∉ qu) :
    MqLinked mq (mq.linkHead b) b qu (b :: qu) := by
  obtain ⟨mq', hmq'⟩ : ∃ mq' : MessageQueue, mq' =
      { mq with next := Function.update mq.next b mq.head, head := some b } := ⟨_, rfl⟩
  have heq : mq.linkHead b = if mq'.tail = none then { mq' with tail := some b } else mq' := by
    rw [hmq']; rfl
  have hqueue : NextChain mq'.next mq'.head (b :: qu) := by rw [hmq']; exact h.queue.push hb
  have hnext : ∀ c ≠ b, c ∉ qu → mq'.next c = mq.next c := fun c hc _ => by
    rw [hmq']; exact Function.update_of_ne hc _ _
  have hsame : MqSame mq mq' := by rw [hmq']; exact ⟨rfl, rfl, rfl, rfl, rfl, rfl⟩
  have htail : mq'.tail = qu.getLast? := by rw [hmq']; exact h.tail
  rw [heq]
  cases qu with
  | nil =>
    have hnone : mq'.tail = none := htail
    rw [if_pos hnone]
    exact ⟨⟨hsame.maxMsgs, hsame.entry, hsame.free, hsame.flight, hsame.length, hsame.bytes⟩,
      hqueue, rfl, hnext⟩
  | cons c l =>
    rw [if_neg fun e => by rw [htail] at e; simp at e]
    refine ⟨hsame, hqueue, ?_, hnext⟩
    rw [htail, List.getLast?_cons_cons]

/-- Where the loop with priorities links `b`: behind messages of its priority or a higher one, and
before one of a lower priority. -/
structure MqPlaced (prio : ℕ → ℤ) (b : ℕ) (l l' : List ℕ) : Prop where
  before : ∀ c ∈ l, prio b ≤ prio c
  behind : ∀ c, l'.head? = some c → prio c < prio b

/-- **The loop with priorities** links at the place for the priority, in the rest of the queue. -/
theorem prioLoop_linked {pre suf : List ℕ} {fuel : ℕ} (hq : NextChain mq.next mq.head (pre ++ suf))
    (htail : mq.tail = (pre ++ suf).getLast?) (hb : b ∉ pre ++ suf) (hnb : mq.next b = none)
    (hne : suf ≠ []) (hfuel : suf.length ≤ fuel) (hpre : ∀ c ∈ pre, mq.prio b ≤ mq.prio c) :
    ∃ mq' l l', pre ++ suf = l ++ l' ∧
      MessageQueue.prioLoop b fuel mq pre.getLast? suf.head? = some mq' ∧
      MqLinked mq mq' b (pre ++ suf) (l ++ b :: l') ∧ mq'.prio = mq.prio ∧
      MqPlaced mq.prio b l l' := by
  induction suf generalizing pre fuel with
  | nil => exact absurd rfl hne
  | cons node rest ih =>
    obtain ⟨fuel, rfl⟩ : ∃ n, fuel = n + 1 := ⟨fuel - 1, by simp at hfuel; omega⟩
    have hnext : mq.next node = rest.head? := hq.suffix.head?.symm
    simp only [List.head?_cons, MessageQueue.prioLoop]
    by_cases hprio : mq.prio node < mq.prio b
    · -- `b` goes between `pre` and `node`
      rw [if_pos hprio]
      have hplaced : MqPlaced mq.prio b pre (node :: rest) :=
        ⟨hpre, fun c hc => Option.some.inj hc ▸ hprio⟩
      have hlast : (pre ++ node :: rest).getLast? = (pre ++ b :: node :: rest).getLast? := by
        rw [List.getLast?_append, List.getLast?_append, List.getLast?_cons_cons]
      rcases List.eq_nil_or_concat pre with rfl | ⟨l, p, rfl⟩
      · have hhead : mq.head = some node := hq.head?.symm
        refine ⟨_, [], node :: rest, rfl, rfl, ⟨⟨rfl, rfl, rfl, rfl, rfl, rfl⟩, ?_,
          htail.trans hlast, fun c hc _ => Function.update_of_ne hc _ _⟩, rfl, hplaced⟩
        rw [← hhead]
        exact hq.push hb
      · rw [List.concat_eq_append] at *
        have hpb : p ≠ b := fun e => hb (by simp [e])
        have hnp : mq.next p = some node := by
          have hq' := hq
          rw [List.append_assoc] at hq'
          exact hq'.suffix.head?.symm
        have hins := (List.append_assoc l [p] (node :: rest) ▸ hq : NextChain mq.next mq.head
          (l ++ p :: node :: rest)).insertAfter (a := b) (by simpa using hb)
        rw [hnp, Function.update_comm hpb.symm] at hins
        have hgl : (l ++ [p]).getLast? = some p := by rw [List.getLast?_append]; rfl
        rw [hgl]
        refine ⟨_, l ++ [p], node :: rest, rfl, rfl, ⟨⟨rfl, rfl, rfl, rfl, rfl, rfl⟩, ?_,
          htail.trans hlast, fun c hc hcq => ?_⟩, rfl, hplaced⟩
        · rw [List.append_assoc]
          exact hins
        · have hcp : c ≠ p := fun e => hcq (by simp [e])
          exact (Function.update_of_ne hc _ _).trans (Function.update_of_ne hcp _ _)
    · rw [if_neg hprio]
      have hpre' : ∀ c ∈ pre ++ [node], mq.prio b ≤ mq.prio c := fun c hc => by
        rcases List.mem_append.mp hc with hc | hc
        · exact hpre c hc
        · rw [List.mem_singleton.mp hc]
          exact Int.not_lt.mp hprio
      cases rest with
      | nil =>
        have hnb' : node ≠ b := fun e => hb (by simp [e])
        have hnone : mq.next node = none := hnext
        rw [if_pos hnone]
        simp only [if_pos hnb']
        refine ⟨_, pre ++ [node], [], (List.append_nil _).symm, rfl, ?_, rfl, hpre', fun c hc => by
          cases hc⟩
        have := linkBehind hq hb hnb
        rw [List.append_assoc]
        exact this
      | cons node' rest =>
        rw [if_neg (by rw [hnext]; simp)]
        have hassoc : pre ++ node :: node' :: rest = (pre ++ [node]) ++ node' :: rest := by simp
        have hgl : (pre ++ [node]).getLast? = some node := by rw [List.getLast?_append]; rfl
        rw [hassoc] at hq htail hb ⊢
        have hlen : (node' :: rest).length ≤ fuel := by simp at hfuel ⊢; omega
        have := ih hq htail hb (List.cons_ne_nil _ _) hlen hpre'
        rwa [hgl, ← hnext] at this

/-- The loop with priorities, for a message that has just become the head. -/
theorem prioLoop_self (hnb : mq.next b = none) {fuel : ℕ} :
    MessageQueue.prioLoop b (fuel + 1) mq none (some b) = some { mq with tail := some b } := by
  simp [MessageQueue.prioLoop, hnb]

/-- **`_rt_mq_send_wait`** links a message by its priority. -/
theorem linkPrio_linked (h : MqLists mq fr qu) (hb : b ∉ qu) (hnb : mq.next b = none)
    (hlen : qu.length ≤ mq.maxMsgs) (prio : ℤ) :
    ∃ mq' l l', qu = l ++ l' ∧ mq.linkPrio b prio = some mq' ∧
      MqLinked mq mq' b qu (l ++ b :: l') ∧ mq'.prio = Function.update mq.prio b prio ∧
      MqPlaced mq'.prio b l l' := by
  obtain ⟨mq₁, hmq₁⟩ : ∃ mq₁ : MessageQueue, mq₁ =
      { mq with prio := Function.update mq.prio b prio } := ⟨_, rfl⟩
  have hsame : MqSame mq mq₁ := by rw [hmq₁]; exact ⟨rfl, rfl, rfl, rfl, rfl, rfl⟩
  have hhead : mq₁.head = mq.head := by rw [hmq₁]
  have htail : mq₁.tail = mq.tail := by rw [hmq₁]
  have hnext : mq₁.next = mq.next := by rw [hmq₁]
  have hprio₁ : mq₁.prio = Function.update mq.prio b prio := by rw [hmq₁]
  have heq : mq.linkPrio b prio =
      let mq := if mq₁.head = none then { mq₁ with head := some b } else mq₁
      MessageQueue.prioLoop b (mq.maxMsgs + 1) mq none mq.head := by rw [hmq₁]; rfl
  cases qu with
  | nil =>
    have hnone : mq₁.head = none := hhead.trans (h.queue.eq_nil_iff.mp rfl)
    rw [if_pos hnone] at heq
    refine ⟨{ mq₁ with head := some b, tail := some b }, [], [], rfl, ?_,
      ⟨⟨hsame.maxMsgs, hsame.entry, hsame.free, hsame.flight, hsame.length, hsame.bytes⟩, ?_, rfl,
      fun c _ _ => congrFun hnext c⟩, hprio₁, fun c hc => absurd hc List.not_mem_nil, fun c hc => by
        cases hc⟩
    · rw [heq]
      refine prioLoop_self ?_
      exact (congrFun hnext b).trans hnb
    · refine .cons ?_
      dsimp only
      rw [hnext, hnb]
      exact .nil
  | cons c l =>
    have hsome : mq₁.head = some c := hhead.trans h.queue.head?.symm
    rw [if_neg (by rw [hsome]; simp)] at heq
    have hq : NextChain mq₁.next mq₁.head ([] ++ c :: l) := by rw [hnext, hhead]; exact h.queue
    have hfuel : (c :: l).length ≤ mq₁.maxMsgs + 1 := by rw [hsame.maxMsgs]; omega
    obtain ⟨mq', l₁, l₂, h1, h2, h3, h4, h5⟩ := prioLoop_linked hq (htail.trans h.tail) hb
      (by rw [hnext]; exact hnb) (List.cons_ne_nil _ _) hfuel fun c hc => absurd hc List.not_mem_nil
    refine ⟨mq', l₁, l₂, h1, ?_, ⟨⟨?_, ?_, ?_, ?_, ?_, ?_⟩, h3.queue, h3.tail, fun d hd hdq => ?_⟩,
      h4.trans hprio₁, h4 ▸ h5⟩
    · rw [heq]
      dsimp only
      rw [hsome]
      exact h2
    · exact h3.same.maxMsgs.trans hsame.maxMsgs
    · exact h3.same.entry.trans hsame.entry
    · exact h3.same.free.trans hsame.free
    · exact h3.same.flight.trans hsame.flight
    · exact h3.same.length.trans hsame.length
    · exact h3.same.bytes.trans hsame.bytes
    · exact (h3.next d hd hdq).trans (congrFun hnext d)

end

/-- Where a message is linked, between `l` and `l'`, and what its priority is then. -/
structure MqPlace (priority urgent : Bool) (prio : ℤ) (mq mq' : MessageQueue) (b : ℕ)
    (l l' : List ℕ) : Prop where
  head : urgent = true → l = [] ∧ mq'.prio = mq.prio
  tail : urgent = false → priority = false → l' = []
  placed : urgent = false → priority = true →
    mq'.prio = Function.update mq.prio b prio ∧ MqPlaced mq'.prio b l l'

theorem linkHead_prio (mq : MessageQueue) (b : ℕ) : (mq.linkHead b).prio = mq.prio := by
  unfold MessageQueue.linkHead
  dsimp only
  split_ifs <;> rfl

/-- **Linking a message** that has been copied. -/
theorem MqWell.linked {mq mq' : MessageQueue} {fr qu qu' : List ℕ} {b : ℕ} {f : MqFlight}
    (h : MqWell mq fr qu) (hb : mq.flight b = some f) (hl : MqLinked mq mq' b qu qu')
    (hperm : qu'.Perm (b :: qu)) :
    MqWell { mq'.land b with entry := (mq'.land b).entry + 1 } fr qu' ∧
      ∀ c, mq'.message c = mq.message c := by
  have hfr := h.flight_not_free hb
  have hqu := h.flight_not_queued hb
  have hmessage : ∀ c, mq'.message c = mq.message c := fun c => by
    rw [MessageQueue.message, MessageQueue.message, hl.same.length, hl.same.bytes]
  have hfree : NextChain mq'.next mq'.free fr := by
    rw [hl.same.free]
    refine h.lists.free.frame fun c hc => hl.next c (fun e => hfr (e ▸ hc)) ?_
    exact (h.slots.freeOnly c hc).1
  have hentry : mq'.entry + 1 = qu'.length := by
    rw [hl.same.entry, h.lists.entry, hperm.length_eq]
    rfl
  refine ⟨⟨⟨hfree, hl.queue, hl.tail, hentry⟩, ?_, ?_⟩, hmessage⟩
  · refine h.slots.update (b := b) (h.flight_lt hb) hl.same.maxMsgs (fun c hc => ?_)
      (fun _ _ => .rfl) (fun c hc => ?_) (fun c _ => hmessage c) (fun c hc hf => ?_)
      (.inr (.inl ⟨hfr, hperm.symm.subset List.mem_cons_self, Function.update_self ..⟩))
    · exact (Function.update_of_ne hc _ _).trans (congrFun hl.same.flight c)
    · rw [hperm.mem_iff, List.mem_cons, or_iff_right hc]
    · refine hl.next c hc fun hm => hf ?_
      exact h.slots.queueOnly c hm
  · change mq'.maxMsgs ≤ mqEntryMax
    rw [hl.same.maxMsgs]
    exact h.max

/-! ## The deque with operations in flight -/

/-- The messages in the queue, the first to be received first. -/
def MessageQueue.contents (mq : MessageQueue) : List (List UInt8) :=
  (chainList mq.next mq.maxMsgs mq.head).map mq.message

/-- The section of an operation on a message queue. -/
inductive MqAct where
  | send (urgent : Bool) (buffer : List UInt8) (prio : ℤ)
  | recv (size : ℕ)
  | copy (b : ℕ)
  | link (b : ℕ)
  | read (b : ℕ)
  | putBack (b : ℕ)
  deriving DecidableEq, Repr

/-- What a waiting call does, as a section. -/
def MqOp.act : MqOp → MqAct
  | .send buffer prio => .send false buffer prio
  | .recv size => .recv size

/-- The section that a step is. -/
def mqAct (s : MqCalls T M) : MqLabel T M → Option (M × MqAct)
  | .env _ => none
  | .send m buffer prio _ _ => some (m, .send false buffer prio)
  | .urgent m buffer => some (m, .send true buffer 0)
  | .recv m size _ _ => some (m, .recv size)
  | .resume => s.caller.map fun c => ((s.locals c).mq, (s.locals c).op.act)
  | .copy m b => some (m, .copy b)
  | .link m b => some (m, .link b)
  | .read m b => some (m, .read b)
  | .putBack m b => some (m, .putBack b)

/-- What a section does to the contents `q` and the messages in flight `fl`: a message is linked as
its sender had it, at the end or at the beginning without priorities; the first is unlinked, and
returned up to the size of its receiver. -/
def MqEffect (priority : Bool) (q : List (List UInt8)) (fl : ℕ → Option MqFlight) (act : MqAct)
    (r : MqResult) (q' : List (List UInt8)) (fl' : ℕ → Option MqFlight) : Prop :=
  match act, r with
  | .send urgent buffer prio, .taken b =>
    q' = q ∧ fl b = none ∧ fl' = Function.update fl b (some (.sending urgent buffer prio))
  | .copy b, .copied => q' = q ∧ ∃ urgent buffer prio,
    fl b = some (.sending urgent buffer prio) ∧
      fl' = Function.update fl b (some (.copied urgent buffer prio))
  | .link b, .sent => ∃ urgent buffer prio, fl b = some (.copied urgent buffer prio) ∧
    fl' = Function.update fl b none ∧ ∃ q₁ q₂, q = q₁ ++ q₂ ∧ q' = q₁ ++ buffer :: q₂ ∧
      (urgent = true → q₁ = []) ∧ (urgent = false → priority = false → q₂ = [])
  | .recv size, .unlinked b => ∃ message, q = message :: q' ∧ fl b = none ∧
    fl' = Function.update fl b (some (.receiving size message))
  | .read b, .read => q' = q ∧ ∃ size message, fl b = some (.receiving size message) ∧
    fl' = Function.update fl b (some (.read size message (message.take size)))
  | .putBack b, .received out => q' = q ∧ ∃ size message,
    fl b = some (.read size message out) ∧ out = message.take size ∧
      fl' = Function.update fl b none
  | _, .waits => q' = q ∧ fl' = fl
  | _, .failed _ => q' = q ∧ fl' = fl
  | _, _ => False

/-- What a section has done: to its message queue, and nothing else. -/
structure MqStepped (priority : Bool) (s s' : MqCalls T M) (m : M) (act : MqAct) (r : MqResult) :
    Prop where
  effect : MqEffect priority (s.data m).contents (s.data m).flight act r (s'.data m).contents
    (s'.data m).flight
  frame : ∀ m' ≠ m, s'.data m' = s.data m'

/-- What a step does to the message queues. -/
def MqSimulates (priority : Bool) (s s' : MqCalls T M) (a : MqLabel T M) (r : MqResult) : Prop :=
  match mqAct s a with
  | none => s'.data = s.data
  | some (m, act) => MqStepped priority s s' m act r

theorem MqWell.length_le {mq : MessageQueue} {fr qu : List ℕ} (h : MqWell mq fr qu) :
    qu.length ≤ mq.maxMsgs := by
  have hsub : qu ⊆ List.range mq.maxMsgs := fun b hb =>
    List.mem_range.mpr ((h.slots.slot b).mpr (.inr (.inl hb)))
  have := (List.subperm_of_subset h.lists.queue.nodup hsub).length_le
  rwa [List.length_range] at this

theorem MqWell.contents {mq : MessageQueue} {fr qu : List ℕ} (h : MqWell mq fr qu) :
    mq.contents = qu.map mq.message := by
  rw [MessageQueue.contents, h.lists.queue.chainList_eq h.length_le]

/-! ## The steps -/

/-- The invariant of the message queues. -/
structure MqInv (s : MqCalls T M) : Prop where
  calls : CallInv s
  well : ∀ m, ∃ fr qu, MqWell (s.data m) fr qu

theorem MessageQueue.setup_well (prio : ℕ → ℤ) (bytes : ℕ → ℕ → UInt8) (msgSize maxMsgs : ℕ) :
    ∃ fr, MqWell (.setup prio bytes msgSize maxMsgs) fr [] := by
  obtain ⟨mq, hmq⟩ : ∃ mq : MessageQueue, mq =
    { msgSize := msgSize % 2 ^ 16, maxMsgs := maxMsgs % 2 ^ 16, entry := 0, head := none
      tail := none, free := none, next := fun _ => none, length := fun _ => 0, prio := prio
      bytes := bytes, flight := fun _ => none } := ⟨_, rfl⟩
  have hmax : mq.maxMsgs < 2 ^ 16 := by rw [hmq]; exact Nat.mod_lt _ (by decide)
  -- the free list after `n` rounds holds the messages below `n`
  have hloop : ∀ n, ∃ fr, MqLists ((List.range n).foldl MessageQueue.putFree mq) fr [] ∧
      (∀ b, b ∈ fr ↔ b < n) ∧
      ((List.range n).foldl MessageQueue.putFree mq).maxMsgs = mq.maxMsgs ∧
      ((List.range n).foldl MessageQueue.putFree mq).flight = mq.flight ∧
      ((List.range n).foldl MessageQueue.putFree mq).head = none := fun n => by
    induction n with
    | zero =>
      refine ⟨[], ⟨?_, ?_, ?_, ?_⟩, fun b => ?_, rfl, rfl, ?_⟩
      · rw [hmq]; exact .nil
      · rw [hmq]; exact .nil
      · rw [hmq]; rfl
      · rw [hmq]; rfl
      · simp
      · rw [hmq]; rfl
    | succ n ih =>
      obtain ⟨fr, hl, hmem, h1, h2, h3⟩ := ih
      rw [List.range_succ, List.foldl_append]
      have hn : n ∉ fr := fun hm => absurd ((hmem n).mp hm) (Nat.lt_irrefl n)
      refine ⟨n :: fr, ⟨hl.free.push hn, ?_, hl.tail, hl.entry⟩, fun b => ?_, h1, h2, h3⟩
      · change NextChain _ ((List.range n).foldl MessageQueue.putFree mq).head []
        rw [h3]
        exact .nil
      · rw [List.mem_cons, hmem]
        omega
  obtain ⟨fr, hl, hmem, h1, h2, -⟩ := hloop mq.maxMsgs
  have hset : MessageQueue.setup prio bytes msgSize maxMsgs =
      (List.range mq.maxMsgs).foldl MessageQueue.putFree mq := by rw [hmq]; rfl
  have hnone : ∀ b, ((List.range mq.maxMsgs).foldl MessageQueue.putFree mq).flight b = none :=
    fun b => by rw [h2, hmq]
  rw [hset]
  refine ⟨fr, hl, ⟨fun b => ?_, fun b _ => ⟨by simp, hnone b⟩, fun b hb => absurd hb List.not_mem_nil,
    fun b f hb => ?_⟩, ?_⟩
  · rw [h1, hmem, hnone]
    simp
  · rw [hnone] at hb
    cases hb
  · rw [h1]
    exact Nat.le_of_lt_succ hmax

/-- A section that has changed no message queue. -/
theorem MqStepped.same {priority : Bool} {s s' : MqCalls T M} {m : M} {act : MqAct} {r : MqResult}
    (h : s'.data = s.data) (hr : r = .waits ∨ ∃ e, r = .failed e) :
    MqStepped priority s s' m act r := by
  refine ⟨?_, fun m' _ => by rw [h]⟩
  rw [h]
  rcases hr with rfl | ⟨e, rfl⟩
  · cases act <;> exact ⟨rfl, rfl⟩
  · cases act <;> exact ⟨rfl, rfl⟩

/-- A section that has replaced the message queue. -/
theorem MqStepped.set {priority : Bool} {s s' : MqCalls T M} {m : M} {act : MqAct} {r : MqResult}
    {mq : MessageQueue} (h : s'.data = Function.update s.data m mq)
    (he : MqEffect priority (s.data m).contents (s.data m).flight act r mq.contents mq.flight) :
    MqStepped priority s s' m act r := by
  refine ⟨?_, fun m' hm => ?_⟩
  · rw [h, Function.update_self]
    exact he
  · rw [h]
    exact Function.update_of_ne hm _ _

namespace MqInv

variable {priority : Bool} {s s' : MqCalls T M} {c t : T} {m : M} {h : MqList M} {l : MqLocals M}
  {r : MqResult} {mq : MessageQueue} {fr qu : List ℕ} {b : ℕ} {buffer : List UInt8} {prio : ℤ}

theorem init_well (h0 : MqInit priority s) (m : M) : ∃ fr, MqWell (s.data m) fr [] := by
  obtain ⟨prio, bytes, msgSize, -, ⟨poolSize, hm, -⟩ | ⟨maxMsgs, hm⟩⟩ := h0.created m
  · obtain ⟨fr, hw⟩ := MessageQueue.setup_well prio bytes msgSize
      (poolSize / (rtAlign msgSize + mqHeaderSize priority))
    exact ⟨fr, hm ▸ hw⟩
  · obtain ⟨fr, hw⟩ := MessageQueue.setup_well prio bytes msgSize maxMsgs
    exact ⟨fr, hm ▸ hw⟩

theorem init (h0 : MqInit priority s) : MqInv s := by
  refine ⟨h0.calls.inv, fun m => ?_⟩
  obtain ⟨fr, hw⟩ := init_well h0 m
  exact ⟨fr, [], hw⟩

theorem env (hs : MqInv s) {a : EnvLabel T} (he : envStep s a = some s') :
    MqInv s' ∧ s'.data = s.data := by
  obtain ⟨hcalls, hf⟩ := envStep_frame hs.calls he
  exact ⟨⟨hcalls, fun m => hf.data ▸ hs.well m⟩, hf.data⟩

/-- A wake-up changes no message queue. -/
theorem wake (hs : MqInv s) (h : MqList M) : MqInv (mqWake s h) ∧ (mqWake s h).data = s.data := by
  unfold mqWake
  cases hw : s.kernel.waiters h with
  | nil =>
    rw [ipcListResume_nil hw]
    exact ⟨hs, rfl⟩
  | cons t l =>
    have ht : t ∈ s.kernel.waiters h := by rw [hw]; exact List.mem_cons_self
    rw [ipcListResume_cons hw]
    exact ⟨⟨hs.calls.resume ht .eok, hs.well⟩, rfl⟩

theorem set (hs : MqInv s) (hm : MqWell mq fr qu) : MqInv (mqSet s m mq) := by
  refine ⟨hs.calls.withData _, fun m' => ?_⟩
  change ∃ fr qu, MqWell (Function.update s.data m mq m') fr qu
  by_cases he : m' = m
  · subst he; rw [Function.update_self]; exact ⟨fr, qu, hm⟩
  · rw [Function.update_of_ne he]; exact hs.well m'

theorem leave (hs : MqInv s) (hc : s.caller = some c) : MqInv (s.leave c) :=
  ⟨hs.calls.leave hc, hs.well⟩

/-- **Waiting** changes no message queue. -/
theorem wait (hs : MqInv s) (hc : s.self = some c) (hw : mqWait s c l h = some (r, s')) :
    MqInv s' ∧ s'.data = s.data ∧ r = .waits := by
  obtain ⟨⟨e, s₁⟩, hw, he⟩ := Option.map_eq_some_iff.mp hw
  obtain ⟨k, rfl, rfl, hcalls, -⟩ := hs.calls.wait hc hw
  cases he
  exact ⟨⟨hcalls, hs.well⟩, rfl, rfl⟩

variable (priority buffer prio) in
/-- **Taking a free message.** -/
theorem take (hs : MqInv s) (hb : (s.data m).free = some b) (urgent : Bool) :
    MqInv (mqSet s m ((s.data m).takeFree b (.sending urgent buffer prio))) ∧
      MqStepped priority s (mqSet s m ((s.data m).takeFree b (.sending urgent buffer prio))) m
        (.send urgent buffer prio) (.taken b) := by
  obtain ⟨fr, qu, hm⟩ := hs.well m
  obtain ⟨fr', rfl, hw⟩ := hm.takeFree hb urgent buffer prio
  refine ⟨hs.set hw, .set rfl ⟨?_, (hm.slots.freeOnly b List.mem_cons_self).2, rfl⟩⟩
  rw [hm.contents, hw.contents]
  rfl

variable (priority) in
/-- **The loop of `_rt_mq_send_wait`.** -/
theorem sendLoop (hs : MqInv s) {thread : Option T}
    (hthread : ∀ c, thread = some c → s.self = some c)
    (hl : mqSendLoop s thread l buffer prio = some (r, s')) :
    MqInv s' ∧ MqStepped priority s s' l.mq (.send false buffer prio) r := by
  unfold mqSendLoop at hl
  cases hfree : (s.data l.mq).free with
  | none =>
    rw [hfree] at hl
    obtain ⟨c, hc, hl⟩ := Option.bind_eq_some_iff.mp hl
    have hself := hthread c hc
    by_cases ht : l.timeout = 0
    · rw [if_pos ht] at hl
      cases hl
      obtain ⟨-, -, hin⟩ := CallState.self_iff.mp hself
      exact ⟨⟨(hs.calls.setError hin _).1, hs.well⟩, .same rfl (.inr ⟨_, rfl⟩)⟩
    · rw [if_neg ht] at hl
      obtain ⟨h1, h2, h3⟩ := hs.wait hself hl
      exact ⟨h1, .same h2 (.inl h3)⟩
  | some b =>
    rw [hfree] at hl
    have htake := hs.take priority buffer prio hfree false
    cases hl
    exact htake

variable (priority) in
/-- **The loop of `_rt_mq_recv`.** -/
theorem recvLoop (hs : MqInv s) {thread : Option T} {size : ℕ}
    (hthread : ∀ c, thread = some c → s.self = some c)
    (hl : mqRecvLoop s thread l size = some (r, s')) :
    MqInv s' ∧ MqStepped priority s s' l.mq (.recv size) r := by
  unfold mqRecvLoop at hl
  by_cases hempty : (s.data l.mq).entry = 0
  · rw [if_pos hempty] at hl
    obtain ⟨c, hc, hl⟩ := Option.bind_eq_some_iff.mp hl
    have hself := hthread c hc
    by_cases ht : l.timeout = 0
    · rw [if_pos ht] at hl
      cases hl
      obtain ⟨-, -, hin⟩ := CallState.self_iff.mp hself
      exact ⟨⟨(hs.calls.setError hin _).1, hs.well⟩, .same rfl (.inr ⟨_, rfl⟩)⟩
    · rw [if_neg ht] at hl
      obtain ⟨h1, h2, h3⟩ := hs.wait hself hl
      exact ⟨h1, .same h2 (.inl h3)⟩
  · rw [if_neg hempty] at hl
    obtain ⟨b, hb, hl⟩ := Option.map_eq_some_iff.mp hl
    cases hl
    obtain ⟨fr, qu, hm⟩ := hs.well l.mq
    obtain ⟨qu', rfl, hbf, hw⟩ := hm.unlink hb size
    refine ⟨hs.set hw, .set rfl ⟨(s.data l.mq).message b, ?_, hbf, rfl⟩⟩
    rw [hm.contents, hw.contents]
    rfl

variable (priority) in
theorem urgent (hs : MqInv s) (m : M) (buffer : List UInt8) : MqInv (mqUrgent s m buffer).2 ∧
    MqStepped priority s (mqUrgent s m buffer).2 m (.send true buffer 0)
      (mqUrgent s m buffer).1 := by
  unfold mqUrgent
  by_cases hsize : buffer.length > (s.data m).msgSize
  · rw [if_pos hsize]
    exact ⟨hs, .same rfl (.inr ⟨_, rfl⟩)⟩
  · rw [if_neg hsize]
    cases hfree : (s.data m).free with
    | none => exact ⟨hs, .same rfl (.inr ⟨_, rfl⟩)⟩
    | some b => exact hs.take priority buffer 0 hfree true

/-- **A woken sender or receiver.** -/
theorem resume (hs : MqInv s) (hc : s.caller = some c) (hr : mqResume s c = some (r, s')) :
    MqInv s' ∧ MqStepped priority s s' (s.locals c).mq (s.locals c).op.act r := by
  have hself := hs.calls.self_leave hc
  have hleave := hs.leave hc
  have hthread : ∀ c', some c = some c' → (s.leave c).self = some c' := fun _ e => by
    rw [← Option.some.inj e]; exact hself
  unfold mqResume at hr
  by_cases herr : (s.kernel.thread c).error ≠ .eok
  · rw [if_pos herr] at hr
    cases hr
    exact ⟨hleave, .same rfl (.inr ⟨_, rfl⟩)⟩
  · rw [if_neg herr] at hr
    cases hop : (s.locals c).op with
    | send buffer prio =>
      simp only [hop] at hr
      obtain ⟨h1, h2⟩ := hleave.sendLoop priority hthread hr
      exact ⟨h1, h2.effect, h2.frame⟩
    | recv size =>
      simp only [hop] at hr
      obtain ⟨h1, h2⟩ := hleave.recvLoop priority hthread hr
      exact ⟨h1, h2.effect, h2.frame⟩

/-- **Copying** a sender's buffer. -/
theorem copy (hs : MqInv s) (hc : mqCopy s m b = some (r, s')) :
    MqInv s' ∧ MqStepped priority s s' m (.copy b) r := by
  unfold mqCopy at hc
  split at hc
  · next urgent buffer prio hb =>
    cases hc
    obtain ⟨fr, qu, hm⟩ := hs.well m
    obtain ⟨hw, hmessage⟩ := hm.copyIn hb
    refine ⟨hs.set hw, .set rfl ⟨?_, urgent, buffer, prio, hb, rfl⟩⟩
    rw [hm.contents, hw.contents]
    exact List.map_congr_left hmessage
  · cases hc

variable (priority) in
/-- The queue list after a message has been linked. -/
theorem linked (hs : MqInv s) {urgent : Bool}
    (hb : (s.data m).flight b = some (.copied urgent buffer prio)) :
    ∃ mq' fr qu l l', (s.data m).linkIn priority b urgent prio = some mq' ∧
      MqWell (s.data m) fr qu ∧ qu = l ++ l' ∧ MqLinked (s.data m) mq' b qu (l ++ b :: l') ∧
      MqPlace priority urgent prio (s.data m) mq' b l l' := by
  obtain ⟨fr, qu, hm⟩ := hs.well m
  have hqu := hm.flight_not_queued hb
  have hholds := hm.slots.holds b _ hb
  cases urgent with
  | true =>
    exact ⟨_, fr, qu, [], qu, rfl, hm, rfl, linkHead_linked hm.lists hqu,
      ⟨fun _ => ⟨rfl, linkHead_prio ..⟩, fun h => absurd h.symm Bool.false_ne_true,
        fun h => absurd h.symm Bool.false_ne_true⟩⟩
  | false =>
    have hnb := hholds.2 rfl
    cases priority with
    | true =>
      obtain ⟨mq', l, l', h1, h2, h3, h4⟩ := linkPrio_linked hm.lists hqu hnb hm.length_le prio
      exact ⟨mq', fr, qu, l, l', h2, hm, h1, h3, ⟨fun h => absurd h Bool.false_ne_true,
        fun _ h => absurd h.symm Bool.false_ne_true, fun _ _ => h4⟩⟩
    | false =>
      exact ⟨_, fr, qu, qu, [], rfl, hm, (List.append_nil _).symm,
        linkTail_linked hm.lists hqu hnb, ⟨fun h => absurd h Bool.false_ne_true, fun _ _ => rfl,
          fun _ h => absurd h Bool.false_ne_true⟩⟩

variable (priority) in
/-- **Linking** a message: the queue list before and after. -/
theorem linkStep (hs : MqInv s) {urgent : Bool}
    (hb : (s.data m).flight b = some (.copied urgent buffer prio)) :
    ∃ s' mq' fr qu l l', mqLink priority s m b = some (.sent, s') ∧ MqInv s' ∧
      s'.data = Function.update s.data m mq' ∧ MqWell (s.data m) fr qu ∧ qu = l ++ l' ∧
      MqWell mq' fr (l ++ b :: l') ∧ (∀ c, mq'.message c = (s.data m).message c) ∧
      mq'.flight = Function.update (s.data m).flight b none ∧
      MqPlace priority urgent prio (s.data m) mq' b l l' := by
  obtain ⟨mq', fr, qu, l, l', heq, hm, hsplit, hl, hplace⟩ := hs.linked priority hb
  have hperm : (l ++ b :: l').Perm (b :: qu) := by
    rw [hsplit]
    exact List.perm_middle
  obtain ⟨hw, hmessage⟩ := hm.linked hb hl hperm
  have hlt : (mq'.land b).entry < mqEntryMax := by
    have h1 := hw.length_le
    rw [← hw.lists.entry] at h1
    exact h1.trans hw.max
  have hlink : mqLink priority s m b = some (.sent,
      mqWake (mqSet s m { mq'.land b with entry := (mq'.land b).entry + 1 }) (.receivers m)) := by
    unfold mqLink
    rw [hb]
    dsimp only
    rw [heq]
    exact congrArg some (if_pos hlt)
  obtain ⟨h1, h2⟩ := (hs.set (m := m) hw).wake (.receivers m)
  have hflight : Function.update mq'.flight b none = Function.update (s.data m).flight b none := by
    rw [hl.same.flight]
  exact ⟨_, _, fr, qu, l, l', hlink, h1, h2, hm, hsplit, hw, hmessage, hflight, hplace.head, hplace.tail, hplace.placed⟩

variable (priority) in
/-- **Linking** a message is one of the deque. -/
theorem link (hs : MqInv s) {urgent : Bool}
    (hb : (s.data m).flight b = some (.copied urgent buffer prio)) :
    ∃ s', mqLink priority s m b = some (.sent, s') ∧ MqInv s' ∧
      MqStepped priority s s' m (.link b) .sent := by
  obtain ⟨s', mq', fr, qu, l, l', hlink, hinv, hdata, hm, hsplit, hw, hmessage, hflight, hplace⟩ :=
    hs.linkStep priority hb
  refine ⟨s', hlink, hinv, .set hdata ⟨urgent, buffer, prio, hb, hflight, l.map (s.data m).message,
    l'.map (s.data m).message, ?_, ?_, fun hu => ?_, fun hu hp => ?_⟩⟩
  · rw [hm.contents, hsplit, List.map_append]
  · have hbuf : (s.data m).message b = buffer := (hm.slots.holds b _ hb).1
    rw [hw.contents, List.map_append, List.map_cons, ← hbuf, ← hmessage b]
    congr 1
    · exact List.map_congr_left fun c _ => hmessage c
    · exact congrArg _ (List.map_congr_left fun c _ => hmessage c)
  · rw [(hplace.head hu).1]
    rfl
  · rw [hplace.tail hu hp]
    rfl

/-- **Copying out.** -/
theorem read (hs : MqInv s) (hc : mqRead s m b = some (r, s')) :
    MqInv s' ∧ MqStepped priority s s' m (.read b) r := by
  unfold mqRead at hc
  split at hc
  · next size message hb =>
    cases hc
    obtain ⟨fr, qu, hm⟩ := hs.well m
    obtain ⟨hw, hout⟩ := hm.copyTo hb
    refine ⟨hs.set hw, .set rfl ⟨?_, size, message, hb, ?_⟩⟩
    · rw [hm.contents, hw.contents]
      rfl
    · rw [← hout]
      rfl
  · cases hc

/-- **Putting a message back.** -/
theorem putBack (hs : MqInv s) (hc : mqPutBack s m b = some (r, s')) :
    MqInv s' ∧ MqStepped priority s s' m (.putBack b) r := by
  unfold mqPutBack at hc
  split at hc
  · next size message out hb =>
    cases hc
    obtain ⟨fr, qu, hm⟩ := hs.well m
    have hw := hm.putBack hb
    obtain ⟨h1, h2⟩ := (hs.set (m := m) hw).wake (.senders m)
    refine ⟨h1, .set h2 ⟨?_, size, message, hb, hm.slots.holds b _ hb, rfl⟩⟩
    rw [hm.contents, hw.contents]
    rfl
  · cases hc

/-- **Every step** keeps the invariant and is one of the deque. -/
theorem step (hs : MqInv s) {a : MqLabel T M} (hst : mqStep priority s a = some (r, s')) :
    MqInv s' ∧ MqSimulates priority s s' a r := by
  cases a with
  | env a =>
    obtain ⟨s₁, h₁, he⟩ := Option.map_eq_some_iff.mp hst
    cases he
    exact hs.env h₁
  | send m buffer prio timeout flag =>
    simp only [mqStep] at hst
    by_cases hne : buffer.length ≠ 0
    case neg => rw [if_neg hne] at hst; cases hst
    rw [if_pos hne] at hst
    unfold mqSend at hst
    by_cases hsize : buffer.length > (s.data m).msgSize
    · rw [if_pos hsize] at hst
      cases hst
      exact ⟨hs, .same rfl (.inr ⟨_, rfl⟩)⟩
    rw [if_neg hsize] at hst
    by_cases hfull : (s.data m).free = none ∧ timeout = 0
    · rw [if_pos hfull] at hst
      cases hst
      exact ⟨hs, .same rfl (.inr ⟨_, rfl⟩)⟩
    · rw [if_neg hfull] at hst
      exact hs.sendLoop priority (fun _ => id) hst
  | urgent m buffer =>
    simp only [mqStep] at hst
    split_ifs at hst
    have hu := hs.urgent priority m buffer
    rw [Option.some.inj hst] at hu
    exact hu
  | recv m size timeout flag =>
    simp only [mqStep] at hst
    by_cases hne : size ≠ 0
    case neg => rw [if_neg hne] at hst; cases hst
    rw [if_pos hne] at hst
    unfold mqRecv at hst
    by_cases hempty : (s.data m).entry = 0 ∧ timeout = 0
    · rw [if_pos hempty] at hst
      cases hst
      exact ⟨hs, .same rfl (.inr ⟨_, rfl⟩)⟩
    · rw [if_neg hempty] at hst
      exact hs.recvLoop priority (fun _ => id) hst
  | resume =>
    obtain ⟨c, hc, hst⟩ := Option.bind_eq_some_iff.mp hst
    have hact : mqAct s .resume = some ((s.locals c).mq, (s.locals c).op.act) := by
      simp only [mqAct, hc, Option.map_some]
    rw [MqSimulates, hact]
    exact hs.resume hc hst
  | copy m b => exact hs.copy hst
  | link m b =>
    have hst' : mqLink priority s m b = some (r, s') := hst
    have hf : ∃ urgent buffer prio, (s.data m).flight b = some (.copied urgent buffer prio) := by
      unfold mqLink at hst'
      split at hst'
      · next urgent buffer prio hb => exact ⟨_, _, _, hb⟩
      · cases hst'
    obtain ⟨urgent, buffer, prio, hb⟩ := hf
    obtain ⟨s₁, h1, h2, h3⟩ := hs.link priority hb
    rw [h1] at hst'
    cases hst'
    exact ⟨h2, h3⟩
  | read m b => exact hs.read hst
  | putBack m b => exact hs.putBack hst

end MqInv

/-! ## Conservation -/

/-- The messages in flight. -/
def MessageQueue.held (mq : MessageQueue) : List ℕ :=
  (List.range mq.maxMsgs).filter fun b => (mq.flight b).isSome

/-- **Free, queued or in flight.** -/
theorem MqWell.perm {mq : MessageQueue} {fr qu : List ℕ} (h : MqWell mq fr qu) :
    (fr ++ qu ++ mq.held).Perm (List.range mq.maxMsgs) := by
  have hheld : mq.held.Nodup := List.nodup_range.filter _
  have hmem : ∀ b, b ∈ mq.held ↔ b < mq.maxMsgs ∧ mq.flight b ≠ none := fun b => by
    rw [MessageQueue.held, List.mem_filter, List.mem_range, Option.isSome_iff_ne_none]
  have hnd : (fr ++ qu ++ mq.held).Nodup := by
    rw [List.nodup_append, List.nodup_append]
    refine ⟨⟨h.lists.free.nodup, h.lists.queue.nodup, fun b hb c hc e => ?_⟩, hheld,
      fun b hb c hc e => ?_⟩
    · subst e
      exact (h.slots.freeOnly b hb).1 hc
    · subst e
      refine ((hmem b).mp hc).2 ?_
      rcases List.mem_append.mp hb with hb | hb
      · exact (h.slots.freeOnly b hb).2
      · exact h.slots.queueOnly b hb
  refine (List.perm_ext_iff_of_nodup hnd List.nodup_range).mpr fun b => ?_
  rw [List.mem_append, List.mem_append, hmem, List.mem_range, h.slots.slot b, or_assoc]
  tauto

end RtThread
