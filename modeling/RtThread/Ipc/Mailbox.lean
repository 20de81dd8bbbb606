import RtThread.Ipc.Calls
import RtThread.Lib.Ring

/-!
# Mailboxes

`rt_mb_send_wait`, `rt_mb_urgent` and `rt_mb_recv`: a circular array of words with two lists of
waiting threads. Sending and receiving wait in a loop; its sections are the one up to `rt_schedule`
and `mbResume`.

* `Mailbox`, `mbSend`, `mbUrgent`, `mbRecv`, `mbResume`;
* `MbWell`; `MbWell.put`, `MbWell.push`, `MbWell.take`: the circular array as a deque;
* `MbDequeStep`: a bounded deque;
* **`mb_refines`**: in every run the sections do to the mailbox what they do to the deque.
-/

set_option linter.unusedSectionVars false

namespace RtThread

open Kernel

/-- `RT_MB_ENTRY_MAX`. -/
abbrev mbEntryMax : ℕ := 0xffff

/-- `struct rt_mailbox`; the pool is given by its contents. -/
structure Mailbox where
  msgPool : ℕ → BitVec 32
  size : ℕ
  entry : ℕ
  inOffset : ℕ
  outOffset : ℕ

/-- The lists of waiting threads of a mailbox: `parent.suspend_thread` and
`suspend_sender_thread`. -/
inductive MbList (M : Type) where
  | receivers (m : M)
  | senders (m : M)
  deriving DecidableEq, Repr

/-- What a call does. -/
inductive MbOp where
  | send (value : BitVec 32)
  | urgent (value : BitVec 32)
  | recv
  deriving DecidableEq, Repr

/-- How a section ends: with `RT_EOK`, for a receiver with a value too, with an error, or in the
suspended state. -/
inductive MbResult where
  | sent
  | received (value : BitVec 32)
  | failed (e : Err)
  | waits
  deriving DecidableEq, Repr

/-- The locals of `_rt_mb_send_wait` and `_rt_mb_recv`. -/
structure MbLocals (M : Type) where
  mb : M
  op : MbOp
  timeout : BitVec 32
  flag : SuspendFlag
  tickDelta : BitVec 32
  deriving DecidableEq, Repr

/-- The calls on mailboxes. -/
abbrev MbCalls (T M : Type) := CallState T (MbList M) (MbLocals M) (M → Mailbox)

variable {T M : Type} [DecidableEq T] [DecidableEq M]

/-! ## The code -/

namespace Mailbox

variable (mb : Mailbox)

/-- `rt_mb_init`. -/
def init (msgPool : ℕ → BitVec 32) (size : ℕ) : Mailbox where
  msgPool := msgPool
  size := size % 2 ^ 16
  entry := 0
  inOffset := 0
  outOffset := 0

/-- `_rt_mb_send_wait` writes the value. -/
def write (value : BitVec 32) : Mailbox :=
  { mb with
    msgPool := Function.update mb.msgPool mb.inOffset value
    inOffset := if mb.inOffset + 1 ≥ mb.size then 0 else mb.inOffset + 1 }

/-- `rt_mb_urgent` rewinds to the previous position and writes the value there. -/
def rewind (value : BitVec 32) : Mailbox :=
  let outOffset := if mb.outOffset > 0 then mb.outOffset - 1 else mb.size - 1
  { mb with
    outOffset := outOffset
    msgPool := Function.update mb.msgPool outOffset value
    entry := mb.entry + 1 }

/-- `_rt_mb_recv` reads a value. -/
def read : BitVec 32 × Mailbox :=
  (mb.msgPool mb.outOffset,
    { mb with
      outOffset := if mb.outOffset + 1 ≥ mb.size then 0 else mb.outOffset + 1
      entry := if mb.entry > 0 then mb.entry - 1 else mb.entry })

end Mailbox

/-- Wake the first waiting thread of a list, if there is one. -/
def mbWake (s : MbCalls T M) (h : MbList M) : MbCalls T M :=
  match s.kernel.ipcListResume h with
  | some k => s.withKernel k
  | none => s

/-- Replace a mailbox. -/
def mbSet (s : MbCalls T M) (m : M) (mb : Mailbox) : MbCalls T M :=
  s.withData (Function.update s.data m mb)

/-- `_rt_mb_send_wait` after its loop. -/
def mbSendFinish (s : MbCalls T M) (m : M) (value : BitVec 32) : MbResult × MbCalls T M :=
  let mb := (s.data m).write value
  if mb.entry < mbEntryMax then
    (.sent, mbWake (mbSet s m { mb with entry := mb.entry + 1 }) (.receivers m))
  else (.failed .efull, mbSet s m mb)

/-- `_rt_mb_recv` after its loop. -/
def mbRecvFinish (s : MbCalls T M) (m : M) : MbResult × MbCalls T M :=
  let r := (s.data m).read
  (.received r.1, mbWake (mbSet s m r.2) (.senders m))

/-- The loop of `_rt_mb_send_wait` or `_rt_mb_recv` waits. -/
def mbWait (s : MbCalls T M) (c : T) (l : MbLocals M) (h : MbList M) :
    Option (MbResult × MbCalls T M) :=
  (s.wait c h l.timeout l.flag
    { l with tickDelta := if 0 < l.timeout.toInt then s.tick else l.tickDelta }).map fun r =>
      (r.1.elim .waits .failed, r.2)

/-- The loop of `_rt_mb_send_wait`, from its head to the return or to `rt_schedule`. -/
def mbSendLoop (s : MbCalls T M) (thread : Option T) (l : MbLocals M) (value : BitVec 32) :
    Option (MbResult × MbCalls T M) :=
  if (s.data l.mb).entry = (s.data l.mb).size then
    thread.bind fun c =>
      if l.timeout = 0 then
        some (.failed .efull, s.withKernel (s.kernel.setThread c fun th => { th with error := .eintr }))
      else mbWait s c l (.senders l.mb)
  else some (mbSendFinish s l.mb value)

/-- The loop of `_rt_mb_recv`, from its head to the return or to `rt_schedule`. -/
def mbRecvLoop (s : MbCalls T M) (thread : Option T) (l : MbLocals M) :
    Option (MbResult × MbCalls T M) :=
  if (s.data l.mb).entry = 0 then
    thread.bind fun c =>
      if l.timeout = 0 then
        some (.failed .etimeout,
          s.withKernel (s.kernel.setThread c fun th => { th with error := .etimeout }))
      else mbWait s c l (.receivers l.mb)
  else some (mbRecvFinish s l.mb)

/-- `rt_mb_urgent`. -/
def mbUrgent (s : MbCalls T M) (m : M) (value : BitVec 32) : MbResult × MbCalls T M :=
  if (s.data m).entry = (s.data m).size then (.failed .efull, s)
  else (.sent, mbWake (mbSet s m ((s.data m).rewind value)) (.receivers m))

/-- `_rt_mb_send_wait` and `_rt_mb_recv` after their `rt_schedule`. -/
def mbResume (s : MbCalls T M) (c : T) : Option (MbResult × MbCalls T M) :=
  if (s.kernel.thread c).error ≠ .eok then some (.failed (s.kernel.thread c).error, s.leave c)
  else
    let l := { s.locals c with timeout := timeLeft (s.locals c).timeout (s.locals c).tickDelta s.tick }
    match l.op with
    | .send value => mbSendLoop (s.leave c) (some c) l value
    | .recv => mbRecvLoop (s.leave c) (some c) l
    | .urgent _ => none

/-! ## The system -/

/-- Threads and mailboxes, initialized. -/
structure MbInit (s : MbCalls T M) : Prop where
  calls : CallInit s
  created : ∀ m, ∃ msgPool size, s.data m = .init msgPool size

/-- A section of an operation on a bounded deque: contents before, result, contents after. -/
def MbDequeStep (size : ℕ) (q : List (BitVec 32)) (op : MbOp) (r : MbResult)
    (q' : List (BitVec 32)) : Prop :=
  match op, r with
  | .send value, .sent => q.length < size ∧ q' = q ++ [value]
  | .urgent value, .sent => q.length < size ∧ q' = value :: q
  | .recv, .received value => q = value :: q'
  | .recv, .sent => False
  | _, .received _ => False
  | _, .failed e => q' = q ∧ (e = .efull → q.length = size)
  | _, .waits => q' = q

/-- The mails in a mailbox, the oldest first. -/
def Mailbox.contents (mb : Mailbox) : List (BitVec 32) :=
  window mb.size mb.msgPool mb.outOffset mb.entry

/-- The offsets of a mailbox. -/
structure MbWell (mb : Mailbox) : Prop where
  size : mb.size ≤ mbEntryMax
  entry : mb.entry ≤ mb.size
  out : 0 < mb.size → mb.outOffset < mb.size
  into : 0 < mb.size → mb.inOffset = ringIndex mb.size mb.outOffset mb.entry
  zero : mb.size = 0 → mb.inOffset = 0 ∧ mb.outOffset = 0

namespace MbWell

variable {mb : Mailbox}

theorem init (msgPool : ℕ → BitVec 32) (size : ℕ) : MbWell (.init msgPool size) := by
  have hlt : size % 2 ^ 16 < 2 ^ 16 := Nat.mod_lt _ (by decide)
  refine ⟨Nat.le_of_lt_succ hlt, Nat.zero_le _, id, fun hs => ?_, fun _ => ⟨rfl, rfl⟩⟩
  exact (ringIndex_zero hs).symm

theorem inOffset (h : MbWell mb) : mb.inOffset = (mb.outOffset + mb.entry) % mb.size := by
  have hle := h.entry
  by_cases hs : 0 < mb.size
  · rw [h.into hs]
    exact ringIndex_eq_mod (h.out hs) hle
  · obtain ⟨h1, h2⟩ := h.zero (by omega)
    have he : mb.entry = 0 := by omega
    rw [h1, h2, he]
    simp

@[simp] theorem length_contents : mb.contents.length = mb.entry := length_window

/-- **Writing behind the last mail.** -/
theorem write (h : MbWell mb) (hlt : mb.entry < mb.size) (value : BitVec 32) :
    MbWell { mb.write value with entry := (mb.write value).entry + 1 } ∧
      Mailbox.contents { mb.write value with entry := (mb.write value).entry + 1 } =
        mb.contents ++ [value] := by
  have hs : 0 < mb.size := by omega
  have hout := h.out hs
  have hin := h.into hs
  refine ⟨⟨h.size, hlt, fun _ => hout, fun _ => ?_, fun h0 => ?_⟩, ?_⟩
  · change (if mb.inOffset + 1 ≥ mb.size then 0 else mb.inOffset + 1) =
      ringIndex mb.size mb.outOffset (mb.entry + 1)
    rw [hin]
    unfold ringIndex
    split_ifs <;> omega
  · have : mb.size = 0 := h0
    omega
  · change window mb.size (Function.update mb.msgPool mb.inOffset value) mb.outOffset
      (mb.entry + 1) = _
    have hinlt : mb.inOffset < mb.size := hin ▸ ringIndex_lt hout h.entry
    rw [window_append hout hlt, ← hin, window_one hinlt, Function.update_self]
    congr 1
    refine window_congr fun i hi => ?_
    refine Function.update_of_ne (fun e => ?_) _ _
    rw [hin] at e
    have := ringIndex_inj (by omega) (by omega) e
    omega

/-- **Writing before the first mail.** -/
theorem rewind (h : MbWell mb) (hlt : mb.entry < mb.size) (value : BitVec 32) :
    MbWell (mb.rewind value) ∧ (mb.rewind value).contents = value :: mb.contents := by
  have hs : 0 < mb.size := by omega
  have hout := h.out hs
  obtain ⟨out', hout'⟩ : ∃ out', out' = if mb.outOffset > 0 then mb.outOffset - 1 else mb.size - 1 :=
    ⟨_, rfl⟩
  have hlt' : out' < mb.size := by
    rw [hout']
    split_ifs <;> omega
  have hback : ringIndex mb.size out' 1 = mb.outOffset := by
    rw [hout']
    unfold ringIndex
    split_ifs <;> omega
  have heq : mb.rewind value = { mb with
      outOffset := out'
      msgPool := Function.update mb.msgPool out' value
      entry := mb.entry + 1 } := by rw [hout']; rfl
  rw [heq]
  refine ⟨⟨h.size, hlt, fun _ => hlt', fun _ => ?_, fun h0 => ?_⟩, ?_⟩
  · change mb.inOffset = ringIndex mb.size out' (mb.entry + 1)
    rw [h.into hs, ← hback, ringIndex_add hlt' (by omega), Nat.add_comm]
  · have : mb.size = 0 := h0
    omega
  · change window mb.size (Function.update mb.msgPool out' value) out' (mb.entry + 1) = _
    rw [Nat.add_comm, window_append hlt' (by omega), window_one hlt', Function.update_self, hback]
    refine congrArg (value :: ·) (window_congr fun i hi => ?_)
    refine Function.update_of_ne (fun e => ?_) _ _
    rw [← hback, ringIndex_add hlt' (by omega)] at e
    have := ringIndex_inj (by omega) hs (e.trans (ringIndex_zero hlt').symm)
    omega

/-- **Reading the first mail.** -/
theorem read (h : MbWell mb) (hpos : mb.entry ≠ 0) :
    MbWell mb.read.2 ∧ mb.contents = mb.read.1 :: mb.read.2.contents := by
  have hle := h.entry
  have hs : 0 < mb.size := by omega
  have hout := h.out hs
  have hnext : (if mb.outOffset + 1 ≥ mb.size then 0 else mb.outOffset + 1) =
      ringIndex mb.size mb.outOffset 1 := by
    unfold ringIndex
    split_ifs <;> omega
  have heq : mb.read = (mb.msgPool mb.outOffset, { mb with
      outOffset := ringIndex mb.size mb.outOffset 1
      entry := mb.entry - 1 }) := by
    unfold Mailbox.read
    rw [hnext, if_pos (by omega)]
  obtain ⟨n, hn⟩ : ∃ n, mb.entry = 1 + n := ⟨mb.entry - 1, by omega⟩
  rw [heq, hn, Nat.add_sub_cancel_left]
  refine ⟨⟨h.size, ?_, fun _ => ?_, fun _ => ?_, fun h0 => ?_⟩, ?_⟩
  · change n ≤ mb.size
    omega
  · exact ringIndex_lt hout hs
  · change mb.inOffset = ringIndex mb.size (ringIndex mb.size mb.outOffset 1) n
    rw [ringIndex_add hout (by omega), ← hn]
    exact h.into hs
  · have : mb.size = 0 := h0
    omega
  · rw [Mailbox.contents, hn, window_append hout (by omega), window_one hout]
    rfl

end MbWell

/-! ## The steps -/

/-- The invariant of the mailboxes. -/
structure MbInv (s : MbCalls T M) : Prop where
  calls : CallInv s
  well : ∀ m, MbWell (s.data m)
  error : ∀ t ∈ s.inside, (s.kernel.thread t).error ≠ .efull

/-- What a section of the call `(m, op)` has done: a step of the deque `m`, and nothing else. -/
structure MbStepped (s s' : MbCalls T M) (m : M) (op : MbOp) (r : MbResult) : Prop where
  deque : MbDequeStep (s.data m).size (s.data m).contents op r (s'.data m).contents
  size : ∀ m', (s'.data m').size = (s.data m').size
  frame : ∀ m' ≠ m, s'.data m' = s.data m'

namespace MbInv

variable {s s' : MbCalls T M} {c t : T} {m : M} {h : MbList M} {l : MbLocals M} {op : MbOp}
  {r : MbResult} {mb : Mailbox} {value : BitVec 32}

theorem init (h0 : MbInit s) : MbInv s := by
  refine ⟨h0.calls.inv, fun m => ?_, fun t ht => ?_⟩
  · obtain ⟨msgPool, size, hm⟩ := h0.created m
    rw [hm]
    exact MbWell.init msgPool size
  · rw [h0.calls.inside] at ht
    cases ht

/-- **The environment.** -/
theorem env (hs : MbInv s) {a : EnvLabel T} (he : envStep s a = some s') :
    MbInv s' ∧ s'.data = s.data := by
  obtain ⟨hcalls, hf⟩ := envStep_frame hs.calls he
  refine ⟨⟨hcalls, fun m => hf.data ▸ hs.well m, fun t ht => ?_⟩, hf.data⟩
  rw [hf.inside] at ht
  rcases hf.calls t ht with hu | hout
  · rw [hu.error]
    exact hs.error t ht
  · rw [hout.error]
    simp

/-- A wake-up changes no mailbox. -/
theorem wake (hs : MbInv s) (h : MbList M) : MbInv (mbWake s h) ∧ (mbWake s h).data = s.data := by
  unfold mbWake
  cases hw : s.kernel.waiters h with
  | nil =>
    rw [ipcListResume_nil hw]
    exact ⟨hs, rfl⟩
  | cons t l =>
    have ht : t ∈ s.kernel.waiters h := by rw [hw]; exact List.mem_cons_self
    have hk := ipcResumeThread_woken hs.calls.linked ht .eok
    rw [ipcListResume_cons hw]
    refine ⟨⟨hs.calls.resume ht .eok, hs.well, fun u hu => ?_⟩, rfl⟩
    change ((s.kernel.ipcResumeThread .eok t).thread u).error ≠ .efull
    by_cases hut : u = t
    · subst hut
      rw [hk.error]
      simp
    · rw [(hk.untouched u hut).error]
      exact hs.error u hu

theorem set (hs : MbInv s) (hm : MbWell mb) : MbInv (mbSet s m mb) := by
  refine ⟨hs.calls.withData _, fun m' => ?_, hs.error⟩
  change MbWell (Function.update s.data m mb m')
  by_cases he : m' = m
  · subst he; rw [Function.update_self]; exact hm
  · rw [Function.update_of_ne he]; exact hs.well m'

theorem leave (hs : MbInv s) (hc : s.caller = some c) : MbInv (s.leave c) :=
  ⟨hs.calls.leave hc, hs.well, fun t ht => hs.error t (List.mem_of_mem_erase ht)⟩

/-- A caller that writes its error code and returns. -/
theorem setError (hs : MbInv s) (hc : s.self = some c) (e : Err) :
    MbInv (s.withKernel (s.kernel.setThread c fun th => { th with error := e })) := by
  obtain ⟨-, -, hin⟩ := CallState.self_iff.mp hc
  obtain ⟨hcalls, hth⟩ := hs.calls.setError hin e
  refine ⟨hcalls, hs.well, fun u hu he => hs.error u hu ?_⟩
  have := congrArg Thread.error (hth u hu)
  exact this.symm.trans he

/-- **Waiting** changes no mailbox. -/
theorem wait (hs : MbInv s) (hc : s.self = some c) (hw : mbWait s c l h = some (r, s')) :
    MbInv s' ∧ s'.data = s.data ∧ r = .waits := by
  obtain ⟨⟨e, s₁⟩, hw, he⟩ := Option.map_eq_some_iff.mp hw
  obtain ⟨k, rfl, rfl, hcalls, hwaits⟩ := hs.calls.wait hc hw
  cases he
  refine ⟨⟨hcalls, hs.well, fun t ht => ?_⟩, rfl, rfl⟩
  change (k.thread t).error ≠ .efull
  by_cases htc : t = c
  · subst htc
    rw [hwaits.error]
    simp
  · rw [hwaits.thread t htc]
    exact hs.error t ((List.mem_cons.mp ht).resolve_left htc)

end MbInv

/-- A section that has changed no mailbox. -/
theorem MbStepped.same {s s' : MbCalls T M} {m : M} {op : MbOp} {r : MbResult}
    (h : s'.data = s.data)
    (hr : r = .waits ∨ ∃ e, r = .failed e ∧ (e = .efull → (s.data m).entry = (s.data m).size)) :
    MbStepped s s' m op r := by
  refine ⟨?_, fun m' => by rw [h], fun m' _ => by rw [h]⟩
  rw [h]
  rcases hr with rfl | ⟨e, rfl, he⟩
  · cases op <;> rfl
  · cases op <;> exact ⟨rfl, fun h => MbWell.length_contents.trans (he h)⟩

/-- A section that has replaced the mailbox. -/
theorem MbStepped.set {s s' : MbCalls T M} {m : M} {op : MbOp} {r : MbResult} {mb : Mailbox}
    (h : s'.data = Function.update s.data m mb) (hsize : mb.size = (s.data m).size)
    (hd : MbDequeStep (s.data m).size (s.data m).contents op r mb.contents) :
    MbStepped s s' m op r := by
  refine ⟨?_, fun m' => ?_, fun m' hm => ?_⟩
  · rw [h, Function.update_self]
    exact hd
  · rw [h]
    by_cases hm : m' = m
    · subst hm; rw [Function.update_self]; exact hsize
    · rw [Function.update_of_ne hm]
  · rw [h]
    exact Function.update_of_ne hm _ _

namespace MbInv

variable {s s' : MbCalls T M} {c t : T} {m : M} {l : MbLocals M} {r : MbResult} {value : BitVec 32}

/-- **Sending**, when the mailbox is not full. -/
theorem sendFinish (hs : MbInv s) (hne : (s.data m).entry ≠ (s.data m).size)
    (value : BitVec 32) : MbInv (mbSendFinish s m value).2 ∧
      MbStepped s (mbSendFinish s m value).2 m (.send value) (mbSendFinish s m value).1 := by
  have hm := hs.well m
  have hlt : (s.data m).entry < (s.data m).size := by
    have := hm.entry
    omega
  obtain ⟨hwell, hcont⟩ := hm.write hlt value
  have hmax : ((s.data m).write value).entry < mbEntryMax := by
    have := hm.size
    change (s.data m).entry < mbEntryMax
    omega
  unfold mbSendFinish
  dsimp only
  rw [if_pos hmax]
  obtain ⟨h1, h2⟩ := (hs.set hwell).wake (.receivers m)
  refine ⟨h1, .set h2 rfl ⟨?_, hcont⟩⟩
  rw [MbWell.length_contents]
  exact hlt

/-- **Receiving**, when the mailbox is not empty. -/
theorem recvFinish (hs : MbInv s) (hne : (s.data m).entry ≠ 0) : MbInv (mbRecvFinish s m).2 ∧
    MbStepped s (mbRecvFinish s m).2 m .recv (mbRecvFinish s m).1 := by
  obtain ⟨hwell, hcont⟩ := (hs.well m).read hne
  obtain ⟨h1, h2⟩ := (hs.set hwell).wake (.senders m)
  exact ⟨h1, .set h2 rfl hcont⟩

/-- **The loop of `_rt_mb_send_wait`.** -/
theorem sendLoop (hs : MbInv s) {thread : Option T}
    (hthread : ∀ c, thread = some c → s.self = some c)
    (hl : mbSendLoop s thread l value = some (r, s')) :
    MbInv s' ∧ MbStepped s s' l.mb (.send value) r := by
  unfold mbSendLoop at hl
  by_cases hfull : (s.data l.mb).entry = (s.data l.mb).size
  · rw [if_pos hfull] at hl
    obtain ⟨c, hc, hl⟩ := Option.bind_eq_some_iff.mp hl
    have hself := hthread c hc
    split_ifs at hl with ht
    · cases hl
      exact ⟨hs.setError hself _, .same rfl (.inr ⟨_, rfl, fun _ => hfull⟩)⟩
    · obtain ⟨h1, h2, h3⟩ := hs.wait hself hl
      exact ⟨h1, .same h2 (.inl h3)⟩
  · rw [if_neg hfull] at hl
    have hfin := hs.sendFinish hfull value
    rw [Option.some.inj hl] at hfin
    exact hfin

/-- **The loop of `_rt_mb_recv`.** -/
theorem recvLoop (hs : MbInv s) {thread : Option T}
    (hthread : ∀ c, thread = some c → s.self = some c)
    (hl : mbRecvLoop s thread l = some (r, s')) :
    MbInv s' ∧ MbStepped s s' l.mb .recv r := by
  unfold mbRecvLoop at hl
  by_cases hempty : (s.data l.mb).entry = 0
  · rw [if_pos hempty] at hl
    obtain ⟨c, hc, hl⟩ := Option.bind_eq_some_iff.mp hl
    have hself := hthread c hc
    split_ifs at hl with ht
    · cases hl
      exact ⟨hs.setError hself _, .same rfl (.inr ⟨_, rfl, fun h => by cases h⟩)⟩
    · obtain ⟨h1, h2, h3⟩ := hs.wait hself hl
      exact ⟨h1, .same h2 (.inl h3)⟩
  · rw [if_neg hempty] at hl
    have hfin := hs.recvFinish hempty
    rw [Option.some.inj hl] at hfin
    exact hfin

theorem urgent (hs : MbInv s) (m : M) (value : BitVec 32) : MbInv (mbUrgent s m value).2 ∧
    MbStepped s (mbUrgent s m value).2 m (.urgent value) (mbUrgent s m value).1 := by
  unfold mbUrgent
  split_ifs with hfull
  · exact ⟨hs, .same rfl (.inr ⟨_, rfl, fun _ => hfull⟩)⟩
  · have hm := hs.well m
    have hlt : (s.data m).entry < (s.data m).size := by
      have := hm.entry
      omega
    obtain ⟨hwell, hcont⟩ := hm.rewind hlt value
    obtain ⟨h1, h2⟩ := (hs.set hwell).wake (.receivers m)
    refine ⟨h1, .set h2 rfl ⟨?_, hcont⟩⟩
    rw [MbWell.length_contents]
    exact hlt

/-- **A woken sender or receiver.** -/
theorem resume (hs : MbInv s) (hc : s.caller = some c) (hr : mbResume s c = some (r, s')) :
    MbInv s' ∧ MbStepped s s' (s.locals c).mb (s.locals c).op r := by
  obtain ⟨-, -, hin⟩ := CallState.caller_iff.mp hc
  have hself := hs.calls.self_leave hc
  have hleave := hs.leave hc
  have hthread : ∀ c', some c = some c' → (s.leave c).self = some c' := fun _ e => by
    rw [← Option.some.inj e]; exact hself
  unfold mbResume at hr
  split_ifs at hr with herr
  · cases hr
    exact ⟨hleave, .same rfl (.inr ⟨_, rfl, fun h => absurd h (hs.error c hin)⟩)⟩
  · cases hop : (s.locals c).op with
    | send value =>
      simp only [hop] at hr
      obtain ⟨h1, h2⟩ := hleave.sendLoop hthread hr
      exact ⟨h1, h2.deque, h2.size, h2.frame⟩
    | recv =>
      simp only [hop] at hr
      obtain ⟨h1, h2⟩ := hleave.recvLoop hthread hr
      exact ⟨h1, h2.deque, h2.size, h2.frame⟩
    | urgent value =>
      simp only [hop] at hr
      cases hr

end MbInv

end RtThread
