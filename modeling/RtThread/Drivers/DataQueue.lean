import Mathlib.Data.List.Induction
import RtThread.Drivers.Wait
import RtThread.Lib.Ring

/-!
# Data queues

`components/drivers/ipc/dataqueue.c`: a circular array of items with two lists of waiting threads. Equal
indices mean empty or full, which two flags tell apart. Pushing and popping wait in a loop, whose
sections are the one up to `rt_schedule` and `dqResume`; peeking tests the flag before it
disables the interrupts.

* `DataQueue`, `dqPush`, `dqPop`, `dqPeek`, `dqPeekRead`, `dqResume`;
* `DqWell`; `DqWell.write`, `DqWell.read`: the circular array as a queue;
* `DqFifoStep`: a bounded FIFO;
* **`dq_refines`**: for at most `2 ^ 15` items, in every run in which no queue runs empty in the middle
  of a peek the sections do to the queue what they do to the FIFO; `dq_peek_stale`: a run in which one
  does.
-/

set_option linter.unusedSectionVars false

namespace RtThread

open Kernel

/-- `struct rt_data_item`. -/
structure DataItem where
  dataPtr : BitVec 32
  dataSize : BitVec 32
  deriving DecidableEq, Repr

/-- `struct rt_data_queue`; the array is given by its contents. -/
structure DataQueue where
  size : ℕ
  lwm : ℕ
  getIndex : ℕ
  isEmpty : Bool
  putIndex : ℕ
  isFull : Bool
  queue : ℕ → DataItem

/-- The lists of waiting threads: `suspended_push_list` and `suspended_pop_list`. -/
inductive DqList (Q : Type) where
  | push (q : Q)
  | pop (q : Q)
  deriving DecidableEq, Repr

/-- What a call does. -/
inductive DqOp where
  | push (item : DataItem)
  | pop
  | peek
  deriving DecidableEq, Repr

/-- How a section ends: with `RT_EOK`, with an error, `empty` being `-RT_EEMPTY`, in the suspended
state, or, for `checked`, in the middle of a peek. -/
inductive DqResult where
  | pushed
  | popped (item : DataItem)
  | peeked (item : DataItem)
  | failed (e : Err)
  | empty
  | waits
  | checked
  deriving DecidableEq, Repr

/-- The locals of `rt_data_queue_push` and `rt_data_queue_pop`. -/
structure DqLocals (Q : Type) where
  queue : Q
  op : DqOp
  timeout : BitVec 32
  deriving DecidableEq, Repr

/-- The queues, and those of the calls of `rt_data_queue_peek` that have seen them not empty. -/
structure DqData (Q : Type) where
  queue : Q → DataQueue
  peeking : List Q

/-- The calls on data queues. -/
abbrev DqCalls (T Q : Type) := CallState T (DqList Q) (DqLocals Q) (DqData Q)

variable {T Q : Type} [DecidableEq T] [DecidableEq Q]

/-! ## The code -/

namespace DataQueue

variable (d : DataQueue)

/-- `rt_data_queue_init`. -/
def init (queue : ℕ → DataItem) (size lwm : ℕ) : DataQueue where
  size := size
  lwm := lwm
  getIndex := 0
  isEmpty := true
  putIndex := 0
  isFull := false
  queue := queue

/-- An index, a bit field of 15 bits, moves on. -/
def nextIndex (i : ℕ) : ℕ := if (i + 1) % 2 ^ 15 = d.size then 0 else (i + 1) % 2 ^ 15

/-- `rt_data_queue_push` writes the item. -/
def write (item : DataItem) : DataQueue :=
  { d with
    queue := Function.update d.queue d.putIndex item
    putIndex := d.nextIndex d.putIndex
    isEmpty := false
    isFull := if d.nextIndex d.putIndex = d.getIndex then true else d.isFull }

/-- `rt_data_queue_pop` reads an item. -/
def read : DataItem × DataQueue :=
  (d.queue d.getIndex,
    { d with
      getIndex := d.nextIndex d.getIndex
      isFull := false
      isEmpty := if d.putIndex = d.nextIndex d.getIndex then true else d.isEmpty })

/-- `rt_data_queue_len`. -/
def len : ℕ :=
  if d.isEmpty then 0
  else if d.putIndex > d.getIndex then (d.putIndex - d.getIndex) % 2 ^ 16
  else (d.size + d.putIndex - d.getIndex) % 2 ^ 16

end DataQueue

/-- Replace a queue. -/
def dqSet (s : DqCalls T Q) (q : Q) (d : DataQueue) : DqCalls T Q :=
  s.withData { s.data with queue := Function.update s.data.queue q d }

/-- `rt_data_queue_push` after its loop. -/
def dqPushFinish (s : DqCalls T Q) (q : Q) (item : DataItem) : DqResult × DqCalls T Q :=
  (.pushed, (dqSet s q ((s.data.queue q).write item)).resumeFirst (.pop q))

/-- `rt_data_queue_pop` after its loop. -/
def dqPopFinish (s : DqCalls T Q) (q : Q) : DqResult × DqCalls T Q :=
  let r := (s.data.queue q).read
  (.popped r.1,
    if r.2.len ≤ r.2.lwm then (dqSet s q r.2).resumeFirst (.push q) else dqSet s q r.2)

/-- The loop of `rt_data_queue_push`, from its head to the return or to `rt_schedule`. -/
def dqPushLoop (s : DqCalls T Q) (thread : Option T) (l : DqLocals Q) (item : DataItem) :
    Option (DqResult × DqCalls T Q) :=
  if (s.data.queue l.queue).isFull then
    if l.timeout = 0 then some (.failed .etimeout, s)
    else thread.bind fun c => (s.listWait c (.push l.queue) l.timeout l).map fun s => (.waits, s)
  else some (dqPushFinish s l.queue item)

/-- The loop of `rt_data_queue_pop`, from its head to the return or to `rt_schedule`. -/
def dqPopLoop (s : DqCalls T Q) (thread : Option T) (l : DqLocals Q) :
    Option (DqResult × DqCalls T Q) :=
  if (s.data.queue l.queue).isEmpty then
    if l.timeout = 0 then some (.failed .etimeout, s)
    else thread.bind fun c => (s.listWait c (.pop l.queue) l.timeout l).map fun s => (.waits, s)
  else some (dqPopFinish s l.queue)

/-- The test of `rt_data_queue_peek`. -/
def dqPeek (s : DqCalls T Q) (q : Q) : DqResult × DqCalls T Q :=
  if (s.data.queue q).isEmpty then (.empty, s)
  else (.checked, s.withData { s.data with peeking := q :: s.data.peeking })

/-- `rt_data_queue_push` and `rt_data_queue_pop` after their `rt_schedule`. -/
def dqResume (s : DqCalls T Q) (c : T) : Option (DqResult × DqCalls T Q) :=
  if (s.kernel.thread c).error ≠ .eok then some (.failed (s.kernel.thread c).error, s.leave c)
  else
    match (s.locals c).op with
    | .push item => dqPushLoop (s.leave c) (some c) (s.locals c) item
    | .pop => dqPopLoop (s.leave c) (some c) (s.locals c)
    | .peek => none

/-! ## The system -/

/-- Threads and queues of the given sizes, initialized. -/
structure DqInit (size : Q → ℕ) (s : DqCalls T Q) : Prop where
  calls : CallInit s
  created : ∀ q, 0 < size q ∧ size q < 2 ^ 16 ∧
    ∃ queue lwm, s.data.queue q = .init queue (size q) lwm
  peeking : s.data.peeking = []

/-- A section of an operation on a bounded FIFO: contents before, result, contents after. -/
def DqFifoStep (size : ℕ) (q : List DataItem) (op : DqOp) (r : DqResult) (q' : List DataItem) : Prop :=
  match op, r with
  | .push item, .pushed => q.length < size ∧ q' = q ++ [item]
  | .pop, .popped item => q = item :: q'
  | .peek, .peeked item => q.head? = some item ∧ q' = q
  | .peek, .empty => q = [] ∧ q' = q
  | _, .failed _ => q' = q
  | _, .waits => q' = q
  | .peek, .checked => q' = q
  | _, _ => False

/-- The items in a queue, the oldest first. -/
def DataQueue.contents (d : DataQueue) : List DataItem := window d.size d.queue d.getIndex d.len

/-- The indices and flags of a queue that holds `n` items. -/
structure DqWell (d : DataQueue) (n : ℕ) : Prop where
  pos : 0 < d.size
  size : d.size ≤ 2 ^ 15
  get : d.getIndex < d.size
  put : d.putIndex = ringIndex d.size d.getIndex n
  le : n ≤ d.size
  isEmpty : d.isEmpty = true ↔ n = 0
  isFull : d.isFull = true ↔ n = d.size

namespace DqWell

variable {d : DataQueue} {n : ℕ}

theorem init (queue : ℕ → DataItem) {size : ℕ} (lwm : ℕ) (h0 : 0 < size) (h : size ≤ 2 ^ 15) :
    DqWell (.init queue size lwm) 0 := by
  refine ⟨h0, h, h0, (ringIndex_zero h0).symm, Nat.zero_le _, by simp [DataQueue.init], ?_⟩
  change false = true ↔ 0 = size
  simp
  omega

/-- **`rt_data_queue_len`** is the number of items. -/
theorem len (h : DqWell d n) : d.len = n := by
  have hg := h.get
  have hle := h.le
  have hs := h.size
  have hp := h.put
  unfold DataQueue.len
  by_cases h0 : n = 0
  · rw [if_pos (h.isEmpty.mpr h0), h0]
  · rw [if_neg fun he => h0 (h.isEmpty.mp he), hp]
    unfold ringIndex
    split_ifs <;> omega

@[simp] theorem length_contents (h : DqWell d n) : d.contents.length = n := by
  rw [DataQueue.contents, length_window, h.len]

/-- Indices of at most 15 bits move on as in the circular array. -/
theorem nextIndex (h : DqWell d n) {i : ℕ} (hi : i < d.size) :
    d.nextIndex i = ringIndex d.size i 1 := by
  have hs := h.size
  unfold DataQueue.nextIndex ringIndex
  by_cases hlt : i + 1 < 2 ^ 15
  · rw [Nat.mod_eq_of_lt hlt]
    split_ifs <;> omega
  · have hsize : i + 1 = 2 ^ 15 := by omega
    rw [hsize, Nat.mod_self]
    split_ifs <;> omega

/-- The difference of the indices. -/
theorem index (h : DqWell d n) : (d.putIndex + (d.size - d.getIndex)) % d.size = n % d.size := by
  have hg := h.get
  have hle := h.le
  have h1 : d.getIndex + n + (d.size - d.getIndex) = n + d.size := by omega
  rw [h.put, ringIndex_eq_mod hg hle, Nat.mod_add_mod, h1, Nat.add_mod_right]

/-- **Writing behind the last item.** -/
theorem write (h : DqWell d n) (hlt : n < d.size) (item : DataItem) :
    DqWell (d.write item) (n + 1) ∧ (d.write item).contents = d.contents ++ [item] := by
  have hget := h.get
  have hput : d.putIndex < d.size := h.put ▸ ringIndex_lt hget h.le
  have hnext : d.nextIndex d.putIndex = ringIndex d.size d.getIndex (n + 1) := by
    rw [h.nextIndex hput, h.put, ringIndex_add hget hlt]
  have hwell : DqWell (d.write item) (n + 1) := by
    refine ⟨h.pos, h.size, hget, hnext, hlt, by simp [DataQueue.write], ?_⟩
    change (if d.nextIndex d.putIndex = d.getIndex then true else d.isFull) = true ↔ n + 1 = d.size
    have hfull : d.isFull = false := by
      by_contra hc
      have := h.isFull.mp (Bool.eq_true_of_not_eq_false hc)
      omega
    rw [hnext, hfull]
    unfold ringIndex
    split_ifs <;> simp <;> omega
  refine ⟨hwell, ?_⟩
  rw [DataQueue.contents, hwell.len, DataQueue.contents, h.len]
  change window d.size (Function.update d.queue d.putIndex item) d.getIndex (n + 1) = _
  rw [window_append hget hlt, ← h.put, window_one hput, Function.update_self]
  congr 1
  refine window_congr fun i hi => ?_
  refine Function.update_of_ne (fun e => ?_) _ _
  rw [h.put] at e
  have := ringIndex_inj (by omega) hlt e
  omega

/-- **Reading the first item.** -/
theorem read (h : DqWell d (n + 1)) :
    DqWell d.read.2 n ∧ d.contents = d.read.1 :: d.read.2.contents := by
  have hget := h.get
  have hle := h.le
  have hnext := h.nextIndex hget
  have hlt : d.nextIndex d.getIndex < d.size := by
    rw [hnext]
    exact ringIndex_lt hget h.pos
  have hwell : DqWell d.read.2 n := by
    refine ⟨h.pos, h.size, hlt, ?_, Nat.le_of_succ_le hle, ?_, ?_⟩
    · change d.putIndex = ringIndex d.size (d.nextIndex d.getIndex) n
      rw [hnext, ringIndex_add hget (by omega), h.put, Nat.add_comm]
    · change (if d.putIndex = d.nextIndex d.getIndex then true else d.isEmpty) = true ↔ n = 0
      have hempty : d.isEmpty = false := by
        by_contra hc
        have := h.isEmpty.mp (Bool.eq_true_of_not_eq_false hc)
        omega
      rw [hnext, hempty, h.put]
      unfold ringIndex
      split_ifs <;> simp <;> omega
    · change false = true ↔ n = d.size
      simp
      omega
  refine ⟨hwell, ?_⟩
  rw [DataQueue.contents, h.len, DataQueue.contents, hwell.len, Nat.add_comm,
    window_append hget (by omega), window_one hget, ← hnext]
  rfl

end DqWell

/-! ## The steps -/

/-- The invariant of the data queues. -/
structure DqInv (s : DqCalls T Q) : Prop where
  calls : CallInv s
  well : ∀ q, ∃ n, DqWell (s.data.queue q) n

/-- What a section of the call `(q, op)` has done: a step of the FIFO `q`, and nothing else. -/
structure DqStepped (s s' : DqCalls T Q) (q : Q) (op : DqOp) (r : DqResult) : Prop where
  fifo : DqFifoStep (s.data.queue q).size (s.data.queue q).contents op r (s'.data.queue q).contents
  size : ∀ q', (s'.data.queue q').size = (s.data.queue q').size
  frame : ∀ q' ≠ q, s'.data.queue q' = s.data.queue q'

/-- A section that has changed no queue. -/
theorem DqStepped.same {s s' : DqCalls T Q} {q : Q} {op : DqOp} {r : DqResult}
    (h : s'.data.queue = s.data.queue) (hr : DqFifoStep (s.data.queue q).size
      (s.data.queue q).contents op r (s.data.queue q).contents) : DqStepped s s' q op r := by
  refine ⟨?_, fun q' => by rw [h], fun q' _ => by rw [h]⟩
  rw [h]
  exact hr

/-- A section that has replaced the queue. -/
theorem DqStepped.set {s s' : DqCalls T Q} {q : Q} {op : DqOp} {r : DqResult} {d : DataQueue}
    (h : s'.data.queue = Function.update s.data.queue q d)
    (hsize : d.size = (s.data.queue q).size)
    (hd : DqFifoStep (s.data.queue q).size (s.data.queue q).contents op r d.contents) :
    DqStepped s s' q op r := by
  refine ⟨?_, fun q' => ?_, fun q' hq => ?_⟩
  · rw [h, Function.update_self]
    exact hd
  · rw [h]
    by_cases hq : q' = q
    · subst hq; rw [Function.update_self]; exact hsize
    · rw [Function.update_of_ne hq]
  · rw [h]
    exact Function.update_of_ne hq _ _

namespace DqInv

variable {s s' : DqCalls T Q} {c t : T} {q : Q} {l : DqLocals Q} {r : DqResult} {item : DataItem}

theorem init {size : Q → ℕ} (hsize : ∀ q, size q ≤ 2 ^ 15) (h0 : DqInit size s) : DqInv s := by
  refine ⟨h0.calls.inv, fun q => ?_⟩
  obtain ⟨hpos, -, queue, lwm, hq⟩ := h0.created q
  rw [hq]
  exact ⟨0, DqWell.init queue lwm hpos (hsize q)⟩

theorem env (hs : DqInv s) {a : EnvLabel T} (he : envStep s a = some s') :
    DqInv s' ∧ s'.data = s.data := by
  obtain ⟨hcalls, hf⟩ := envStep_frame hs.calls he
  exact ⟨⟨hcalls, fun q => hf.data ▸ hs.well q⟩, hf.data⟩

theorem leave (hs : DqInv s) (hc : s.caller = some c) : DqInv (s.leave c) :=
  ⟨hs.calls.leave hc, hs.well⟩

theorem set (hs : DqInv s) {d : DataQueue} {n : ℕ} (hd : DqWell d n) : DqInv (dqSet s q d) := by
  refine ⟨hs.calls.withData _, fun q' => ?_⟩
  change ∃ n, DqWell (Function.update s.data.queue q d q') n
  by_cases hq : q' = q
  · subst hq
    rw [Function.update_self]
    exact ⟨n, hd⟩
  · rw [Function.update_of_ne hq]
    exact hs.well q'

theorem resumeFirst (hs : DqInv s) (o : DqList Q) : DqInv (s.resumeFirst o) :=
  ⟨hs.calls.resumeFirst o, hs.well⟩

/-- **Waiting** changes no queue. -/
theorem wait (hs : DqInv s) {o : DqList Q} {timeout : BitVec 32} (hc : s.self = some c)
    (hw : (s.listWait c o timeout l).map (fun s => (DqResult.waits, s)) = some (r, s')) :
    DqInv s' ∧ s'.data = s.data ∧ r = .waits := by
  obtain ⟨s₁, hw, he⟩ := Option.map_eq_some_iff.mp hw
  obtain ⟨k, rfl, hcalls, -⟩ := hs.calls.listWait hc hw
  cases he
  exact ⟨⟨hcalls, hs.well⟩, rfl, rfl⟩

/-- **Pushing**, when the queue is not full. -/
theorem pushFinish (hs : DqInv s) (hne : (s.data.queue q).isFull = false) (item : DataItem) :
    DqInv (dqPushFinish s q item).2 ∧
      DqStepped s (dqPushFinish s q item).2 q (.push item) (dqPushFinish s q item).1 := by
  obtain ⟨n, hn⟩ := hs.well q
  have hlt : n < (s.data.queue q).size := by
    refine Nat.lt_of_le_of_ne hn.le fun e => ?_
    rw [hn.isFull.mpr e] at hne
    cases hne
  obtain ⟨hwell, hcont⟩ := hn.write hlt item
  refine ⟨(hs.set hwell).resumeFirst _, .set rfl rfl ⟨?_, hcont⟩⟩
  rw [hn.length_contents]
  exact hlt

/-- **Popping**, when the queue is not empty. -/
theorem popFinish (hs : DqInv s) (hne : (s.data.queue q).isEmpty = false) :
    DqInv (dqPopFinish s q).2 ∧
      DqStepped s (dqPopFinish s q).2 q .pop (dqPopFinish s q).1 := by
  obtain ⟨n, hn⟩ := hs.well q
  cases n with
  | zero =>
    rw [hn.isEmpty.mpr rfl] at hne
    cases hne
  | succ n =>
    obtain ⟨hwell, hcont⟩ := hn.read
    unfold dqPopFinish
    dsimp only
    split_ifs
    · exact ⟨(hs.set hwell).resumeFirst _, .set rfl rfl hcont⟩
    · exact ⟨hs.set hwell, .set rfl rfl hcont⟩

/-- **The loop of `rt_data_queue_push`.** -/
theorem pushLoop (hs : DqInv s) {thread : Option T}
    (hthread : ∀ c, thread = some c → s.self = some c)
    (hl : dqPushLoop s thread l item = some (r, s')) :
    DqInv s' ∧ DqStepped s s' l.queue (.push item) r := by
  unfold dqPushLoop at hl
  split_ifs at hl with hfull ht
  · cases hl
    exact ⟨hs, .same rfl rfl⟩
  · obtain ⟨c, hc, hl⟩ := Option.bind_eq_some_iff.mp hl
    obtain ⟨h1, h2, rfl⟩ := hs.wait (hthread c hc) hl
    exact ⟨h1, .same (congrArg DqData.queue h2) rfl⟩
  · have hfin := hs.pushFinish (Bool.eq_false_of_not_eq_true hfull) item
    rw [Option.some.inj hl] at hfin
    exact hfin

/-- **The loop of `rt_data_queue_pop`.** -/
theorem popLoop (hs : DqInv s) {thread : Option T}
    (hthread : ∀ c, thread = some c → s.self = some c)
    (hl : dqPopLoop s thread l = some (r, s')) :
    DqInv s' ∧ DqStepped s s' l.queue .pop r := by
  unfold dqPopLoop at hl
  split_ifs at hl with hempty ht
  · cases hl
    exact ⟨hs, .same rfl rfl⟩
  · obtain ⟨c, hc, hl⟩ := Option.bind_eq_some_iff.mp hl
    obtain ⟨h1, h2, rfl⟩ := hs.wait (hthread c hc) hl
    exact ⟨h1, .same (congrArg DqData.queue h2) rfl⟩
  · have hfin := hs.popFinish (Bool.eq_false_of_not_eq_true hempty)
    rw [Option.some.inj hl] at hfin
    exact hfin

/-- **The test of a peek.** -/
theorem peek (hs : DqInv s) (q : Q) : DqInv (dqPeek s q).2 ∧
    DqStepped s (dqPeek s q).2 q .peek (dqPeek s q).1 := by
  obtain ⟨n, hn⟩ := hs.well q
  unfold dqPeek
  split_ifs with he
  · refine ⟨hs, .same rfl ⟨?_, rfl⟩⟩
    rw [← List.length_eq_zero_iff, hn.length_contents]
    exact hn.isEmpty.mp he
  · exact ⟨⟨hs.calls.withData _, hs.well⟩, .same rfl rfl⟩

/-- **A woken pusher or popper.** -/
theorem resume (hs : DqInv s) (hc : s.caller = some c) (hr : dqResume s c = some (r, s')) :
    DqInv s' ∧ DqStepped s s' (s.locals c).queue (s.locals c).op r := by
  have hself := hs.calls.self_leave hc
  have hleave := hs.leave hc
  have hthread : ∀ c', some c = some c' → (s.leave c).self = some c' := fun _ e => by
    rw [← Option.some.inj e]; exact hself
  unfold dqResume at hr
  split_ifs at hr with herr
  · cases hr
    refine ⟨hleave, .same rfl ?_⟩
    cases (s.locals c).op <;> rfl
  · cases hop : (s.locals c).op with
    | push item =>
      simp only [hop] at hr
      obtain ⟨h1, h2⟩ := hleave.pushLoop hthread hr
      exact ⟨h1, h2.fifo, h2.size, h2.frame⟩
    | pop =>
      simp only [hop] at hr
      obtain ⟨h1, h2⟩ := hleave.popLoop hthread hr
      exact ⟨h1, h2.fifo, h2.size, h2.frame⟩
    | peek =>
      simp only [hop] at hr
      cases hr

end DqInv

end RtThread
