import RtThread.Lib.System
import RtThread.Rtlink.Framing

/-!
# The receive buffer of rt-link as a queue

`rtlink_hw.c`: the state is two pointers, which are equal when the buffer is empty and when it is full.

* `writeCount`, `writeSpans`, `copySpans`: what `rt_link_hw_buffer_write` returns, and the blocks that the
  functions access;
* `RxQueue`, `RxQueueCall`, `rxQueueSystem`: the calls, beside the bytes stored and not yet shifted over;
* `RxRight`: the buffer is a queue of these bytes;
* `Holds.full`: **a write that fills the buffer** leaves it empty;
* **`rtlink_fifo`**: the buffer is a queue in every run that leaves a byte free, and only then;
  `rtlink_fifo_full`: a write that does not.
-/

namespace RtThread

namespace RxBuffer

variable (b : RxBuffer)

/-- `surplus` in `rt_link_hw_buffer_write`. -/
def surplus : ℕ :=
  if b.readPoint ≤ b.writePoint then rtlinkReceiveBufferLength - (b.writePoint - b.readPoint)
  else b.readPoint - b.writePoint

/-- What `rt_link_hw_buffer_write` returns. -/
def writeCount (count : ℕ) : ℕ := if b.surplus < count then b.surplus else count

/-- The blocks that `rt_link_hw_buffer_write` writes, with their lengths. -/
def writeSpans (count : ℕ) : List (ℕ × ℕ) :=
  let count := b.writeCount count
  if b.readPoint ≤ b.writePoint then
    let w2end := rtlinkReceiveBufferLength - b.writePoint
    if w2end ≤ count then [(b.writePoint, w2end), (0, count - w2end)] else [(b.writePoint, count)]
  else [(b.writePoint, count)]

/-- The blocks that `rt_link_hw_copy` reads. -/
def copySpans (src count : ℕ) : List (ℕ × ℕ) :=
  if rtlinkReceiveBufferLength ≤ src + count then
    [(src, rtlinkReceiveBufferLength - src), (0, src + count - rtlinkReceiveBufferLength)]
  else [(src, count)]

end RxBuffer

/-- The buffer, and the bytes that are stored and not yet shifted over. -/
structure RxQueue where
  buf : RxBuffer
  stored : List UInt8

/-- A call of `rt_link_hw_buffer_write`, of `rt_link_hw_copy` from `read_point`, or of
`rt_link_hw_buffer_point_shift` on `read_point`. -/
inductive RxQueueCall where
  | write (data : List UInt8)
  | copy (count : ℕ)
  | shift (length : ℕ)

/-- The calls; what is copied or shifted over has been received. -/
def RxQueue.call (s : RxQueue) : RxQueueCall → Option RxQueue
  | .write data => some
      { buf := s.buf.bufferWrite data
        stored := s.stored ++ data.take (s.buf.writeCount data.length) }
  | .copy count => if count ≤ s.buf.recvLen then some s else none
  | .shift length =>
    if length ≤ s.buf.recvLen then some
      { buf := { s.buf with readPoint := s.buf.pointShift s.buf.readPoint length }
        stored := s.stored.drop length }
    else none

/-- The runs after `rt_link_hw_buffer_init`. -/
def rxQueueSystem : System RxQueue RxQueueCall where
  init s := s = ⟨emptyBuffer 0, []⟩
  step s a := s.call a

/-- **The condition** on a write: it leaves a byte free. -/
def leavesRoom (s : RxQueue) : RxQueueCall → Bool
  | .write data => decide (s.buf.recvLen + data.length < rtlinkReceiveBufferLength)
  | _ => true

/-- **The buffer is a queue** of the bytes stored, and no access leaves the array. -/
structure RxRight (s : RxQueue) : Prop where
  read : s.buf.readPoint < rtlinkReceiveBufferLength
  recvLen : s.buf.recvLen = s.stored.length
  copy : ∀ count ≤ s.buf.recvLen, s.buf.hwCopy s.buf.readPoint count = s.stored.take count
  writes : ∀ count, ∀ p ∈ s.buf.writeSpans count, p.1 + p.2 ≤ rtlinkReceiveBufferLength
  reads : ∀ count ≤ s.buf.recvLen, ∀ p ∈ RxBuffer.copySpans s.buf.readPoint count,
    p.1 + p.2 ≤ rtlinkReceiveBufferLength

namespace RxBuffer.Holds

variable {b : RxBuffer} {p q : List UInt8} (h : b.Holds q)

include h

theorem surplus_eq : b.surplus = rtlinkReceiveBufferLength - q.length := by
  have hread := h.read
  have hlen := h.length
  unfold surplus
  rw [h.write, ringIndex]
  split_ifs <;> omega

theorem writeCount_le (count : ℕ) : b.writeCount count ≤ rtlinkReceiveBufferLength - q.length := by
  unfold writeCount
  rw [h.surplus_eq]
  split_ifs <;> omega

theorem writeCount_eq {count : ℕ} (hcount : q.length + count < rtlinkReceiveBufferLength) :
    b.writeCount count = count := by
  unfold writeCount
  rw [h.surplus_eq, if_neg (by omega)]

/-- The bytes of a linear buffer lie between the pointers, those of a wrapped one around them. -/
theorem length_cases :
    if b.readPoint ≤ b.writePoint then
      b.writePoint < rtlinkReceiveBufferLength ∧ b.readPoint + q.length = b.writePoint
    else b.readPoint + q.length = rtlinkReceiveBufferLength + b.writePoint := by
  have hread := h.read
  have hlen := h.length
  rw [h.write, ringIndex]
  split_ifs <;> omega

/-- What is written fits behind the write pointer, or in front of the read pointer. -/
theorem writeSpans_inside (count : ℕ) :
    ∀ p ∈ b.writeSpans count, p.1 + p.2 ≤ rtlinkReceiveBufferLength := by
  have hread := h.read
  have hcount := h.writeCount_le count
  have hcases := h.length_cases
  unfold writeSpans
  dsimp only
  by_cases hlin : b.readPoint ≤ b.writePoint
  · rw [if_pos hlin] at hcases ⊢
    by_cases hend : rtlinkReceiveBufferLength - b.writePoint ≤ b.writeCount count
    · rw [if_pos hend]
      simp only [List.forall_mem_cons]
      refine ⟨by omega, by omega, nofun⟩
    · rw [if_neg hend]
      simp only [List.forall_mem_cons]
      refine ⟨by omega, nofun⟩
  · rw [if_neg hlin] at hcases ⊢
    simp only [List.forall_mem_cons]
    refine ⟨by omega, nofun⟩

theorem copySpans_inside {count : ℕ} (hcount : count ≤ q.length) :
    ∀ p ∈ RxBuffer.copySpans b.readPoint count, p.1 + p.2 ≤ rtlinkReceiveBufferLength := by
  have hread := h.read
  have hlen := h.length
  unfold copySpans
  split_ifs with hend
  · simp only [List.forall_mem_cons]
    refine ⟨by omega, by omega, nofun⟩
  · simp only [List.forall_mem_cons]
    refine ⟨by omega, nofun⟩

/-- **The buffer is a queue of the bytes it holds.** -/
theorem right : RxRight ⟨b, q⟩ where
  read := h.read
  recvLen := h.recvLen_eq
  copy count hcount := by
    have hle : count ≤ q.length := h.recvLen_eq ▸ hcount
    have hcopy := h.copy (i := 0) (k := count) (by omega)
    rw [ringIndex_zero h.read, List.drop_zero] at hcopy
    exact hcopy
  writes := h.writeSpans_inside
  reads count hcount := h.copySpans_inside (h.recvLen_eq ▸ hcount)

/-- **A write that fills the buffer** leaves it as when it is empty. -/
theorem full (hp : rtlinkReceiveBufferLength ≤ q.length + p.length) : (b.bufferWrite p).recvLen = 0 := by
  have hread := h.read
  have hlen := h.length
  have hcases := h.length_cases
  have hpoint : (b.bufferWrite p).writePoint = b.readPoint := by
    unfold bufferWrite
    by_cases hlin : b.readPoint ≤ b.writePoint
    · rw [if_pos hlin] at hcases ⊢
      have htake : (p.take (rtlinkReceiveBufferLength - (b.writePoint - b.readPoint))).length =
          rtlinkReceiveBufferLength - (b.writePoint - b.readPoint) := by
        rw [List.length_take]
        omega
      dsimp only
      rw [htake, if_pos (by omega)]
      show _ - _ = b.readPoint
      omega
    · rw [if_neg hlin] at hcases ⊢
      show b.writePoint + (p.take (b.readPoint - b.writePoint)).length = b.readPoint
      rw [List.length_take]
      omega
  unfold recvLen
  rw [hpoint, FrameCheck.readPoint_bufferWrite, if_pos (Nat.le_refl _), Nat.sub_self]

end RxBuffer.Holds

/-- Whatever the caller shifts over has been stored. -/
theorem RxQueue.holds_call {s s' : RxQueue} {a : RxQueueCall} (h : s.buf.Holds s.stored)
    (hok : leavesRoom s a = true) (hcall : s.call a = some s') : s'.buf.Holds s'.stored := by
  have hlen := h.recvLen_eq
  cases a with
  | write data =>
    cases hcall
    have hroom : s.stored.length + data.length < rtlinkReceiveBufferLength := by
      rw [← hlen]
      exact of_decide_eq_true hok
    show (s.buf.bufferWrite data).Holds (s.stored ++ data.take (s.buf.writeCount data.length))
    rw [h.writeCount_eq hroom, List.take_length]
    exact h.put hroom
  | copy count =>
    obtain ⟨-, ⟨⟩⟩ := Option.ite_none_right_eq_some.mp hcall
    exact h
  | shift length =>
    obtain ⟨hle, ⟨⟩⟩ := Option.ite_none_right_eq_some.mp hcall
    have hle' : length ≤ s.stored.length := hlen ▸ hle
    have hshift := h.shift (i := 0) (k := length) (by omega)
    rw [ringIndex_zero h.read, Nat.zero_add] at hshift
    show ({ s.buf with readPoint := s.buf.pointShift s.buf.readPoint length } : RxBuffer).Holds _
    rw [hshift]
    exact h.drop hle'

theorem rxQueue_holds {s : RxQueue} (h : rxQueueSystem.Reach leavesRoom s) : s.buf.Holds s.stored := by
  refine h.invariant (fun s hs => ?_) fun s a s' hs hok hcall => RxQueue.holds_call hs hok hcall
  rw [show s = ⟨emptyBuffer 0, []⟩ from hs]
  exact emptyBuffer_holds (by decide)

/-- **The receive buffer is a queue** in every run whose writes leave a byte free; and the next write keeps
it one exactly when it leaves a byte free, too. -/
theorem rtlink_fifo {s : RxQueue} (h : rxQueueSystem.Reach leavesRoom s) :
    RxRight s ∧ ∀ data s', s.call (.write data) = some s' →
      (RxRight s' ↔ leavesRoom s (.write data) = true) := by
  have hs := rxQueue_holds h
  refine ⟨hs.right, fun data s' hcall => ⟨fun hright => ?_, fun hok => ?_⟩⟩
  · cases hcall
    by_contra hno
    have hlarge : rtlinkReceiveBufferLength ≤ s.stored.length + data.length := by
      rw [← hs.recvLen_eq]
      exact Nat.le_of_not_lt fun hlt => hno (decide_eq_true hlt)
    have hlen := hright.recvLen
    have hempty : (s.buf.bufferWrite data).recvLen = 0 := hs.full hlarge
    have hcount : s.buf.writeCount data.length = rtlinkReceiveBufferLength - s.stored.length := by
      unfold RxBuffer.writeCount
      rw [hs.surplus_eq]
      split_ifs <;> omega
    have hheld := hs.length
    rw [hempty, List.length_append, List.length_take, hcount] at hlen
    omega
  · exact (RxQueue.holds_call hs hok hcall).right

/-- After a write. -/
theorem rtlink_fifo_one : RxRight ⟨(emptyBuffer 0).bufferWrite [7], [7]⟩ := by
  have hinit : rxQueueSystem.Reach leavesRoom ⟨emptyBuffer 0, []⟩ := .init rfl
  exact ((rtlink_fifo hinit).2 [7] _ rfl).mpr (by decide)

/-- **A write of as many bytes as the buffer has** leaves an empty one. -/
theorem rtlink_fifo_full : ¬ ∀ s, rxQueueSystem.Reach System.anyStep s → RxRight s := by
  intro h
  obtain ⟨data, hdata⟩ : ∃ data : List UInt8, data.length = rtlinkReceiveBufferLength :=
    ⟨List.replicate _ 7, List.length_replicate⟩
  have hinit : rxQueueSystem.Reach System.anyStep ⟨emptyBuffer 0, []⟩ := .init rfl
  have hholds : (emptyBuffer 0).Holds [] := emptyBuffer_holds (by decide)
  have hlen := (h _ (hinit.step (a := .write data) rfl rfl)).recvLen
  have hempty : ((emptyBuffer 0).bufferWrite data).recvLen = 0 :=
    hholds.full (by rw [List.length_nil, Nat.zero_add, hdata])
  have hcount : (emptyBuffer 0).writeCount data.length = rtlinkReceiveBufferLength := by
    unfold RxBuffer.writeCount
    rw [hholds.surplus_eq, hdata]
    exact if_neg (Nat.lt_irrefl _)
  dsimp only at hlen
  rw [hempty, hcount, List.nil_append, List.length_take, hdata] at hlen
  exact absurd hlen (by decide)

end RtThread
