import RtThread.Lib.Ring
import RtThread.Rtlink.Frame

/-!
# The receive buffer of rt-link

`rt_link_receive_buffer`: a ring with a read and a write pointer that are equal when it is empty.

* `RxBuffer`, `recvLen`, `bufferWrite`, `pointShift`, `hwCopy`, `getCrc`: `rtlink_hw.c`, with offsets for
  pointers;
* `RxBuffer.Holds`: the bytes between the pointers;
* **`Holds.write`**, **`Holds.shift`**, **`Holds.copy`**, **`Holds.crc`**: the functions on these bytes.
-/

namespace RtThread

/-- `struct rt_link_receive_buffer`; `end_point` is `rtlinkReceiveBufferLength`. -/
structure RxBuffer where
  data : ℕ → UInt8
  readPoint : ℕ
  writePoint : ℕ

namespace RxBuffer

variable (b : RxBuffer)

/-- `rt_link_hw_recv_len`. -/
def recvLen : ℕ :=
  if b.readPoint ≤ b.writePoint then b.writePoint - b.readPoint
  else rtlinkReceiveBufferLength - (b.readPoint - b.writePoint)

/-- `rt_link_hw_buffer_write`. -/
def bufferWrite (data : List UInt8) : RxBuffer :=
  if b.readPoint ≤ b.writePoint then
    let w2end := rtlinkReceiveBufferLength - b.writePoint
    let surplus := rtlinkReceiveBufferLength - (b.writePoint - b.readPoint)
    let data := data.take surplus
    if w2end ≤ data.length then
      { b with
        data := blit (blit b.data b.writePoint (data.take w2end)) 0 (data.drop w2end)
        writePoint := data.length - w2end }
    else { b with data := blit b.data b.writePoint data, writePoint := b.writePoint + data.length }
  else
    let surplus := b.readPoint - b.writePoint
    let data := data.take surplus
    { b with data := blit b.data b.writePoint data, writePoint := b.writePoint + data.length }

/-- `rt_link_hw_buffer_point_shift`. -/
def pointShift (pointer length : ℕ) : ℕ :=
  let pointer := pointer + length
  if b.readPoint ≤ b.writePoint then
    if b.writePoint ≤ pointer then b.writePoint else pointer
  else if rtlinkReceiveBufferLength ≤ pointer then
    let pointer := pointer - rtlinkReceiveBufferLength
    if b.writePoint ≤ pointer then b.writePoint else pointer
  else pointer

/-- The bytes of memory from an offset on. -/
def mem (offset count : ℕ) : List UInt8 := (List.range count).map fun i => b.data (offset + i)

/-- `rt_link_hw_copy`. -/
def hwCopy (src count : ℕ) : List UInt8 :=
  let pointer := src + count
  if rtlinkReceiveBufferLength ≤ pointer then
    b.mem src (rtlinkReceiveBufferLength - src) ++ b.mem 0 (pointer - rtlinkReceiveBufferLength)
  else b.mem src count

/-- `rt_link_get_crc` of bytes in the ring. -/
def getCrc (data size : ℕ) : UInt32 :=
  let surplus := rtlinkReceiveBufferLength - data
  (if size ≤ surplus then sfCrc32 0xffffffff (b.mem data size)
    else sfCrc32 (sfCrc32 0xffffffff (b.mem data surplus)) (b.mem 0 (size - surplus))) ^^^ 0xffffffff

/-- `*rx_buffer->read_point`. -/
def peek : UInt8 := b.data b.readPoint

/-- **The unread bytes**, fewer than the buffer has space for. -/
structure Holds (q : List UInt8) : Prop where
  read : b.readPoint < rtlinkReceiveBufferLength
  length : q.length < rtlinkReceiveBufferLength
  write : b.writePoint = ringIndex rtlinkReceiveBufferLength b.readPoint q.length
  bytes : window rtlinkReceiveBufferLength b.data b.readPoint q.length = q

variable {b} {p q : List UInt8} {i k : ℕ}

theorem mem_eq_window (h : i + k ≤ rtlinkReceiveBufferLength) :
    b.mem i k = window rtlinkReceiveBufferLength b.data i k := by
  refine List.map_congr_left fun j hj => ?_
  rw [ringIndex, if_pos (by rw [List.mem_range] at hj; omega)]

/-- A copy in two pieces. -/
theorem mem_append_mem (hi : i < rtlinkReceiveBufferLength) (hk : k ≤ rtlinkReceiveBufferLength)
    (h : rtlinkReceiveBufferLength ≤ i + k) :
    b.mem i (rtlinkReceiveBufferLength - i) ++ b.mem 0 (i + k - rtlinkReceiveBufferLength) =
      window rtlinkReceiveBufferLength b.data i k := by
  have hsplit : k = (rtlinkReceiveBufferLength - i) + (i + k - rtlinkReceiveBufferLength) := by omega
  have hwrap : ringIndex rtlinkReceiveBufferLength i (rtlinkReceiveBufferLength - i) = 0 := by
    rw [ringIndex, if_neg (by omega)]
    omega
  rw [mem_eq_window (by omega), mem_eq_window (by omega)]
  conv_rhs => rw [hsplit]
  rw [window_append hi (by omega), hwrap]

theorem hwCopy_eq (hi : i < rtlinkReceiveBufferLength) (hk : k ≤ rtlinkReceiveBufferLength) :
    b.hwCopy i k = window rtlinkReceiveBufferLength b.data i k := by
  unfold hwCopy
  dsimp only
  by_cases h : rtlinkReceiveBufferLength ≤ i + k
  · rw [if_pos h, mem_append_mem hi hk h]
  · rw [if_neg h, mem_eq_window (by omega)]

theorem getCrc_eq (hi : i < rtlinkReceiveBufferLength) (hk : k ≤ rtlinkReceiveBufferLength) :
    b.getCrc i k = rtlinkCrc (window rtlinkReceiveBufferLength b.data i k) := by
  unfold getCrc rtlinkCrc
  dsimp only
  by_cases h : k ≤ rtlinkReceiveBufferLength - i
  · rw [if_pos h, mem_eq_window (by omega)]
  · rw [if_neg h, ← mem_append_mem hi hk (by omega)]
    unfold sfCrc32
    rw [List.foldl_append, show k - (rtlinkReceiveBufferLength - i) = i + k - rtlinkReceiveBufferLength by omega]

namespace Holds

variable (h : b.Holds q)

include h

theorem ringIndex_lt_of_le (hk : k ≤ q.length) :
    ringIndex rtlinkReceiveBufferLength b.readPoint k < rtlinkReceiveBufferLength :=
  ringIndex_lt h.read (by have := h.length; omega)

theorem recvLen_eq : b.recvLen = q.length := by
  have hread := h.read
  have hlen := h.length
  unfold recvLen
  rw [h.write, ringIndex]
  split_ifs <;> omega

/-- **The pointer to an unread byte moves on.** -/
theorem shift (hik : i + k ≤ q.length) :
    b.pointShift (ringIndex rtlinkReceiveBufferLength b.readPoint i) k =
      ringIndex rtlinkReceiveBufferLength b.readPoint (i + k) := by
  have hread := h.read
  have hlen := h.length
  unfold pointShift
  rw [h.write]
  dsimp only
  unfold ringIndex
  split_ifs <;> omega

/-- **Unread bytes are copied.** -/
theorem copy (hik : i + k ≤ q.length) :
    b.hwCopy (ringIndex rtlinkReceiveBufferLength b.readPoint i) k = (q.drop i).take k := by
  have hlen := h.length
  rw [hwCopy_eq (h.ringIndex_lt_of_le (by omega)) (by omega)]
  conv_rhs => rw [← h.bytes]
  rw [window_drop h.read (by omega) (by omega), window_take (by omega)]

theorem crc (hk : k ≤ q.length) : b.getCrc b.readPoint k = rtlinkCrc (q.take k) := by
  have hlen := h.length
  rw [getCrc_eq h.read (by omega)]
  conv_rhs => rw [← h.bytes]
  rw [window_take hk]

theorem peek_eq {a : UInt8} {l : List UInt8} (hq : q = a :: l) : b.peek = a := by
  have hbytes := h.bytes
  have hlen := h.length
  rw [hq, List.length_cons] at hlen
  rw [hq, List.length_cons, Nat.add_comm, window_append h.read (by omega), window_one h.read] at hbytes
  exact (List.cons.inj hbytes).1

/-- **Bytes are taken off.** -/
theorem drop (hk : k ≤ q.length) :
    ({ b with readPoint := ringIndex rtlinkReceiveBufferLength b.readPoint k } : RxBuffer).Holds
      (q.drop k) := by
  have hlen := h.length
  refine ⟨h.ringIndex_lt_of_le hk, ?_, ?_, ?_⟩
  · rw [List.length_drop]
    omega
  · show b.writePoint = _
    rw [h.write, List.length_drop, ringIndex_add h.read (by omega), Nat.add_sub_cancel' hk]
  · conv_rhs => rw [← h.bytes]
    rw [window_drop h.read hk (by omega), List.length_drop]

/-- **Bytes are put in.** -/
theorem put (hp : q.length + p.length < rtlinkReceiveBufferLength) : (b.bufferWrite p).Holds (q ++ p) := by
  have hread := h.read
  have hw : b.writePoint < rtlinkReceiveBufferLength := h.write ▸ h.ringIndex_lt_of_le (Nat.le_refl _)
  have hspace : p.length ≤ rtlinkReceiveBufferLength := by omega
  -- what is written, in one piece or in two
  obtain ⟨data, hb, hnew, hold⟩ : ∃ data, b.bufferWrite p =
      ⟨data, b.readPoint, ringIndex rtlinkReceiveBufferLength b.writePoint p.length⟩ ∧
      window rtlinkReceiveBufferLength data b.writePoint p.length = p ∧
      ∀ i, (∀ j < p.length, i ≠ ringIndex rtlinkReceiveBufferLength b.writePoint j) →
        i < rtlinkReceiveBufferLength → data i = b.data i := by
    have hwrite := h.write
    unfold bufferWrite
    unfold ringIndex at hwrite
    by_cases hlin : b.readPoint ≤ b.writePoint
    · rw [if_pos hlin]
      have htake : p.take (rtlinkReceiveBufferLength - (b.writePoint - b.readPoint)) = p := by
        refine List.take_of_length_le ?_
        split_ifs at hwrite <;> omega
      dsimp only
      rw [htake]
      by_cases hend : rtlinkReceiveBufferLength - b.writePoint ≤ p.length
      · rw [if_pos hend]
        refine ⟨_, ?_, window_blit_two hw hend hspace, fun i hi hin => blit_two_other hw hend hi hin⟩
        have hidx : ringIndex rtlinkReceiveBufferLength b.writePoint p.length =
            p.length - (rtlinkReceiveBufferLength - b.writePoint) := by
          rw [ringIndex, if_neg (by omega)]
          omega
        rw [hidx]
      · rw [if_neg hend]
        refine ⟨_, ?_, window_blit (by omega), fun i hi _ => blit_other (by omega) hi⟩
        have hidx : ringIndex rtlinkReceiveBufferLength b.writePoint p.length =
            b.writePoint + p.length := if_pos (by omega)
        rw [hidx]
    · rw [if_neg hlin]
      have htake : p.take (b.readPoint - b.writePoint) = p := by
        refine List.take_of_length_le ?_
        split_ifs at hwrite <;> omega
      dsimp only
      rw [htake]
      have hfit : b.writePoint + p.length < rtlinkReceiveBufferLength := by
        split_ifs at hwrite <;> omega
      refine ⟨_, ?_, window_blit (by omega), fun i hi _ => blit_other (by omega) hi⟩
      have hidx : ringIndex rtlinkReceiveBufferLength b.writePoint p.length =
          b.writePoint + p.length := if_pos hfit
      rw [hidx]
  rw [hb]
  refine ⟨hread, by rw [List.length_append]; exact hp, ?_, ?_⟩
  · show ringIndex _ b.writePoint p.length = _
    rw [h.write, ringIndex_add hread (by omega), List.length_append]
  · show window _ data b.readPoint (q ++ p).length = q ++ p
    rw [List.length_append, window_append hread (by omega), ← h.write, hnew]
    congr 1
    have hkeep : window rtlinkReceiveBufferLength data b.readPoint q.length =
        window rtlinkReceiveBufferLength b.data b.readPoint q.length := by
      refine window_blit_other hread (by omega : q.length + p.length ≤ _) fun i hi hin => ?_
      rw [← h.write] at hi
      exact hold i hi hin
    exact hkeep.trans h.bytes

end Holds

end RxBuffer

end RtThread
