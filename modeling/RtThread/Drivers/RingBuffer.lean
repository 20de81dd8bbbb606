import RtThread.Kernel.Align
import RtThread.Lib.Ring
import RtThread.Lib.System

/-!
# The ring buffer of the device drivers

`components/drivers/ipc/ringbuffer.c`. Each index has a mirror bit that is flipped whenever the index
wraps, so that equal indices mean empty in one mirror and full in different ones.

* `RingBuffer` and its operations;
* `Holds rb len`: the indices and mirrors stand for `len` bytes; `copyIn_holds`, `skip_holds`,
  `putForce_holds`: what writing, reading and overwriting do to it;
* `FifoStep`: a bounded FIFO of bytes;
* **`ringBuffer_refines`**: in every run the ring buffer is that FIFO.
-/

namespace RtThread

/-- `struct rt_ringbuffer`; the pool is given by its contents. -/
structure RingBuffer where
  bufferPtr : ℕ → UInt8
  readMirror : Bool
  readIndex : ℕ
  writeMirror : Bool
  writeIndex : ℕ
  bufferSize : ℕ

/-- `enum rt_ringbuffer_state`. -/
inductive RingbufferState where
  | empty | full | halfFull
  deriving DecidableEq, Repr

namespace RingBuffer

/-- `rt_ringbuffer_init`. -/
def init (pool : ℕ → UInt8) (size : ℕ) : RingBuffer where
  bufferPtr := pool
  readMirror := false
  readIndex := 0
  writeMirror := false
  writeIndex := 0
  bufferSize := rtAlignDown size

variable (rb : RingBuffer)

/-- `rt_ringbuffer_status`. -/
def status : RingbufferState :=
  if rb.readIndex = rb.writeIndex then
    if rb.readMirror = rb.writeMirror then .empty else .full
  else .halfFull

/-- `rt_ringbuffer_data_len`. -/
def dataLen : ℕ :=
  match rb.status with
  | .empty => 0
  | .full => rb.bufferSize
  | .halfFull =>
    if rb.writeIndex > rb.readIndex then rb.writeIndex - rb.readIndex
    else rb.bufferSize - (rb.readIndex - rb.writeIndex)

/-- `rt_ringbuffer_space_len`. -/
def spaceLen : ℕ := rb.bufferSize - rb.dataLen

/-- The copy of `rt_ringbuffer_put` and `rt_ringbuffer_put_force`, in one piece or in two. -/
def copyIn (xs : List UInt8) : RingBuffer :=
  if rb.bufferSize - rb.writeIndex > xs.length then
    { rb with
      bufferPtr := blit rb.bufferPtr rb.writeIndex xs
      writeIndex := rb.writeIndex + xs.length }
  else
    { rb with
      bufferPtr := blit (blit rb.bufferPtr rb.writeIndex (xs.take (rb.bufferSize - rb.writeIndex))) 0
        (xs.drop (rb.bufferSize - rb.writeIndex))
      writeMirror := !rb.writeMirror
      writeIndex := xs.length - (rb.bufferSize - rb.writeIndex) }

/-- `rt_ringbuffer_put` of the bytes `xs`, with the number of bytes stored. -/
def put (xs : List UInt8) : ℕ × RingBuffer :=
  let size := rb.spaceLen
  if size = 0 then (0, rb)
  else
    let xs := if size < xs.length then xs.take size else xs
    (xs.length, rb.copyIn xs)

/-- `rt_ringbuffer_put_force`. -/
def putForce (xs : List UInt8) : ℕ × RingBuffer :=
  let spaceLength := rb.spaceLen
  let xs := if xs.length > rb.bufferSize then xs.drop (xs.length - rb.bufferSize) else xs
  if rb.bufferSize - rb.writeIndex > xs.length then
    let rb := rb.copyIn xs
    (xs.length, if xs.length > spaceLength then { rb with readIndex := rb.writeIndex } else rb)
  else
    let rb := rb.copyIn xs
    (xs.length, if xs.length > spaceLength then
        { rb with
          readMirror := if rb.writeIndex ≤ rb.readIndex then !rb.readMirror else rb.readMirror
          readIndex := rb.writeIndex }
      else rb)

/-- Move the read index over `length` bytes, as `rt_ringbuffer_get` does after its copy. -/
def skip (length : ℕ) : RingBuffer :=
  if rb.bufferSize - rb.readIndex > length then
    { rb with readIndex := rb.readIndex + length }
  else
    { rb with
      readMirror := !rb.readMirror
      readIndex := length - (rb.bufferSize - rb.readIndex) }

/-- The bytes that `rt_ringbuffer_get` copies, in one piece or in two. -/
def copyOut (length : ℕ) : List UInt8 :=
  if rb.bufferSize - rb.readIndex > length then
    (List.range length).map fun i => rb.bufferPtr (rb.readIndex + i)
  else
    ((List.range (rb.bufferSize - rb.readIndex)).map fun i => rb.bufferPtr (rb.readIndex + i)) ++
      (List.range (length - (rb.bufferSize - rb.readIndex))).map rb.bufferPtr

/-- `rt_ringbuffer_get` of at most `length` bytes, with the bytes it delivers. -/
def get (length : ℕ) : ℕ × List UInt8 × RingBuffer :=
  let size := rb.dataLen
  if size = 0 then (0, [], rb)
  else
    let length := if size < length then size else length
    (length, rb.copyOut length, rb.skip length)

/-- `rt_ringbuffer_peek`, with the bytes at the pointer it delivers. -/
def peek : ℕ × List UInt8 × RingBuffer :=
  let size := rb.dataLen
  if size = 0 then (0, [], rb)
  else
    let bytes := fun size => (List.range size).map fun i => rb.bufferPtr (rb.readIndex + i)
    if rb.bufferSize - rb.readIndex > size then
      (size, bytes size, { rb with readIndex := rb.readIndex + size })
    else
      let size := rb.bufferSize - rb.readIndex
      (size, bytes size, { rb with readMirror := !rb.readMirror, readIndex := 0 })

/-- `rt_ringbuffer_putchar`. -/
def putchar (ch : UInt8) : ℕ × RingBuffer :=
  if rb.spaceLen = 0 then (0, rb)
  else
    let rb := { rb with bufferPtr := Function.update rb.bufferPtr rb.writeIndex ch }
    (1, if rb.writeIndex = rb.bufferSize - 1 then
        { rb with writeMirror := !rb.writeMirror, writeIndex := 0 }
      else { rb with writeIndex := rb.writeIndex + 1 })

/-- `rt_ringbuffer_putchar_force`. -/
def putcharForce (ch : UInt8) : ℕ × RingBuffer :=
  let oldState := rb.status
  let rb := { rb with bufferPtr := Function.update rb.bufferPtr rb.writeIndex ch }
  (1, if rb.writeIndex = rb.bufferSize - 1 then
      let rb := { rb with writeMirror := !rb.writeMirror, writeIndex := 0 }
      if oldState = .full then
        { rb with readMirror := !rb.readMirror, readIndex := rb.writeIndex }
      else rb
    else
      let rb := { rb with writeIndex := rb.writeIndex + 1 }
      if oldState = .full then { rb with readIndex := rb.writeIndex } else rb)

/-- `rt_ringbuffer_getchar`. -/
def getchar : ℕ × List UInt8 × RingBuffer :=
  if rb.dataLen = 0 then (0, [], rb)
  else
    (1, [rb.bufferPtr rb.readIndex],
      if rb.readIndex = rb.bufferSize - 1 then
        { rb with readMirror := !rb.readMirror, readIndex := 0 }
      else { rb with readIndex := rb.readIndex + 1 })

/-- The bytes in the buffer, oldest first. -/
def contents : List UInt8 := window rb.bufferSize rb.bufferPtr rb.readIndex rb.dataLen

/-! ## The invariant -/

/-- The indices and mirrors stand for `len` bytes. -/
structure Holds (len : ℕ) : Prop where
  read : rb.readIndex < rb.bufferSize
  le : len ≤ rb.bufferSize
  write : rb.writeIndex = ringIndex rb.bufferSize rb.readIndex len
  mirror : rb.writeMirror = rb.readMirror ↔ rb.readIndex + len < rb.bufferSize

variable {rb} {len m : ℕ} {xs : List UInt8}

theorem Holds.dataLen (h : rb.Holds len) : rb.dataLen = len := by
  obtain ⟨hr, hl, hw, hm⟩ := h
  unfold RingBuffer.dataLen status
  unfold ringIndex at hw
  by_cases hlt : rb.readIndex + len < rb.bufferSize
  · rw [if_pos hlt] at hw
    have hm' := hm.mpr hlt
    by_cases h0 : len = 0
    · rw [if_pos (by omega), if_pos hm'.symm]; exact h0.symm
    · rw [if_neg (by omega)]
      dsimp only
      rw [if_pos (by omega)]
      omega
  · rw [if_neg hlt] at hw
    have hm' : ¬ rb.writeMirror = rb.readMirror := fun e => hlt (hm.mp e)
    by_cases h0 : len = rb.bufferSize
    · rw [if_pos (by omega), if_neg fun e => hm' e.symm]; exact h0.symm
    · rw [if_neg (by omega)]
      dsimp only
      rw [if_neg (by omega)]
      omega

theorem Holds.status (h : rb.Holds len) : rb.status = .full ↔ len = rb.bufferSize := by
  obtain ⟨hr, hl, hw, hm⟩ := h
  unfold RingBuffer.status
  unfold ringIndex at hw
  by_cases hlt : rb.readIndex + len < rb.bufferSize
  · rw [if_pos hlt] at hw
    rw [hm.mpr hlt, if_pos rfl]
    split_ifs
    · exact ⟨fun e => (nomatch e), fun e => by omega⟩
    · exact ⟨fun e => (nomatch e), fun e => by omega⟩
  · rw [if_neg hlt] at hw
    have hm' : ¬ rb.readMirror = rb.writeMirror := fun e => hlt (hm.mp e.symm)
    rw [if_neg hm']
    split_ifs
    · exact ⟨fun _ => by omega, fun _ => rfl⟩
    · exact ⟨fun e => (nomatch e), fun e => by omega⟩

theorem Holds.writeLt (h : rb.Holds len) : rb.writeIndex < rb.bufferSize := by
  rw [h.write]; exact ringIndex_lt h.read h.le

theorem Holds.contents (h : rb.Holds len) :
    rb.contents = window rb.bufferSize rb.bufferPtr rb.readIndex len := by
  rw [RingBuffer.contents, h.dataLen]

theorem Holds.contents_length (h : rb.Holds len) : rb.contents.length = len := by
  rw [h.contents, length_window]

/-! ## Writing -/

@[simp] theorem copyIn_size : (rb.copyIn xs).bufferSize = rb.bufferSize := by
  unfold copyIn; split_ifs <;> rfl

@[simp] theorem copyIn_readIndex : (rb.copyIn xs).readIndex = rb.readIndex := by
  unfold copyIn; split_ifs <;> rfl

@[simp] theorem copyIn_readMirror : (rb.copyIn xs).readMirror = rb.readMirror := by
  unfold copyIn; split_ifs <;> rfl

theorem copyIn_writeIndex (hw : rb.writeIndex < rb.bufferSize) :
    (rb.copyIn xs).writeIndex = ringIndex rb.bufferSize rb.writeIndex xs.length := by
  unfold copyIn ringIndex
  split_ifs <;> dsimp only <;> omega

theorem copyIn_writeMirror (hw : rb.writeIndex < rb.bufferSize) : (rb.copyIn xs).writeMirror =
    if rb.writeIndex + xs.length < rb.bufferSize then rb.writeMirror else !rb.writeMirror := by
  unfold copyIn
  split_ifs <;> first | rfl | omega

/-- The block stands behind the old write index. -/
theorem copyIn_window (hw : rb.writeIndex < rb.bufferSize) (hl : xs.length ≤ rb.bufferSize) :
    window rb.bufferSize (rb.copyIn xs).bufferPtr rb.writeIndex xs.length = xs := by
  unfold copyIn
  split_ifs
  · exact window_blit (by omega)
  · exact window_blit_two hw (by omega) hl

/-- The other cells keep their bytes. -/
theorem copyIn_other (hw : rb.writeIndex < rb.bufferSize) {i : ℕ}
    (hi : ∀ j < xs.length, i ≠ ringIndex rb.bufferSize rb.writeIndex j) (hin : i < rb.bufferSize) :
    (rb.copyIn xs).bufferPtr i = rb.bufferPtr i := by
  unfold copyIn
  split_ifs
  · exact blit_other (by omega) hi
  · exact blit_two_other hw (by omega) hi hin

/-- **Writing into the free space.** -/
theorem copyIn_holds (h : rb.Holds len) (hx : len + xs.length ≤ rb.bufferSize) :
    (rb.copyIn xs).Holds (len + xs.length) := by
  have hw := h.writeLt
  refine ⟨by simpa using h.read, by simpa using hx, ?_, ?_⟩
  · rw [copyIn_writeIndex hw, h.write, ringIndex_add h.read hx, copyIn_size, copyIn_readIndex]
  · rw [copyIn_writeMirror hw, copyIn_readMirror, copyIn_readIndex, copyIn_size]
    have hwr := h.write
    have hm := h.mirror
    unfold ringIndex at hwr
    by_cases hlt : rb.readIndex + len < rb.bufferSize
    · rw [if_pos hlt] at hwr
      rw [hm.mpr hlt, hwr, Nat.add_assoc]
      by_cases hc : rb.readIndex + (len + xs.length) < rb.bufferSize
      · simp [hc]
      · simp [hc]
    · rw [if_neg hlt] at hwr
      have := h.read
      have hm' : ¬ rb.writeMirror = rb.readMirror := fun e => hlt (hm.mp e)
      rw [if_pos (by omega)]
      exact ⟨fun e => absurd e hm', fun e => by omega⟩

theorem copyIn_contents (h : rb.Holds len) (hx : len + xs.length ≤ rb.bufferSize) :
    (rb.copyIn xs).contents = rb.contents ++ xs := by
  have hw := h.writeLt
  rw [(copyIn_holds h hx).contents, h.contents, copyIn_size, copyIn_readIndex,
    window_append h.read hx, ← h.write, copyIn_window hw (by omega)]
  congr 1
  refine window_blit_other h.read hx fun i hi hin => ?_
  rw [← h.write] at hi
  exact copyIn_other hw hi hin

/-- **Overwriting.** More bytes than there is space for leave the buffer full, with the last bytes. -/
theorem putForce_holds (h : rb.Holds len) (hl : xs.length ≤ rb.bufferSize)
    (hx : rb.bufferSize < len + xs.length) (b : Bool)
    (hb : b = ((rb.copyIn xs).writeMirror ^^ true)) :
    ({ rb.copyIn xs with readIndex := (rb.copyIn xs).writeIndex, readMirror := b } :
      RingBuffer).Holds rb.bufferSize := by
  have hw := h.writeLt
  have hlt : (rb.copyIn xs).writeIndex < rb.bufferSize := by
    rw [copyIn_writeIndex hw]; exact ringIndex_lt hw hl
  refine ⟨by simpa using hlt, by simp, ?_, ?_⟩
  · dsimp only
    rw [copyIn_size, ringIndex_self hlt]
  · dsimp only
    rw [hb, copyIn_size]
    constructor
    · intro e; simp at e
    · intro e; omega

theorem putForce_contents (h : rb.Holds len) (hl : xs.length ≤ rb.bufferSize)
    (hx : rb.bufferSize < len + xs.length) (b : Bool)
    (hb : b = ((rb.copyIn xs).writeMirror ^^ true)) :
    ({ rb.copyIn xs with readIndex := (rb.copyIn xs).writeIndex, readMirror := b } :
      RingBuffer).contents = (rb.contents ++ xs).drop (len + xs.length - rb.bufferSize) := by
  have hw := h.writeLt
  have hwl : (rb.copyIn xs).writeIndex < rb.bufferSize := by
    rw [copyIn_writeIndex hw]; exact ringIndex_lt hw hl
  have hwr : (rb.copyIn xs).writeIndex =
      ringIndex rb.bufferSize rb.readIndex (len + xs.length - rb.bufferSize) := by
    rw [copyIn_writeIndex hw, h.write]
    have := h.read
    have := h.le
    unfold ringIndex
    split_ifs <;> omega
  have hback : ringIndex rb.bufferSize (rb.copyIn xs).writeIndex (rb.bufferSize - xs.length) =
      rb.writeIndex := by
    rw [copyIn_writeIndex hw, ringIndex_add hw (by omega), Nat.add_sub_cancel' hl, ringIndex_self hw]
  have hdrop : (rb.contents ++ xs).drop (len + xs.length - rb.bufferSize) =
      rb.contents.drop (len + xs.length - rb.bufferSize) ++ xs := by
    rw [List.drop_append_of_le_length]
    rw [h.contents, length_window]
    omega
  have hlen := h.le
  rw [(putForce_holds h hl hx b hb).contents, hdrop, h.contents,
    window_drop h.read (by omega) h.le]
  dsimp only
  rw [copyIn_size, show rb.bufferSize = (rb.bufferSize - xs.length) + xs.length by omega,
    window_append (by omega) (by omega)]
  rw [show (rb.bufferSize - xs.length) + xs.length = rb.bufferSize by omega, hback,
    copyIn_window hw hl]
  congr 1
  rw [hwr, show len - (len + xs.length - rb.bufferSize) = rb.bufferSize - xs.length by omega]
  refine window_congr fun i hi => copyIn_other hw (fun j hj e => ?_)
    (ringIndex_lt (by rw [← hwr]; exact hwl) (by omega))
  rw [ringIndex_add h.read (by omega), h.write] at e
  have := h.read
  unfold ringIndex at e
  split_ifs at e <;> omega

/-- **What `rt_ringbuffer_put` does.** -/
theorem put_spec (h : rb.Holds len) (xs : List UInt8) :
    (rb.put xs).1 = min xs.length (rb.bufferSize - len) ∧
      (rb.put xs).2.Holds (len + min xs.length (rb.bufferSize - len)) ∧
      (rb.put xs).2.contents = rb.contents ++ xs.take (rb.bufferSize - len) := by
  have hl := h.le
  unfold put spaceLen
  rw [h.dataLen]
  dsimp only
  by_cases h0 : rb.bufferSize - len = 0
  · rw [if_pos h0, h0]
    simpa using h
  · rw [if_neg h0]
    obtain ⟨ys, hys⟩ : ∃ ys, ys = if rb.bufferSize - len < xs.length then
        xs.take (rb.bufferSize - len) else xs := ⟨_, rfl⟩
    have htake : ys = xs.take (rb.bufferSize - len) := by
      rw [hys]
      split_ifs with hc
      · rfl
      · rw [List.take_of_length_le (by omega)]
    have hlen : ys.length = min xs.length (rb.bufferSize - len) := by
      rw [htake, List.length_take, Nat.min_comm]
    rw [← hys, ← hlen, ← htake]
    exact ⟨rfl, copyIn_holds h (by omega), copyIn_contents h (by omega)⟩

/-- The bytes that a forced write drops do not depend on where the input is cut. -/
theorem drop_clip {α : Type} (q xs : List α) {n : ℕ} (hx : n < xs.length) :
    (q ++ xs).drop (q.length + xs.length - n) =
      (q ++ xs.drop (xs.length - n)).drop (q.length + (xs.drop (xs.length - n)).length - n) := by
  have h1 : (xs.drop (xs.length - n)).length = n := by rw [List.length_drop]; omega
  rw [h1, show q.length + n - n = q.length by omega, List.drop_left,
    show q.length + xs.length - n = q.length + (xs.length - n) by omega, ← List.drop_drop,
    List.drop_left]

/-- **What `rt_ringbuffer_put_force` does.** -/
theorem putForce_spec (h : rb.Holds len) (xs : List UInt8) :
    (rb.putForce xs).1 = min xs.length rb.bufferSize ∧
      (∃ len', (rb.putForce xs).2.Holds len') ∧
      (rb.putForce xs).2.contents =
        (rb.contents ++ xs).drop (len + xs.length - rb.bufferSize) := by
  have hl := h.le
  have hq : rb.contents.length = len := by rw [h.contents, length_window]
  obtain ⟨ys, hys⟩ : ∃ ys, ys = if xs.length > rb.bufferSize then
      xs.drop (xs.length - rb.bufferSize) else xs := ⟨_, rfl⟩
  have hlen : ys.length = min xs.length rb.bufferSize := by
    rw [hys]
    split_ifs
    · rw [List.length_drop]; omega
    · omega
  have hdrop : (rb.contents ++ xs).drop (len + xs.length - rb.bufferSize) =
      (rb.contents ++ ys).drop (len + ys.length - rb.bufferSize) := by
    rw [← hq, hys]
    split_ifs with hc
    · exact drop_clip _ _ hc
    · rfl
  unfold putForce spaceLen
  rw [h.dataLen]
  dsimp only
  rw [← hys, ← hlen, hdrop]
  by_cases hover : ys.length > rb.bufferSize - len
  · rw [if_pos hover, if_pos hover]
    have hlt : rb.bufferSize < len + ys.length := by omega
    have hw := h.writeLt
    have hwr := h.write
    have hm := h.mirror
    have hr := h.read
    unfold ringIndex at hwr
    split_ifs with hc hle
    · -- one piece: the mirrors differ already
      have hb : rb.readMirror = ((rb.copyIn ys).writeMirror ^^ true) := by
        rw [copyIn_writeMirror hw, if_pos (by omega)]
        by_cases hlt' : rb.readIndex + len < rb.bufferSize
        · rw [if_pos hlt'] at hwr; omega
        · have : ¬ rb.writeMirror = rb.readMirror := fun e => hlt' (hm.mp e)
          revert this
          cases rb.writeMirror <;> cases rb.readMirror <;> simp
      have h1 := putForce_holds h (by omega) hlt rb.readMirror hb
      have h2 := putForce_contents h (by omega) hlt rb.readMirror hb
      have hrm : (rb.copyIn ys).readMirror = rb.readMirror := copyIn_readMirror
      rw [← hrm] at h1 h2
      exact ⟨rfl, ⟨_, h1⟩, h2⟩
    · -- two pieces, and the write index has not passed the read index
      have hb : (!(rb.copyIn ys).readMirror) = ((rb.copyIn ys).writeMirror ^^ true) := by
        rw [copyIn_readIndex, copyIn_writeIndex hw, ringIndex, if_neg (by omega)] at hle
        rw [copyIn_writeMirror hw, if_neg (by omega), copyIn_readMirror]
        by_cases hlt' : rb.readIndex + len < rb.bufferSize
        · rw [if_pos hlt'] at hwr; omega
        · have : ¬ rb.writeMirror = rb.readMirror := fun e => hlt' (hm.mp e)
          revert this
          cases rb.writeMirror <;> cases rb.readMirror <;> simp
      exact ⟨rfl, ⟨_, putForce_holds h (by omega) hlt _ hb⟩,
        putForce_contents h (by omega) hlt _ hb⟩
    · -- two pieces, and the write index has passed the read index
      have hb : (rb.copyIn ys).readMirror = ((rb.copyIn ys).writeMirror ^^ true) := by
        rw [copyIn_readIndex, copyIn_writeIndex hw, ringIndex, if_neg (by omega)] at hle
        rw [copyIn_writeMirror hw, if_neg (by omega), copyIn_readMirror]
        by_cases hlt' : rb.readIndex + len < rb.bufferSize
        · rw [hm.mpr hlt']; simp
        · rw [if_neg hlt'] at hwr; omega
      exact ⟨rfl, ⟨_, putForce_holds h (by omega) hlt _ hb⟩,
        putForce_contents h (by omega) hlt _ hb⟩
  · rw [if_neg hover, if_neg hover, ite_self, show len + ys.length - rb.bufferSize = 0 by omega,
      List.drop_zero]
    exact ⟨rfl, ⟨_, copyIn_holds h (by omega)⟩, copyIn_contents h (by omega)⟩

theorem put_frame (rb : RingBuffer) (xs : List UInt8) :
    (rb.put xs).2.bufferSize = rb.bufferSize ∧ (rb.put xs).2.readIndex = rb.readIndex := by
  unfold put copyIn
  dsimp only
  split_ifs <;> exact ⟨rfl, rfl⟩

/-! ## Reading -/

/-- **Moving the read index.** -/
theorem skip_holds (h : rb.Holds len) (hm : m ≤ len) : (rb.skip m).Holds (len - m) := by
  obtain ⟨hr, hl, hw, hmir⟩ := h
  unfold ringIndex at hw
  unfold skip
  split_ifs with hc
  · refine ⟨by dsimp only; omega, by dsimp only; omega, ?_, ?_⟩
    · dsimp only
      unfold ringIndex
      split_ifs at hw ⊢ <;> omega
    · dsimp only
      rw [hmir]
      omega
  · have hlt : ¬ rb.readIndex + len < rb.bufferSize := by omega
    rw [if_neg hlt] at hw
    have hne : ¬ rb.writeMirror = rb.readMirror := fun e => hlt (hmir.mp e)
    refine ⟨by dsimp only; omega, by dsimp only; omega, ?_, ?_⟩
    · dsimp only
      unfold ringIndex
      split_ifs <;> omega
    · dsimp only
      refine ⟨fun _ => by omega, fun _ => ?_⟩
      revert hne
      cases rb.writeMirror <;> cases rb.readMirror <;> simp

theorem skip_contents (h : rb.Holds len) (hm : m ≤ len) :
    (rb.skip m).contents = rb.contents.drop m := by
  have hr : (rb.skip m).readIndex = ringIndex rb.bufferSize rb.readIndex m := by
    have := h.read
    have := h.le
    unfold skip ringIndex
    split_ifs <;> dsimp only <;> omega
  have hb : (rb.skip m).bufferSize = rb.bufferSize ∧ (rb.skip m).bufferPtr = rb.bufferPtr := by
    unfold skip; split_ifs <;> exact ⟨rfl, rfl⟩
  rw [(skip_holds h hm).contents, h.contents, window_drop h.read hm h.le, hr, hb.1, hb.2]

theorem skip_bufferSize : (rb.skip m).bufferSize = rb.bufferSize := by
  unfold skip
  split_ifs <;> rfl

theorem copyOut_eq (h : rb.Holds len) (hm : m ≤ len) : rb.copyOut m = rb.contents.take m := by
  have hr := h.read
  have hl := h.le
  rw [h.contents, window_take hm]
  unfold copyOut window
  split_ifs with hc
  · refine List.map_congr_left fun i hi => ?_
    rw [ringIndex, if_pos (by have := List.mem_range.mp hi; omega)]
  · obtain ⟨d, rfl⟩ : ∃ d, m = (rb.bufferSize - rb.readIndex) + d :=
      ⟨m - (rb.bufferSize - rb.readIndex), by omega⟩
    rw [Nat.add_sub_cancel_left, List.range_add, List.map_append, List.map_map]
    congr 1
    · refine List.map_congr_left fun i hi => ?_
      rw [ringIndex, if_pos (by have := List.mem_range.mp hi; omega)]
    · refine List.map_congr_left fun i hi => ?_
      rw [Function.comp, ringIndex, if_neg (by omega)]
      congr 1
      omega

/-- **What `rt_ringbuffer_get` does.** -/
theorem get_spec (h : rb.Holds len) (n : ℕ) :
    (rb.get n).1 = min n len ∧ (rb.get n).2.1 = rb.contents.take n ∧
      (rb.get n).2.2.Holds (len - min n len) ∧ (rb.get n).2.2.contents = rb.contents.drop n := by
  have hq : rb.contents.length = len := by rw [h.contents, length_window]
  unfold get
  rw [h.dataLen]
  dsimp only
  by_cases h0 : len = 0
  · rw [if_pos h0]
    have hnil : rb.contents = [] := List.eq_nil_of_length_eq_zero (hq.trans h0)
    subst h0
    rw [hnil]
    simpa using h
  · rw [if_neg h0]
    have hmin : (if len < n then len else n) = min n len := by split_ifs <;> omega
    have htake : rb.contents.take (min n len) = rb.contents.take n := by
      rw [← hq]; exact List.take_eq_take_min.symm
    have hdrop : rb.contents.drop (min n len) = rb.contents.drop n := by
      rw [← hq]; exact List.drop_eq_drop_min.symm
    rw [hmin]
    refine ⟨rfl, ?_, skip_holds h (by omega), ?_⟩
    · dsimp only
      rw [copyOut_eq h (by omega), htake]
    · dsimp only
      rw [skip_contents h (by omega), hdrop]

theorem get_length (n : ℕ) : (rb.get n).2.1.length = (rb.get n).1 := by
  unfold get copyOut
  dsimp only
  split_ifs <;> simp <;> omega

theorem get_zero {n : ℕ} (hn : 0 < n) (h : (rb.get n).1 = 0) :
    rb.dataLen = 0 ∧ (rb.get n).2.2 = rb := by
  unfold get at h ⊢
  dsimp only at h ⊢
  by_cases h0 : rb.dataLen = 0
  · rw [if_pos h0]
    exact ⟨h0, rfl⟩
  · rw [if_neg h0] at h
    dsimp only at h
    split_ifs at h <;> omega

theorem get_bufferSize (n : ℕ) : (rb.get n).2.2.bufferSize = rb.bufferSize := by
  unfold get skip
  dsimp only
  split_ifs <;> rfl

/-- **What `rt_ringbuffer_peek` does.** It consumes the bytes it delivers, a non-empty prefix. -/
theorem peek_spec (h : rb.Holds len) :
    rb.peek.1 = rb.peek.2.1.length ∧ rb.contents = rb.peek.2.1 ++ rb.peek.2.2.contents ∧
      (rb.contents ≠ [] → rb.peek.2.1 ≠ []) ∧ ∃ len', rb.peek.2.2.Holds len' := by
  have hq : rb.contents.length = len := by rw [h.contents, length_window]
  have hr := h.read
  -- the piece up to the end of the pool, consumed as by `rt_ringbuffer_get`
  have key : ∀ m, m ≤ len → rb.readIndex + m ≤ rb.bufferSize →
      rb.contents = ((List.range m).map fun i => rb.bufferPtr (rb.readIndex + i)) ++
        (rb.skip m).contents := by
    intro m hm hle
    rw [skip_contents h hm]
    conv_lhs => rw [← List.take_append_drop m rb.contents]
    congr 1
    rw [h.contents, window_take hm]
    refine List.map_congr_left fun i hi => ?_
    rw [ringIndex, if_pos (by have := List.mem_range.mp hi; omega)]
  unfold peek
  rw [h.dataLen]
  dsimp only
  by_cases h0 : len = 0
  · rw [if_pos h0]
    exact ⟨rfl, rfl, fun hne => absurd (List.eq_nil_of_length_eq_zero (hq.trans h0)) hne, _, h⟩
  · rw [if_neg h0]
    split_ifs with hc
    · have hs : rb.skip len = { rb with readIndex := rb.readIndex + len } := by
        unfold skip; rw [if_pos hc]
      refine ⟨by simp, ?_, fun _ => by simpa using h0, len - len, ?_⟩
      · have := key len (Nat.le_refl _) (by omega)
        rwa [hs] at this
      · have := skip_holds h (Nat.le_refl len)
        rwa [hs] at this
    · have hs : rb.skip (rb.bufferSize - rb.readIndex) =
          { rb with readMirror := !rb.readMirror, readIndex := 0 } := by
        unfold skip; rw [if_neg (by omega), Nat.sub_self]
      refine ⟨by simp, ?_, fun _ => by simp; omega, len - (rb.bufferSize - rb.readIndex), ?_⟩
      · have := key (rb.bufferSize - rb.readIndex) (by omega) (by omega)
        rwa [hs] at this
      · have := skip_holds h (m := rb.bufferSize - rb.readIndex) (by omega)
        rwa [hs] at this

/-! ## Single characters -/

theorem putchar_eq (h : rb.Holds len) (ch : UInt8) : rb.putchar ch = rb.put [ch] := by
  have hw := h.writeLt
  unfold putchar put
  dsimp only
  by_cases h0 : rb.spaceLen = 0
  · rw [if_pos h0, if_pos h0]
  · rw [if_neg h0, if_neg h0,
      if_neg (show ¬ rb.spaceLen < [ch].length by rw [List.length_singleton]; omega)]
    unfold copyIn
    rw [List.length_singleton]
    by_cases hl : rb.writeIndex = rb.bufferSize - 1
    · have h1 : rb.bufferSize - rb.writeIndex = 1 := by omega
      rw [if_pos hl, h1, if_neg (by omega), List.take_of_length_le (by simp),
        List.drop_of_length_le (by simp), blit_nil, blit_singleton]
    · rw [if_neg hl, if_pos (by omega), blit_singleton]

theorem putcharForce_eq (h : rb.Holds len) (ch : UInt8) :
    rb.putcharForce ch = rb.putForce [ch] := by
  have hw := h.writeLt
  have hl := h.le
  have hfull : [ch].length > rb.spaceLen ↔ rb.status = .full := by
    rw [h.status, List.length_singleton, spaceLen, h.dataLen]; omega
  unfold putcharForce putForce
  dsimp only
  rw [if_neg (show ¬ [ch].length > rb.bufferSize by rw [List.length_singleton]; omega)]
  unfold copyIn
  rw [List.length_singleton] at hfull ⊢
  by_cases hle : rb.writeIndex = rb.bufferSize - 1
  · have h1 : rb.bufferSize - rb.writeIndex = 1 := by omega
    rw [if_pos hle, h1, if_neg (show ¬ 1 > 1 by omega), if_neg (show ¬ 1 > 1 by omega),
      List.take_of_length_le (by simp), List.drop_of_length_le (by simp), blit_nil, blit_singleton]
    by_cases hf : rb.status = .full
    · rw [if_pos hf, if_pos (hfull.mpr hf), if_pos (Nat.zero_le _)]
    · rw [if_neg hf, if_neg fun e => hf (hfull.mp e)]
  · rw [if_neg hle, if_pos (show rb.bufferSize - rb.writeIndex > 1 by omega),
      if_pos (show rb.bufferSize - rb.writeIndex > 1 by omega), blit_singleton]
    by_cases hf : rb.status = .full
    · rw [if_pos hf, if_pos (hfull.mpr hf)]
    · rw [if_neg hf, if_neg fun e => hf (hfull.mp e)]

theorem getchar_eq (h : rb.Holds len) : rb.getchar = rb.get 1 := by
  have hr := h.read
  unfold getchar get
  rw [h.dataLen]
  dsimp only
  by_cases h0 : len = 0
  · rw [if_pos h0, if_pos h0]
  · rw [if_neg h0, if_neg h0, if_neg (show ¬ len < 1 by omega)]
    unfold copyOut skip
    by_cases hl : rb.readIndex = rb.bufferSize - 1
    · have h1 : rb.bufferSize - rb.readIndex = 1 := by omega
      rw [if_pos hl, h1, if_neg (show ¬ 1 > 1 by omega), if_neg (show ¬ 1 > 1 by omega)]
      simp
    · rw [if_neg hl, if_pos (show rb.bufferSize - rb.readIndex > 1 by omega),
        if_pos (show rb.bufferSize - rb.readIndex > 1 by omega)]
      simp

end RingBuffer

/-! ## Refinement of a FIFO -/

/-- The operations on a ring buffer. -/
inductive RingOp where
  | put (xs : List UInt8)
  | putForce (xs : List UInt8)
  | putchar (ch : UInt8)
  | putcharForce (ch : UInt8)
  | get (length : ℕ)
  | getchar
  | peek
  deriving DecidableEq, Repr

/-- An operation with the number it returns and the bytes it delivers. -/
def RingBuffer.step (rb : RingBuffer) : RingOp → (ℕ × List UInt8) × RingBuffer
  | .put xs => (((rb.put xs).1, []), (rb.put xs).2)
  | .putForce xs => (((rb.putForce xs).1, []), (rb.putForce xs).2)
  | .putchar ch => (((rb.putchar ch).1, []), (rb.putchar ch).2)
  | .putcharForce ch => (((rb.putcharForce ch).1, []), (rb.putcharForce ch).2)
  | .get length => (((rb.get length).1, (rb.get length).2.1), (rb.get length).2.2)
  | .getchar => ((rb.getchar.1, rb.getchar.2.1), rb.getchar.2.2)
  | .peek => ((rb.peek.1, rb.peek.2.1), rb.peek.2.2)

/-- A FIFO of at most `cap` bytes: `q` becomes `q'`, and the operation answers `r`. -/
def FifoStep (cap : ℕ) (q : List UInt8) : RingOp → ℕ × List UInt8 → List UInt8 → Prop
  | .put xs, r, q' =>
    r = (min xs.length (cap - q.length), []) ∧ q' = q ++ xs.take (cap - q.length)
  | .putForce xs, r, q' =>
    r = (min xs.length cap, []) ∧ q' = (q ++ xs).drop (q.length + xs.length - cap)
  | .putchar ch, r, q' =>
    r = (min 1 (cap - q.length), []) ∧ q' = q ++ [ch].take (cap - q.length)
  | .putcharForce ch, r, q' =>
    r = (min 1 cap, []) ∧ q' = (q ++ [ch]).drop (q.length + 1 - cap)
  | .get length, r, q' => r = (min length q.length, q.take length) ∧ q' = q.drop length
  | .getchar, r, q' => r = (min 1 q.length, q.take 1) ∧ q' = q.drop 1
  | .peek, r, q' => r.1 = r.2.length ∧ q = r.2 ++ q' ∧ (q ≠ [] → r.2 ≠ [])

/-- The ring buffer is a FIFO of `buffer_size` bytes, and the single-character operations are the
block operations with length 1. -/
structure RingBuffer.Fifo (rb : RingBuffer) : Prop where
  dataLen : rb.dataLen = rb.contents.length
  bound : rb.contents.length ≤ rb.bufferSize
  step : ∀ op, FifoStep rb.bufferSize rb.contents op (rb.step op).1 (rb.step op).2.contents
  putchar : ∀ ch, rb.putchar ch = rb.put [ch]
  putcharForce : ∀ ch, rb.putcharForce ch = rb.putForce [ch]
  getchar : rb.getchar = rb.get 1

/-- Ring buffers of any capacity, from `rt_ringbuffer_init` on. -/
def ringSystem : System RingBuffer RingOp where
  init rb := ∃ pool size, rtAlignSize ≤ size ∧ rb = RingBuffer.init pool size
  step rb op := some (rb.step op).2

namespace RingBuffer

variable {rb : RingBuffer} {len : ℕ}

theorem init_holds (pool : ℕ → UInt8) {size : ℕ} (hs : rtAlignSize ≤ size) :
    (RingBuffer.init pool size).Holds 0 := by
  have hpos : 0 < rtAlignDown size := by unfold rtAlignDown rtAlignSize at *; omega
  exact ⟨hpos, Nat.zero_le _, by simp [RingBuffer.init, ringIndex, hpos],
    by simp [RingBuffer.init, hpos]⟩

theorem Holds.fifo (h : rb.Holds len) : rb.Fifo := by
  have hq : rb.contents.length = len := by rw [h.contents, length_window]
  have hput : ∀ xs, FifoStep rb.bufferSize rb.contents (.put xs) ((rb.put xs).1, [])
      (rb.put xs).2.contents := fun xs => by
    obtain ⟨h1, -, h3⟩ := put_spec h xs
    rw [← hq] at h1 h3
    exact ⟨by rw [h1], h3⟩
  have hforce : ∀ xs, FifoStep rb.bufferSize rb.contents (.putForce xs) ((rb.putForce xs).1, [])
      (rb.putForce xs).2.contents := fun xs => by
    obtain ⟨h1, -, h3⟩ := putForce_spec h xs
    rw [← hq] at h3
    exact ⟨by rw [h1], h3⟩
  have hget : ∀ n, FifoStep rb.bufferSize rb.contents (.get n) ((rb.get n).1, (rb.get n).2.1)
      (rb.get n).2.2.contents := fun n => by
    obtain ⟨h1, h2, -, h4⟩ := get_spec h n
    rw [← hq] at h1
    exact ⟨by rw [h1, h2], h4⟩
  refine ⟨h.dataLen.trans hq.symm, by rw [hq]; exact h.le, fun op => ?_, putchar_eq h, putcharForce_eq h,
    getchar_eq h⟩
  cases op with
  | put xs => exact hput xs
  | putForce xs => exact hforce xs
  | putchar ch => simp only [RingBuffer.step, putchar_eq h]; exact hput [ch]
  | putcharForce ch => simp only [RingBuffer.step, putcharForce_eq h]; exact hforce [ch]
  | get n => exact hget n
  | getchar => simp only [RingBuffer.step, getchar_eq h]; exact hget 1
  | peek =>
    obtain ⟨h1, h2, h3, -⟩ := peek_spec h
    exact ⟨h1, h2, h3⟩

/-- **Every operation keeps the invariant.** -/
theorem step_holds (h : rb.Holds len) (op : RingOp) : ∃ len', (rb.step op).2.Holds len' := by
  cases op with
  | put xs => exact ⟨_, (put_spec h xs).2.1⟩
  | putForce xs => exact (putForce_spec h xs).2.1
  | putchar ch =>
    simp only [RingBuffer.step, putchar_eq h]; exact ⟨_, (put_spec h [ch]).2.1⟩
  | putcharForce ch =>
    simp only [RingBuffer.step, putcharForce_eq h]; exact (putForce_spec h [ch]).2.1
  | get n => exact ⟨_, (get_spec h n).2.2.1⟩
  | getchar => simp only [RingBuffer.step, getchar_eq h]; exact ⟨_, (get_spec h 1).2.2.1⟩
  | peek => exact (peek_spec h).2.2.2

end RingBuffer

/-- **In every run the ring buffer is a bounded FIFO of bytes.** -/
theorem ringBuffer_refines {rb : RingBuffer} (h : ringSystem.Reach System.anyStep rb) :
    rb.Fifo := by
  obtain ⟨len, hlen⟩ := h.invariant (I := fun rb => ∃ len, rb.Holds len)
    (fun rb hrb => by
      obtain ⟨pool, size, hs, rfl⟩ := hrb
      exact ⟨0, RingBuffer.init_holds pool hs⟩)
    fun rb op rb' hrb _ hst => by
      obtain ⟨len, hl⟩ := hrb
      cases hst
      exact RingBuffer.step_holds hl op
  exact hlen.fifo

/-- A full ring buffer of 8 bytes whose write index has wrapped. -/
theorem ringBuffer_refines_full :
    let rb := ((RingBuffer.init (fun _ => 0) 8).putForce (List.replicate 11 1)).2
    ringSystem.Reach System.anyStep rb ∧ rb.Fifo :=
  have h0 : ringSystem.Reach System.anyStep (RingBuffer.init (fun _ => 0) 8) :=
    .init ⟨fun _ => 0, 8, by decide, rfl⟩
  have h : ringSystem.Reach System.anyStep
      ((RingBuffer.init (fun _ => 0) 8).putForce (List.replicate 11 1)).2 :=
    h0.step (a := .putForce (List.replicate 11 1)) rfl rfl
  ⟨h, ringBuffer_refines h⟩

end RtThread
