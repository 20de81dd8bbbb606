import RtThread.Drivers.RingBuffer

/-!
# The indices of the ring buffer

The indices of `struct rt_ringbuffer` are bit fields of 31 bits, all tests are made with 32 bits, and
`rt_ringbuffer_init` rounds the size down, to zero when it is less than `RT_ALIGN_SIZE`.

* `RingIndex` and its operations, with the bytes of the pool that they access;
* `InRange`: the indices stay below the size; `apply_inRange`: every operation keeps that and stays
  inside the pool;
* **`ringbuffer_inside`**: for which sizes the indices and the accesses are in range in every run.
-/

namespace RtThread

/-- `struct rt_ringbuffer` without its pool. -/
structure RingIndex where
  readMirror : Bool
  readIndex : BitVec 31
  writeMirror : Bool
  writeIndex : BitVec 31
  bufferSize : BitVec 32
  deriving DecidableEq

/-- Bytes of the pool that are read or written. -/
structure PoolAccess where
  offset : BitVec 32
  length : BitVec 32
  deriving DecidableEq

/-- The operations. -/
inductive IndexOp where
  | put (length : BitVec 32)
  | putForce (length : BitVec 32)
  | get (length : BitVec 32)
  | peek
  | putchar
  | putcharForce
  | getchar
  | reset

namespace RingIndex

/-- `rt_ringbuffer_init`; there is no result when its assertion fails. -/
def init (size : BitVec 32) : Option RingIndex :=
  if 0 < size.toInt then
    some
      { readMirror := false, readIndex := 0, writeMirror := false, writeIndex := 0
        bufferSize := BitVec.ofNat 32 (rtAlignDown size.toNat) }
  else none

/-- `rt_ringbuffer_create`, where `rbMalloc` and `poolMalloc` say whether `rt_malloc` has a block for
the object and for the pool. There is no result when an assertion fails, and no buffer when a block
is missing. -/
def create (size : BitVec 32) (rbMalloc poolMalloc : Bool) : Option (Option RingIndex) :=
  if size ≠ 0 then
    let size := BitVec.ofNat 32 (rtAlignDown size.toNat)
    if rbMalloc = false then some none
    else if poolMalloc = false then some none
    else (init size).map some
  else none

variable (rb : RingIndex)

/-- `rb->read_index`, as an operand. -/
abbrev ri : BitVec 32 := rb.readIndex.setWidth 32

/-- `rb->write_index`, as an operand. -/
abbrev wi : BitVec 32 := rb.writeIndex.setWidth 32

/-- `rt_ringbuffer_status`. -/
def status : RingbufferState :=
  if rb.readIndex = rb.writeIndex then
    if rb.readMirror = rb.writeMirror then .empty else .full
  else .halfFull

/-- `rt_ringbuffer_data_len`. -/
def dataLen : BitVec 32 :=
  match rb.status with
  | .empty => 0
  | .full => rb.bufferSize
  | .halfFull => if rb.ri < rb.wi then rb.wi - rb.ri else rb.bufferSize - (rb.ri - rb.wi)

/-- `rt_ringbuffer_space_len`. -/
def spaceLen : BitVec 32 := rb.bufferSize - rb.dataLen

/-- The accesses to `length` bytes from `index` on, in one piece or in two. -/
def pieces (index length : BitVec 32) : List PoolAccess :=
  if length < rb.bufferSize - index then [⟨index, length⟩]
  else [⟨index, rb.bufferSize - index⟩, ⟨0, length - (rb.bufferSize - index)⟩]

/-- The write index and its mirror after `length` bytes. -/
def copyIn (length : BitVec 32) : RingIndex :=
  if length < rb.bufferSize - rb.wi then
    { rb with writeIndex := (rb.wi + length).setWidth 31 }
  else
    { rb with
      writeMirror := !rb.writeMirror
      writeIndex := (length - (rb.bufferSize - rb.wi)).setWidth 31 }

/-- `rt_ringbuffer_put`. -/
def put (length : BitVec 32) : RingIndex × List PoolAccess :=
  let size := rb.spaceLen
  if size = 0 then (rb, [])
  else
    let length := if size < length then size else length
    (rb.copyIn length, rb.pieces rb.wi length)

/-- `rt_ringbuffer_put_force`. -/
def putForce (length : BitVec 32) : RingIndex × List PoolAccess :=
  let spaceLength := rb.spaceLen
  let length := if rb.bufferSize < length then rb.bufferSize else length
  let rb' := rb.copyIn length
  let rb'' :=
    if spaceLength < length then
      if length < rb.bufferSize - rb.wi then { rb' with readIndex := rb'.writeIndex }
      else
        { rb' with
          readMirror := if rb'.wi ≤ rb'.ri then !rb'.readMirror else rb'.readMirror
          readIndex := rb'.writeIndex }
    else rb'
  (rb'', rb.pieces rb.wi length)

/-- `rt_ringbuffer_get`. -/
def get (length : BitVec 32) : RingIndex × List PoolAccess :=
  let size := rb.dataLen
  if size = 0 then (rb, [])
  else
    let length := if size < length then size else length
    (if length < rb.bufferSize - rb.ri then
        { rb with readIndex := (rb.ri + length).setWidth 31 }
      else
        { rb with
          readMirror := !rb.readMirror
          readIndex := (length - (rb.bufferSize - rb.ri)).setWidth 31 },
      rb.pieces rb.ri length)

/-- `rt_ringbuffer_peek`, whose caller reads the bytes that it delivers. -/
def peek : RingIndex × List PoolAccess :=
  let size := rb.dataLen
  if size = 0 then (rb, [])
  else if size < rb.bufferSize - rb.ri then
    ({ rb with readIndex := (rb.ri + size).setWidth 31 }, [⟨rb.ri, size⟩])
  else
    ({ rb with readMirror := !rb.readMirror, readIndex := 0 }, [⟨rb.ri, rb.bufferSize - rb.ri⟩])

/-- The write index and its mirror after one byte. -/
def flipWrite : RingIndex :=
  if rb.wi = rb.bufferSize - 1 then
    { rb with writeMirror := !rb.writeMirror, writeIndex := 0 }
  else { rb with writeIndex := rb.writeIndex + 1 }

/-- `rt_ringbuffer_putchar`. -/
def putchar : RingIndex × List PoolAccess :=
  if rb.spaceLen = 0 then (rb, []) else (rb.flipWrite, [⟨rb.wi, 1⟩])

/-- `rt_ringbuffer_putchar_force`. -/
def putcharForce : RingIndex × List PoolAccess :=
  let oldState := rb.status
  let rb' := rb.flipWrite
  (if oldState = .full then
      if rb.wi = rb.bufferSize - 1 then
        { rb' with readMirror := !rb'.readMirror, readIndex := rb'.writeIndex }
      else { rb' with readIndex := rb'.writeIndex }
    else rb', [⟨rb.wi, 1⟩])

/-- `rt_ringbuffer_getchar`. -/
def getchar : RingIndex × List PoolAccess :=
  if rb.dataLen = 0 then (rb, [])
  else
    (if rb.ri = rb.bufferSize - 1 then
        { rb with readMirror := !rb.readMirror, readIndex := 0 }
      else { rb with readIndex := rb.readIndex + 1 }, [⟨rb.ri, 1⟩])

/-- `rt_ringbuffer_reset`. -/
def reset : RingIndex :=
  { rb with readMirror := false, readIndex := 0, writeMirror := false, writeIndex := 0 }

/-- An operation, and the bytes of the pool that it accesses. -/
def apply : IndexOp → RingIndex × List PoolAccess
  | .put length => rb.put length
  | .putForce length => rb.putForce length
  | .get length => rb.get length
  | .peek => rb.peek
  | .putchar => rb.putchar
  | .putcharForce => rb.putcharForce
  | .getchar => rb.getchar
  | .reset => (rb.reset, [])

/-! ## The invariant -/

/-- The indices are below the size, which is an `int`. -/
structure InRange : Prop where
  read : rb.readIndex.toNat < rb.bufferSize.toNat
  write : rb.writeIndex.toNat < rb.bufferSize.toNat
  size : rb.bufferSize.toNat < 2 ^ 31

/-- All bytes that are accessed are in a pool of `n` bytes. -/
def Inside (n : ℕ) (accesses : List PoolAccess) : Prop :=
  ∀ a ∈ accesses, a.offset.toNat + a.length.toNat ≤ n

variable {rb} {index length : BitVec 32}

theorem ri_toNat : rb.ri.toNat = rb.readIndex.toNat := by
  rw [BitVec.toNat_setWidth]
  exact Nat.mod_eq_of_lt (Nat.lt_trans rb.readIndex.isLt (by decide))

theorem wi_toNat : rb.wi.toNat = rb.writeIndex.toNat := by
  rw [BitVec.toNat_setWidth]
  exact Nat.mod_eq_of_lt (Nat.lt_trans rb.writeIndex.isLt (by decide))

/-- The difference of two operands. -/
theorem toNat_sub_le {a b : BitVec 32} (h : b.toNat ≤ a.toNat) : (a - b).toNat = a.toNat - b.toNat :=
  BitVec.toNat_sub_of_le (BitVec.le_def.mpr h)

/-- No more than the size is in the buffer. -/
theorem InRange.dataLen_le (h : rb.InRange) : rb.dataLen.toNat ≤ rb.bufferSize.toNat := by
  have hr := h.read
  have hw := h.write
  rw [dataLen]
  cases rb.status with
  | empty => exact Nat.zero_le _
  | full => exact Nat.le_refl _
  | halfFull =>
    dsimp only
    split_ifs with hlt
    · rw [BitVec.lt_def, ri_toNat, wi_toNat] at hlt
      rw [toNat_sub_le (by rw [ri_toNat, wi_toNat]; omega), ri_toNat, wi_toNat]
      omega
    · rw [BitVec.lt_def, ri_toNat, wi_toNat] at hlt
      have hsub : (rb.ri - rb.wi).toNat = rb.readIndex.toNat - rb.writeIndex.toNat := by
        rw [toNat_sub_le (by rw [ri_toNat, wi_toNat]; omega), ri_toNat, wi_toNat]
      rw [toNat_sub_le (by omega)]
      omega

theorem InRange.spaceLen_le (h : rb.InRange) : rb.spaceLen.toNat ≤ rb.bufferSize.toNat := by
  rw [spaceLen, toNat_sub_le h.dataLen_le]
  omega

/-- The pieces are in the pool. -/
theorem pieces_inside (hindex : index.toNat < rb.bufferSize.toNat)
    (hlength : length.toNat ≤ rb.bufferSize.toNat) : Inside rb.bufferSize.toNat (rb.pieces index length) := by
  have hsub : (rb.bufferSize - index).toNat = rb.bufferSize.toNat - index.toNat :=
    toNat_sub_le (Nat.le_of_lt hindex)
  intro a ha
  rw [pieces] at ha
  split_ifs at ha with hlt
  · rw [BitVec.lt_def, hsub] at hlt
    obtain rfl := List.mem_singleton.mp ha
    change index.toNat + length.toNat ≤ _
    omega
  · rw [BitVec.lt_def, hsub] at hlt
    rcases List.mem_cons.mp ha with rfl | ha
    · change index.toNat + (rb.bufferSize - index).toNat ≤ _
      omega
    · obtain rfl := List.mem_singleton.mp ha
      change 0 + (length - (rb.bufferSize - index)).toNat ≤ _
      rw [toNat_sub_le (by omega)]
      omega

/-- The index after `length` bytes stays below the size. -/
theorem index_lt (hindex : index.toNat < rb.bufferSize.toNat)
    (hlength : length.toNat ≤ rb.bufferSize.toNat) (hsize : rb.bufferSize.toNat < 2 ^ 31) :
    (if length < rb.bufferSize - index then (index + length).setWidth 31
      else (length - (rb.bufferSize - index)).setWidth 31).toNat < rb.bufferSize.toNat := by
  have hsub : (rb.bufferSize - index).toNat = rb.bufferSize.toNat - index.toNat :=
    toNat_sub_le (Nat.le_of_lt hindex)
  split_ifs with hlt
  · rw [BitVec.lt_def, hsub] at hlt
    rw [BitVec.toNat_setWidth, BitVec.toNat_add]
    omega
  · rw [BitVec.lt_def, hsub] at hlt
    rw [BitVec.toNat_setWidth, toNat_sub_le (by omega)]
    omega

/-- The index after one byte stays below the size. -/
theorem succ_lt {i : BitVec 31} (hi : i.toNat < rb.bufferSize.toNat)
    (hsize : rb.bufferSize.toNat < 2 ^ 31) (hne : i.setWidth 32 ≠ rb.bufferSize - 1) :
    (i + 1).toNat < rb.bufferSize.toNat := by
  have hlast : i.toNat ≠ rb.bufferSize.toNat - 1 := fun e => by
    refine hne (BitVec.eq_of_toNat_eq ?_)
    rw [BitVec.toNat_setWidth, toNat_sub_le (by change 1 ≤ _; omega)]
    change _ % 2 ^ 32 = _ - 1
    omega
  rw [BitVec.toNat_add]
  change (i.toNat + 1) % 2 ^ 31 < _
  omega

theorem inside_nil (n : ℕ) : Inside n [] := fun _ ha => absurd ha List.not_mem_nil

/-- The access to one byte. -/
theorem inside_one {n : ℕ} {offset : BitVec 32} (h : offset.toNat < n) : Inside n [⟨offset, 1⟩] := by
  intro a ha
  obtain rfl := List.mem_singleton.mp ha
  exact h

/-! ## The operations -/

theorem copyIn_bufferSize : (rb.copyIn length).bufferSize = rb.bufferSize := by
  rw [copyIn]
  split_ifs
  · rfl
  · rfl

theorem copyIn_readIndex : (rb.copyIn length).readIndex = rb.readIndex := by
  rw [copyIn]
  split_ifs
  · rfl
  · rfl

/-- Writing `length` bytes keeps the indices in range. -/
theorem InRange.copyIn (h : rb.InRange) (hlength : length.toNat ≤ rb.bufferSize.toNat) :
    (rb.copyIn length).InRange := by
  have hlt := index_lt (by rw [wi_toNat]; exact h.write) hlength h.size
  refine ⟨?_, ?_, ?_⟩
  · rw [copyIn_readIndex, copyIn_bufferSize]
    exact h.read
  · rw [copyIn_bufferSize]
    rw [RingIndex.copyIn]
    split_ifs with hc
    · rw [if_pos hc] at hlt
      exact hlt
    · rw [if_neg hc] at hlt
      exact hlt
  · rw [copyIn_bufferSize]
    exact h.size

theorem flipWrite_bufferSize : rb.flipWrite.bufferSize = rb.bufferSize := by
  rw [flipWrite]
  split_ifs
  · rfl
  · rfl

theorem flipWrite_readIndex : rb.flipWrite.readIndex = rb.readIndex := by
  rw [flipWrite]
  split_ifs
  · rfl
  · rfl

/-- Writing one byte keeps the indices in range. -/
theorem InRange.flipWrite (h : rb.InRange) : rb.flipWrite.InRange := by
  refine ⟨?_, ?_, ?_⟩
  · rw [flipWrite_readIndex, flipWrite_bufferSize]
    exact h.read
  · rw [flipWrite_bufferSize, RingIndex.flipWrite]
    split_ifs with hlast
    · exact Nat.zero_lt_of_lt h.write
    · exact succ_lt h.write h.size hlast
  · rw [flipWrite_bufferSize]
    exact h.size

/-- The lesser of two lengths. -/
theorem clip_le {a b n : BitVec 32} (h : a.toNat ≤ n.toNat) :
    (if a < b then a else b).toNat ≤ n.toNat := by
  split_ifs with hlt
  · exact h
  · rw [BitVec.lt_def] at hlt
    omega

/-- The size is not changed. -/
theorem apply_bufferSize (rb : RingIndex) (op : IndexOp) :
    (rb.apply op).1.bufferSize = rb.bufferSize := by
  cases op with
  | put length =>
    simp only [apply, put]
    split_ifs
    · rfl
    · exact copyIn_bufferSize
    · exact copyIn_bufferSize
  | putForce length =>
    simp only [apply, putForce]
    split_ifs <;> exact copyIn_bufferSize
  | get length =>
    simp only [apply, get]
    split_ifs <;> rfl
  | peek =>
    simp only [apply, peek]
    split_ifs <;> rfl
  | putchar =>
    simp only [apply, putchar]
    split_ifs
    · rfl
    · exact flipWrite_bufferSize
  | putcharForce =>
    simp only [apply, putcharForce]
    split_ifs <;> exact flipWrite_bufferSize
  | getchar =>
    simp only [apply, getchar]
    split_ifs <;> rfl
  | reset => rfl

/-- **Every operation** keeps the indices in range and accesses only the pool. -/
theorem InRange.apply (h : rb.InRange) (op : IndexOp) :
    (rb.apply op).1.InRange ∧ Inside rb.bufferSize.toNat (rb.apply op).2 := by
  have hwi : rb.wi.toNat < rb.bufferSize.toNat := by
    rw [wi_toNat]
    exact h.write
  have hri : rb.ri.toNat < rb.bufferSize.toNat := by
    rw [ri_toNat]
    exact h.read
  cases op with
  | put length =>
    simp only [RingIndex.apply, put]
    by_cases h0 : rb.spaceLen = 0
    · rw [if_pos h0]
      exact ⟨h, inside_nil _⟩
    · rw [if_neg h0]
      have hlength := clip_le (b := length) h.spaceLen_le
      exact ⟨h.copyIn hlength, pieces_inside hwi hlength⟩
  | putForce length =>
    simp only [RingIndex.apply, putForce]
    have hlength := clip_le (b := length) (Nat.le_refl rb.bufferSize.toNat)
    generalize (if rb.bufferSize < length then rb.bufferSize else length) = m at hlength ⊢
    refine ⟨?_, pieces_inside hwi hlength⟩
    have hcopy := h.copyIn hlength
    split_ifs <;> first | exact hcopy | exact ⟨hcopy.write, hcopy.write, hcopy.size⟩
  | get length =>
    simp only [RingIndex.apply, get]
    by_cases h0 : rb.dataLen = 0
    · rw [if_pos h0]
      exact ⟨h, inside_nil _⟩
    · rw [if_neg h0]
      have hlength := clip_le (b := length) h.dataLen_le
      have hlt := index_lt hri hlength h.size
      refine ⟨?_, pieces_inside hri hlength⟩
      by_cases hc : (if rb.dataLen < length then rb.dataLen else length) < rb.bufferSize - rb.ri
      · rw [if_pos hc] at hlt ⊢
        exact ⟨hlt, h.write, h.size⟩
      · rw [if_neg hc] at hlt ⊢
        exact ⟨hlt, h.write, h.size⟩
  | peek =>
    simp only [RingIndex.apply, peek]
    have hlt := index_lt hri h.dataLen_le h.size
    have hpieces := pieces_inside hri h.dataLen_le
    rw [pieces] at hpieces
    split_ifs with h0 hc
    · exact ⟨h, inside_nil _⟩
    · rw [if_pos hc] at hlt hpieces
      exact ⟨⟨hlt, h.write, h.size⟩, hpieces⟩
    · rw [if_neg hc] at hpieces
      refine ⟨⟨Nat.zero_lt_of_lt h.read, h.write, h.size⟩, fun a ha => hpieces a ?_⟩
      exact List.mem_cons.mpr (.inl (List.mem_singleton.mp ha))
  | putchar =>
    simp only [RingIndex.apply, putchar]
    split_ifs
    · exact ⟨h, inside_nil _⟩
    · exact ⟨h.flipWrite, inside_one hwi⟩
  | putcharForce =>
    simp only [RingIndex.apply, putcharForce]
    refine ⟨?_, inside_one hwi⟩
    have hflip := h.flipWrite
    split_ifs <;> first | exact hflip | exact ⟨hflip.write, hflip.write, hflip.size⟩
  | getchar =>
    simp only [RingIndex.apply, getchar]
    split_ifs with h0 hlast
    · exact ⟨h, inside_nil _⟩
    · exact ⟨⟨Nat.zero_lt_of_lt h.read, h.write, h.size⟩, inside_one hri⟩
    · exact ⟨⟨succ_lt h.read h.size hlast, h.write, h.size⟩, inside_one hri⟩
  | reset =>
    have hpos := Nat.zero_lt_of_lt h.read
    exact ⟨⟨hpos, hpos, h.size⟩, inside_nil _⟩

/-! ## All runs -/

/-- The runs from a ring buffer. -/
def ringRuns (rb0 : RingIndex) : System RingIndex IndexOp where
  init rb := rb = rb0
  step rb op := some (rb.apply op).1

variable (rb) in
/-- The indices are below the size, and every operation accesses only the `n` bytes of the pool. -/
structure Safe (n : ℕ) : Prop where
  read : rb.readIndex.toNat < rb.bufferSize.toNat
  write : rb.writeIndex.toNat < rb.bufferSize.toNat
  inside : ∀ op, Inside n (rb.apply op).2

/-- In all runs from indices in range they stay there. -/
theorem InRange.safe {rb0 : RingIndex} (h : rb0.InRange) {n : ℕ} (hn : rb0.bufferSize.toNat ≤ n)
    (hs : (ringRuns rb0).Reach System.anyStep rb) : rb.Safe n := by
  have hinv : rb.InRange ∧ rb.bufferSize = rb0.bufferSize := by
    refine System.Reach.invariant (I := fun rb : RingIndex =>
      rb.InRange ∧ rb.bufferSize = rb0.bufferSize) ?_ ?_ hs
    · rintro _ rfl
      exact ⟨h, rfl⟩
    · intro s op s' hI _ hstep
      cases hstep
      exact ⟨(hI.1.apply op).1, (apply_bufferSize s op).trans hI.2⟩
  refine ⟨hinv.1.read, hinv.1.write, fun op a ha => ?_⟩
  have ha' := (hinv.1.apply op).2 a ha
  rw [hinv.2] at ha'
  omega

/-- What `rt_ringbuffer_init` makes of a size. -/
theorem init_eq {size : BitVec 32} (h : 0 < size.toInt) : ∃ rb0, init size = some rb0 ∧
    rb0.readIndex = 0 ∧ rb0.writeIndex = 0 ∧
    rb0.bufferSize.toNat = rtAlignDown size.toNat ∧ size.toNat < 2 ^ 31 := by
  have hlt : size.toNat < 2 ^ 31 := by
    rw [BitVec.toInt_eq_toNat_cond] at h
    split_ifs at h <;> omega
  refine ⟨_, if_pos h, rfl, rfl, ?_, hlt⟩
  change (BitVec.ofNat 32 (rtAlignDown size.toNat)).toNat = _
  rw [BitVec.toNat_ofNat, Nat.mod_eq_of_lt]
  rw [rtAlignDown]
  omega

/-- A buffer that is created has been initialised. -/
theorem init_of_create {size : BitVec 32} {rbMalloc poolMalloc : Bool} {rb0 : RingIndex}
    (h : create size rbMalloc poolMalloc = some (some rb0)) :
    init (BitVec.ofNat 32 (rtAlignDown size.toNat)) = some rb0 := by
  rw [create] at h
  dsimp only at h
  split_ifs at h
  · cases Option.some.inj h
  · cases Option.some.inj h
  · obtain ⟨rb1, h1, he⟩ := Option.map_eq_some_iff.mp h
    exact Option.some.inj he ▸ h1

/-- **The ring buffer stays inside its pool** in all runs exactly when its size is at least
`RT_ALIGN_SIZE`. One that `rt_ringbuffer_create` delivers has such a size. -/
theorem ringbuffer_inside (size : BitVec 32) :
    (0 < size.toInt → ∃ rb0, init size = some rb0 ∧
      ((∀ rb, (ringRuns rb0).Reach System.anyStep rb → rb.Safe size.toNat) ↔
        rtAlignSize ≤ size.toNat)) ∧
    ∀ (rbMalloc poolMalloc : Bool) (rb0 : RingIndex),
      create size rbMalloc poolMalloc = some (some rb0) →
        ∀ rb, (ringRuns rb0).Reach System.anyStep rb → rb.Safe (rtAlignDown size.toNat) := by
  have hstart : ∀ {size : BitVec 32}, 0 < size.toInt → rtAlignSize ≤ size.toNat →
      ∀ {rb0}, init size = some rb0 →
        rb0.InRange ∧ rb0.bufferSize.toNat = rtAlignDown size.toNat := by
    intro size hpos hle rb0 h0
    obtain ⟨rb1, h1, hr, hw, hsize, hlt⟩ := init_eq hpos
    obtain rfl : rb1 = rb0 := Option.some.inj (h1.symm.trans h0)
    have hdown : 0 < rtAlignDown size.toNat ∧ rtAlignDown size.toNat ≤ size.toNat := by
      change 8 ≤ _ at hle
      change 0 < _ - _ % 8 ∧ _ - _ % 8 ≤ _
      omega
    refine ⟨⟨?_, ?_, by omega⟩, hsize⟩
    · rw [hr, hsize]
      exact hdown.1
    · rw [hw, hsize]
      exact hdown.1
  constructor
  · intro hpos
    obtain ⟨rb0, h0, hr, -, hsize, -⟩ := init_eq hpos
    refine ⟨rb0, h0, fun h => ?_, fun hle rb hs => ?_⟩
    · have hread := (h rb0 (.init rfl)).read
      rw [hr, hsize] at hread
      change 0 < size.toNat - size.toNat % 8 at hread
      change 8 ≤ _
      omega
    · obtain ⟨hin, hsize'⟩ := hstart hpos hle h0
      refine hin.safe ?_ hs
      rw [hsize', rtAlignDown]
      omega
  · intro rbMalloc poolMalloc rb0 h0 rb hs
    have h1 := init_of_create h0
    have hpos : 0 < (BitVec.ofNat 32 (rtAlignDown size.toNat)).toInt := by
      by_contra hno
      rw [init, if_neg hno] at h1
      cases h1
    have hsmall : rtAlignDown size.toNat < 2 ^ 32 := by
      have := size.isLt
      rw [rtAlignDown]
      omega
    have htoNat : (BitVec.ofNat 32 (rtAlignDown size.toNat)).toNat = rtAlignDown size.toNat := by
      rw [BitVec.toNat_ofNat, Nat.mod_eq_of_lt hsmall]
    have hne : rtAlignDown size.toNat ≠ 0 := fun e => by
      rw [e] at hpos
      exact absurd hpos (by decide)
    have hmod := rtAlignDown_mod size.toNat
    have hle : rtAlignSize ≤ (BitVec.ofNat 32 (rtAlignDown size.toNat)).toNat := by
      rw [htoNat]
      change 8 ≤ _
      change _ % 8 = 0 at hmod
      omega
    obtain ⟨hin, hsize⟩ := hstart hpos hle h1
    refine hin.safe ?_ hs
    rw [hsize, htoNat, rtAlignDown]
    omega

/-- A ring buffer of sixteen bytes, and a created one. -/
theorem ringbuffer_inside_sixteen :
    (∃ rb0, init 16 = some rb0 ∧
      ∀ rb, (ringRuns rb0).Reach System.anyStep rb → rb.Safe 16) ∧
    ∃ rb0, create 20 true true = some (some rb0) ∧
      ∀ rb, (ringRuns rb0).Reach System.anyStep rb → rb.Safe 16 := by
  obtain ⟨rb0, h0, hiff⟩ := (ringbuffer_inside 16).1 (by decide)
  exact ⟨⟨rb0, h0, hiff.mpr (by decide)⟩, _, rfl, (ringbuffer_inside 20).2 true true _ rfl⟩

/-- **A ring buffer of four bytes**: its size is zero, and the fifth byte is written behind the
pool. -/
theorem ringbuffer_outside : ∃ rb0, init 4 = some rb0 ∧
    ∃ rb, (ringRuns rb0).Reach System.anyStep rb ∧ ¬ Inside 4 (rb.apply .putcharForce).2 := by
  obtain ⟨rb0, h0⟩ : ∃ rb0 : RingIndex, rb0 = ⟨false, 0, false, 0, 0⟩ := ⟨_, rfl⟩
  refine ⟨rb0, by rw [h0]; rfl, ?_⟩
  obtain ⟨rb, hrb, hp⟩ := (ringRuns rb0).exists_reach System.anyStep
    (fun rb => decide ((rb.apply .putcharForce).2 = [⟨4, 1⟩])) (s := rb0) rfl
    [.putcharForce, .putcharForce, .putcharForce, .putcharForce] (by rw [h0]; decide)
  refine ⟨rb, hrb, fun h => ?_⟩
  have hmem := h ⟨4, 1⟩ (by rw [of_decide_eq_true hp]; exact List.mem_singleton_self _)
  exact absurd hmem (by decide)

end RingIndex

end RtThread
