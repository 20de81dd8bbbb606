import RtThread.Ipc.Mempool
import RtThread.Lib.Words

/-!
# Setting up a memory pool in its area

`rt_mp_init` writes one word into every block, and then the null link of the last one. Here it does
so in a memory of bytes, with the wrapping arithmetic of the code, for any area and any sizes.

* `rtMpInit`, with the stores `mpInitStores`; `MpLaidOut`: nothing outside of the area has been
  written, and the free list has the blocks, apart from each other in the area;
* `MpArea`: an area with one block at least; `loadWord_first`, `loadWord_last`: what the stores leave;
* **`mp_init_area`**: the sizes and areas for which the pool is laid out;
* `rtMpInit_mpInit`, **`mp_init_refines`**: the words and the fields are those of `mpInit`.
-/

namespace RtThread

/-- What `rt_mp_init` sets in a `struct rt_mempool`. -/
structure MpFields where
  startAddress : BitVec 32
  size : BitVec 32
  blockSize : BitVec 32
  blockList : BitVec 32
  blockTotalCount : BitVec 32
  blockFreeCount : BitVec 32
  deriving DecidableEq, Repr

/-- A pointer; null is zero. -/
def asPointer (v : BitVec 32) : Option (BitVec 32) := if v = 0 then none else some v

/-- The stores of the loop of `rt_mp_init`, and the one behind it. -/
def mpInitStores (start stride total : BitVec 32) : List (BitVec 32 × BitVec 32) :=
  ((List.range total.toNat).map fun offset =>
    (start + BitVec.ofNat 32 offset * stride, start + (BitVec.ofNat 32 offset + 1) * stride)) ++
  [(start + (total - 1) * stride, 0)]

/-- `rt_mp_init`. There is no result when an assertion fails. -/
def rtMpInit (mem : ByteMemory) (start size blockSize : BitVec 32) :
    Option (MpFields × ByteMemory) :=
  if start ≠ 0 ∧ size ≠ 0 ∧ blockSize ≠ 0 then
    let size := BitVec.ofNat 32 (rtAlignDown size.toNat)
    let blockSize := BitVec.ofNat 32 (rtAlign blockSize.toNat)
    let total := size / (blockSize + 4)
    some ({ startAddress := start, size := size, blockSize := blockSize, blockList := start
            blockTotalCount := total, blockFreeCount := total },
      storeWords mem (mpInitStores start (blockSize + 4) total))
  else none

/-- The pool lies in its area: no other byte has been written, and `block_list` has all of the blocks,
of `n` bytes and the word before them, apart from each other in the area. -/
structure MpLaidOut (mem mem' : ByteMemory) (mp : MpFields) (start size : BitVec 32) (n : ℕ) :
    Prop where
  written : ∀ x, size.toNat ≤ (x - start).toNat → mem' x = mem x
  blocks : ∃ l, NextChain (fun b => asPointer (loadWord mem' b)) (asPointer mp.blockList) l ∧
    l.length = mp.blockTotalCount.toNat ∧
    (∀ b ∈ l, (b - start).toNat + (n + pointerSize) ≤ size.toNat) ∧
    l.Pairwise fun b c => (b - start).toNat + (n + pointerSize) ≤ (c - start).toNat ∨
      (c - start).toNat + (n + pointerSize) ≤ (b - start).toNat

/-- The bytes from one block to the next. -/
def mpStride (blockSize : BitVec 32) : ℕ := rtAlign blockSize.toNat + pointerSize

/-- The number of blocks. -/
def mpCount (size blockSize : BitVec 32) : ℕ := rtAlignDown size.toNat / mpStride blockSize

/-- The area has room for a block, and no block lies at the address zero. -/
def MpFits (start size blockSize : BitVec 32) : Prop :=
  mpStride blockSize ≤ rtAlignDown size.toNat ∧
    ∀ k < mpCount size blockSize, (start.toNat + k * mpStride blockSize) % 2 ^ 32 ≠ 0

instance (start size blockSize : BitVec 32) : Decidable (MpFits start size blockSize) :=
  inferInstanceAs (Decidable (_ ∧ _))

/-! ## The blocks and the words in them -/

/-- The address of a block. -/
def mpBlock (start : BitVec 32) (stride k : ℕ) : BitVec 32 := start + BitVec.ofNat 32 (k * stride)

section

variable {mem : ByteMemory} {start v : BitVec 32} {stride n k j : ℕ}

theorem mpBlock_sub (h : k * stride < 2 ^ 32) : (mpBlock start stride k - start).toNat = k * stride := by
  rw [mpBlock, BitVec.add_comm, BitVec.add_sub_cancel, BitVec.toNat_ofNat, Nat.mod_eq_of_lt h]

theorem mpBlock_toNat : (mpBlock start stride k).toNat = (start.toNat + k * stride) % 2 ^ 32 := by
  rw [mpBlock, BitVec.toNat_add, BitVec.toNat_ofNat, Nat.add_mod_mod]

theorem mpBlock_zero : mpBlock start stride 0 = start := by
  rw [mpBlock, Nat.zero_mul]
  exact BitVec.add_zero start

/-- The code's expression for the address of a block. -/
theorem mpBlock_eq :
    start + BitVec.ofNat 32 k * BitVec.ofNat 32 stride = mpBlock start stride k := by
  rw [mpBlock]
  congr 1
  apply BitVec.eq_of_toNat_eq
  rw [BitVec.toNat_mul, BitVec.toNat_ofNat, BitVec.toNat_ofNat, BitVec.toNat_ofNat, ← Nat.mul_mod]

/-- Different blocks have different words. -/
theorem mpBlock_apart (hs : 4 ≤ stride) (hn : n * stride < 2 ^ 32) (hk : k < n) (hj : j < n)
    (hne : k ≠ j) : WordsApart (mpBlock start stride k) (mpBlock start stride j) := by
  have hmul : ∀ i, i < n → i * stride + stride ≤ n * stride := fun i hi => by
    rw [← Nat.succ_mul]
    exact Nat.mul_le_mul_right _ hi
  have hk' := hmul k hk
  have hj' := hmul j hj
  have hsub : mpBlock start stride j - mpBlock start stride k =
      BitVec.ofNat 32 (j * stride) - BitVec.ofNat 32 (k * stride) := add_sub_add_left_eq_sub _ _ _
  rw [WordsApart, hsub, BitVec.toNat_sub, BitVec.toNat_ofNat, BitVec.toNat_ofNat,
    Nat.mod_eq_of_lt (by omega : j * stride < 2 ^ 32), Nat.mod_eq_of_lt (by omega : k * stride < 2 ^ 32)]
  rcases Nat.lt_or_gt_of_ne hne with hlt | hlt
  · have hle : k * stride + stride ≤ j * stride := by
      rw [← Nat.succ_mul]
      exact Nat.mul_le_mul_right _ hlt
    omega
  · have hle : j * stride + stride ≤ k * stride := by
      rw [← Nat.succ_mul]
      exact Nat.mul_le_mul_right _ hlt
    omega

/-- The stores of a pool with one block at least, by the blocks. -/
theorem mpInitStores_eq (hn : 0 < n) (hn' : n < 2 ^ 32) :
    mpInitStores start (BitVec.ofNat 32 stride) (BitVec.ofNat 32 n) =
      ((List.range n).map fun k => (mpBlock start stride k, mpBlock start stride (k + 1))) ++
        [(mpBlock start stride (n - 1), 0)] := by
  have hlast : BitVec.ofNat 32 n - 1 = BitVec.ofNat 32 (n - 1) := by
    apply BitVec.eq_of_toNat_eq
    have h1 : (1 : BitVec 32).toNat = 1 := rfl
    rw [BitVec.toNat_sub, BitVec.toNat_ofNat, BitVec.toNat_ofNat, h1]
    omega
  have hsucc : ∀ k, BitVec.ofNat 32 k + 1 = BitVec.ofNat 32 (k + 1) := fun k =>
    (BitVec.ofNat_add k 1).symm
  rw [mpInitStores, BitVec.toNat_ofNat, Nat.mod_eq_of_lt hn', hlast, mpBlock_eq]
  simp only [hsucc, mpBlock_eq]

/-- Every block but the last one is linked to the next. -/
theorem loadWord_first (hs : 4 ≤ stride) (hn : n * stride < 2 ^ 32) (hk : k + 1 < n) :
    loadWord (storeWords mem (((List.range n).map fun k =>
      (mpBlock start stride k, mpBlock start stride (k + 1))) ++
        [(mpBlock start stride (n - 1), 0)])) (mpBlock start stride k) =
      mpBlock start stride (k + 1) := by
  refine loadWord_storeWords ?_ fun s hs' => ?_
  · refine List.mem_append_left _ (List.mem_map.mpr ⟨k, List.mem_range.mpr (by omega), rfl⟩)
  · rcases List.mem_append.mp hs' with hs' | hs'
    · obtain ⟨j, hj, rfl⟩ := List.mem_map.mp hs'
      by_cases hjk : j = k
      · exact .inl (by rw [hjk])
      · exact .inr (mpBlock_apart hs hn (List.mem_range.mp hj) (by omega) hjk)
    · rw [List.mem_singleton.mp hs']
      exact .inr (mpBlock_apart hs hn (by omega) (by omega) (by omega))

/-- The last block has the null link. -/
theorem loadWord_last {l : List (BitVec 32 × BitVec 32)} : loadWord (storeWords mem (l ++
    [(mpBlock start stride (n - 1), 0)])) (mpBlock start stride (n - 1)) = 0 := by
  rw [storeWords_append]
  exact loadWord_storeWord

/-- Bytes outside of the area are kept. -/
theorem mpInitStores_out {x : BitVec 32} (hs : 4 ≤ stride) (hn : 0 < n) (hn' : n * stride < 2 ^ 32)
    (hx : n * stride ≤ (x - start).toNat) :
    storeWords mem (((List.range n).map fun k =>
      (mpBlock start stride k, mpBlock start stride (k + 1))) ++
        [(mpBlock start stride (n - 1), 0)]) x = mem x := by
  have hout : ∀ k, k < n → ¬(x - mpBlock start stride k).toNat < 4 := fun k hk => by
    have hle : k * stride + stride ≤ n * stride := by
      rw [← Nat.succ_mul]
      exact Nat.mul_le_mul_right _ hk
    have hsub : x - mpBlock start stride k = x - start - BitVec.ofNat 32 (k * stride) := sub_add_eq_sub_sub _ _ _
    have hx' := (x - start).isLt
    rw [hsub, BitVec.toNat_sub, BitVec.toNat_ofNat, Nat.mod_eq_of_lt (by omega : k * stride < 2 ^ 32)]
    omega
  refine storeWords_out fun s hs' => ?_
  rcases List.mem_append.mp hs' with hs' | hs'
  · obtain ⟨k, hk, rfl⟩ := List.mem_map.mp hs'
    exact hout k (List.mem_range.mp hk)
  · rw [List.mem_singleton.mp hs']
    exact hout _ (by omega)

/-! ## The list of the blocks -/

/-- The pointer to a block. -/
theorem asPointer_of_ne (h : v ≠ 0) : asPointer v = some v := if_neg h

/-- **A pool with room is laid out.** -/
theorem laidOut {mem' : ByteMemory} {mp : MpFields} {size : BitVec 32} {m : ℕ} (hs : 4 ≤ stride)
    (hn : 0 < n) (hsize : n * stride ≤ size.toNat) (hnull : ∀ k < n, mpBlock start stride k ≠ 0)
    (hlist : mp.blockList = start) (htotal : mp.blockTotalCount.toNat = n) (hm : m + pointerSize ≤ stride)
    (hmem : mem' = storeWords mem (((List.range n).map fun k =>
      (mpBlock start stride k, mpBlock start stride (k + 1))) ++
        [(mpBlock start stride (n - 1), 0)])) : MpLaidOut mem mem' mp start size m := by
  have hlt : n * stride < 2 ^ 32 := Nat.lt_of_le_of_lt hsize size.isLt
  have hmul : ∀ {i k}, i < k → i * stride + stride ≤ k * stride := fun {i k} hi => by
    rw [← Nat.succ_mul]
    exact Nat.mul_le_mul_right _ hi
  have hsub : ∀ k < n, (mpBlock start stride k - start).toNat = k * stride := fun k hk => by
    have := hmul hk
    exact mpBlock_sub (by omega)
  refine ⟨fun x hx => ?_, (List.range n).map (mpBlock start stride), ?_, ?_, fun b hb => ?_, ?_⟩
  · rw [hmem]
    exact mpInitStores_out hs hn hlt (Nat.le_trans hsize hx)
  · have h0 : asPointer start = some (mpBlock start stride 0) := by
      have hne := hnull 0 hn
      rw [mpBlock_zero] at hne ⊢
      exact asPointer_of_ne hne
    rw [hlist, h0]
    refine NextChain.ofRange (mpBlock start stride) hn (fun k hk => ?_) ?_
    · rw [hmem, loadWord_first hs hlt hk]
      exact asPointer_of_ne (hnull _ hk)
    · rw [hmem, loadWord_last]
      rfl
  · rw [List.length_map, List.length_range, htotal]
  · obtain ⟨k, hk, rfl⟩ := List.mem_map.mp hb
    have hk' := List.mem_range.mp hk
    have := hmul hk'
    rw [hsub k hk']
    omega
  · rw [List.pairwise_map]
    refine List.Pairwise.imp_of_mem ?_ List.pairwise_lt_range
    intro j k hj hk hjk
    have := hmul hjk
    rw [hsub j (List.mem_range.mp hj), hsub k (List.mem_range.mp hk)]
    left
    omega

/-- The free list of a pool has no block at the address zero. -/
theorem NextChain.mpBlock_ne {mem' : ByteMemory} {l : List (BitVec 32)} (hs : 4 ≤ stride)
    (hlt : n * stride < 2 ^ 32)
    (hmem : mem' = storeWords mem (((List.range n).map fun k =>
      (mpBlock start stride k, mpBlock start stride (k + 1))) ++
        [(mpBlock start stride (n - 1), 0)]))
    (hl : NextChain (fun b => asPointer (loadWord mem' b)) (asPointer (mpBlock start stride j)) l)
    (hlen : l.length + j = n) (hk : j ≤ k) (hk' : k < n) : mpBlock start stride k ≠ 0 := by
  induction l generalizing j with
  | nil =>
    rw [List.length_nil] at hlen
    omega
  | cons b l ih =>
    have hne : mpBlock start stride j ≠ 0 := fun h0 => by
      rw [asPointer, if_pos h0] at hl
      cases hl
    rw [asPointer_of_ne hne] at hl
    obtain ⟨t, he, htail⟩ := hl.pop
    cases he
    rw [List.length_cons] at hlen
    rcases Nat.eq_or_lt_of_le hk with rfl | hjk
    · exact hne
    · rw [hmem, loadWord_first hs hlt (by omega), ← hmem] at htail
      exact ih htail (by omega) hjk

/-- The list is not empty when it begins at `start`, which is not null. -/
theorem MpLaidOut.pos {mem' : ByteMemory} {mp : MpFields} {size : BitVec 32} {m : ℕ}
    (h : MpLaidOut mem mem' mp start size m) (hlist : mp.blockList = start) (h0 : start ≠ 0) :
    0 < mp.blockTotalCount.toNat := by
  obtain ⟨l, hl, hlen, -⟩ := h.blocks
  rw [hlist, asPointer_of_ne h0] at hl
  obtain ⟨t, rfl, -⟩ := hl.pop
  rw [← hlen]
  exact Nat.succ_pos _

/-- Two blocks need twice the room. -/
theorem MpLaidOut.two {mem' : ByteMemory} {mp : MpFields} {size : BitVec 32} {m : ℕ}
    (h : MpLaidOut mem mem' mp start size m) (htwo : 2 ≤ mp.blockTotalCount.toNat) :
    2 * (m + pointerSize) ≤ size.toNat := by
  obtain ⟨l, -, hlen, hin, happart⟩ := h.blocks
  match l, hlen, hin, happart with
  | [], hlen, _, _ => rw [← hlen] at htwo; cases htwo
  | [b], hlen, _, _ => rw [← hlen] at htwo; exact absurd htwo (by simp)
  | b :: c :: l, _, hin, happart =>
    have h1 := hin b List.mem_cons_self
    have h2 := hin c (List.mem_cons_of_mem _ List.mem_cons_self)
    have h3 := (List.pairwise_cons.mp happart).1 c List.mem_cons_self
    omega

end

/-! ## The pool that is set up -/

section

variable {mem : ByteMemory} {start size blockSize : BitVec 32}

theorem rtAlign_le (n : ℕ) : rtAlign n ≤ 2 ^ 32 - 8 := by
  change (n + 7) % 2 ^ 32 - (n + 7) % 2 ^ 32 % 8 ≤ 2 ^ 32 - 8
  omega

theorem mpStride_bounds (blockSize : BitVec 32) : 4 ≤ mpStride blockSize ∧ mpStride blockSize < 2 ^ 32 := by
  have := rtAlign_le blockSize.toNat
  change 4 ≤ rtAlign blockSize.toNat + 4 ∧ rtAlign blockSize.toNat + 4 < 2 ^ 32
  omega

theorem mpCount_le (size blockSize : BitVec 32) : mpCount size blockSize * mpStride blockSize ≤ size.toNat :=
  Nat.le_trans (Nat.div_mul_le_self _ _) (Nat.sub_le _ _)

theorem mpCount_pos : 0 < mpCount size blockSize ↔ mpStride blockSize ≤ rtAlignDown size.toNat := by
  have := (mpStride_bounds blockSize).1
  exact Nat.div_pos_iff.trans ⟨fun h => h.2, fun h => ⟨by omega, h⟩⟩

/-- `MpFits`, by the blocks. -/
theorem mpFits_iff : MpFits start size blockSize ↔ 0 < mpCount size blockSize ∧
    ∀ k < mpCount size blockSize, mpBlock start (mpStride blockSize) k ≠ 0 := by
  rw [MpFits, ← mpCount_pos]
  refine and_congr_right fun _ => forall_congr' fun k => imp_congr_right fun _ => not_congr ?_
  rw [← mpBlock_toNat]
  exact ⟨fun h => BitVec.eq_of_toNat_eq h, fun h => by rw [h]; rfl⟩

/-- **An area that lies in the address space** has to have room for a block, and nothing more. -/
theorem mpFits_of_area (h0 : start ≠ 0) (harea : start.toNat + size.toNat ≤ 2 ^ 32) :
    MpFits start size blockSize ↔ mpStride blockSize ≤ rtAlignDown size.toNat := by
  refine and_iff_left fun k hk => ?_
  have hle := mpCount_le size blockSize
  have hmul : (k + 1) * mpStride blockSize ≤ mpCount size blockSize * mpStride blockSize :=
    Nat.mul_le_mul_right _ hk
  have hpos := (mpStride_bounds blockSize).1
  have hstart : start.toNat ≠ 0 := fun h => h0 (BitVec.eq_of_toNat_eq h)
  rw [Nat.succ_mul] at hmul
  rw [Nat.mod_eq_of_lt (by omega)]
  omega

/-- The pool that `rt_mp_init` sets up. -/
def mpFields (start size blockSize : BitVec 32) : MpFields where
  startAddress := start
  size := BitVec.ofNat 32 (rtAlignDown size.toNat)
  blockSize := BitVec.ofNat 32 (rtAlign blockSize.toNat)
  blockList := start
  blockTotalCount := BitVec.ofNat 32 (mpCount size blockSize)
  blockFreeCount := BitVec.ofNat 32 (mpCount size blockSize)

theorem rtMpInit_eq (h0 : start ≠ 0) (h1 : size ≠ 0) (h2 : blockSize ≠ 0) :
    rtMpInit mem start size blockSize = some (mpFields start size blockSize,
      storeWords mem (mpInitStores start (BitVec.ofNat 32 (mpStride blockSize))
        (BitVec.ofNat 32 (mpCount size blockSize)))) := by
  have hstride : BitVec.ofNat 32 (rtAlign blockSize.toNat) + 4 =
      BitVec.ofNat 32 (mpStride blockSize) := (BitVec.ofNat_add _ 4).symm
  have hdown : rtAlignDown size.toNat < 2 ^ 32 := Nat.lt_of_le_of_lt (Nat.sub_le _ _) size.isLt
  have htotal : BitVec.ofNat 32 (rtAlignDown size.toNat) / BitVec.ofNat 32 (mpStride blockSize) =
      BitVec.ofNat 32 (mpCount size blockSize) := by
    apply BitVec.eq_of_toNat_eq
    rw [BitVec.toNat_udiv, BitVec.toNat_ofNat, BitVec.toNat_ofNat, BitVec.toNat_ofNat,
      Nat.mod_eq_of_lt hdown, Nat.mod_eq_of_lt (mpStride_bounds blockSize).2]
    exact (Nat.mod_eq_of_lt (Nat.lt_of_le_of_lt (Nat.div_le_self _ _) hdown)).symm
  rw [rtMpInit, if_pos ⟨h0, h1, h2⟩]
  dsimp only
  rw [hstride, htotal]
  rfl

theorem mpFields_total : (mpFields start size blockSize).blockTotalCount.toNat =
    mpCount size blockSize := by
  have hlt := Nat.lt_of_le_of_lt (mpCount_le size blockSize) size.isLt
  have hpos := (mpStride_bounds blockSize).1
  have hle : mpCount size blockSize ≤ mpCount size blockSize * mpStride blockSize :=
    Nat.le_mul_of_pos_right _ (by omega)
  exact (BitVec.toNat_ofNat _ _).trans (Nat.mod_eq_of_lt (by omega))

/-- **What is laid out**, for blocks of `m` bytes. -/
theorem laidOut_iff {m : ℕ} (h0 : start ≠ 0) (hm : m + pointerSize ≤ mpStride blockSize) {mem' : ByteMemory}
    (hmem : mem' = storeWords mem (mpInitStores start (BitVec.ofNat 32 (mpStride blockSize))
      (BitVec.ofNat 32 (mpCount size blockSize)))) :
    MpLaidOut mem mem' (mpFields start size blockSize) start size m ↔
      MpFits start size blockSize := by
  obtain ⟨hs, hs'⟩ := mpStride_bounds blockSize
  have hle := mpCount_le size blockSize
  have hlt : mpCount size blockSize * mpStride blockSize < 2 ^ 32 :=
    Nat.lt_of_le_of_lt hle size.isLt
  rw [mpFits_iff]
  by_cases hn : 0 < mpCount size blockSize
  · have hcount : mpCount size blockSize < 2 ^ 32 := by
      have := Nat.le_mul_of_pos_right (mpCount size blockSize) (by omega : 0 < mpStride blockSize)
      omega
    rw [mpInitStores_eq hn hcount] at hmem
    constructor
    · intro h
      obtain ⟨l, hl, hlen, -⟩ := h.blocks
      rw [mpFields_total] at hlen
      have hl' : NextChain (fun b => asPointer (loadWord mem' b))
          (asPointer (mpBlock start (mpStride blockSize) 0)) l := by
        rw [mpBlock_zero]
        exact hl
      exact ⟨hn, fun k hk => hl'.mpBlock_ne hs hlt hmem hlen (Nat.zero_le k) hk⟩
    · rintro ⟨-, hnull⟩
      exact laidOut hs hn hle hnull rfl mpFields_total hm hmem
  · refine ⟨fun h => ?_, fun h => absurd h.1 hn⟩
    have hpos := h.pos rfl h0
    rw [mpFields_total] at hpos
    exact absurd hpos hn

/-- Blocks of the size asked for do not fit when that size wraps. -/
theorem not_laidOut_wrap {mem' : ByteMemory} (h0 : start ≠ 0)
    (hbig : ¬blockSize.toNat ≤ 2 ^ 32 - rtAlignSize)
    (h : MpLaidOut mem mem' (mpFields start size blockSize) start size blockSize.toNat) : False := by
  have hwrap : mpStride blockSize = 4 := by
    have hlt := blockSize.isLt
    change ¬blockSize.toNat ≤ 2 ^ 32 - 8 at hbig
    change (blockSize.toNat + 7) % 2 ^ 32 - (blockSize.toNat + 7) % 2 ^ 32 % 8 + 4 = 4
    omega
  have hcount : mpCount size blockSize = rtAlignDown size.toNat / 4 := by rw [mpCount, hwrap]
  have hdown : rtAlignDown size.toNat % 8 = 0 := rtAlignDown_mod _
  have hsize := size.isLt
  change ¬blockSize.toNat ≤ 2 ^ 32 - 8 at hbig
  by_cases htwo : 2 ≤ mpCount size blockSize
  · have h2 := h.two (mpFields_total ▸ htwo)
    change 2 * (blockSize.toNat + 4) ≤ size.toNat at h2
    omega
  · have hpos := h.pos rfl h0
    rw [mpFields_total] at hpos
    omega

end

/-- **Setting up a memory pool.** For every area and all sizes that pass the assertions: nothing but
the area is written and `block_list` has the blocks that have been counted, each with its word and
the pool's block size, exactly when there is room for one and none lies at the address zero; they
have the size that was asked for, exactly when besides `RT_ALIGN` does not wrap. -/
theorem mp_init_area (mem : ByteMemory) {start size blockSize : BitVec 32} (h0 : start ≠ 0)
    (h1 : size ≠ 0) (h2 : blockSize ≠ 0) :
    ∃ mp mem', rtMpInit mem start size blockSize = some (mp, mem') ∧
      (MpLaidOut mem mem' mp start size mp.blockSize.toNat ↔ MpFits start size blockSize) ∧
      (MpLaidOut mem mem' mp start size blockSize.toNat ↔
        MpFits start size blockSize ∧ blockSize.toNat ≤ 2 ^ 32 - rtAlignSize) := by
  refine ⟨_, _, rtMpInit_eq h0 h1 h2, ?_, ?_⟩
  · refine laidOut_iff h0 (Nat.le_of_eq ?_) rfl
    have hle := rtAlign_le blockSize.toNat
    change (BitVec.ofNat 32 (rtAlign blockSize.toNat)).toNat + 4 = rtAlign blockSize.toNat + 4
    rw [BitVec.toNat_ofNat, Nat.mod_eq_of_lt (by omega)]
  · by_cases hle : blockSize.toNat ≤ 2 ^ 32 - rtAlignSize
    · rw [laidOut_iff h0 (Nat.add_le_add_right (le_rtAlign hle) _) rfl, and_iff_left hle]
    · exact ⟨fun h => (not_laidOut_wrap h0 hle h).elim, fun h => absurd h.2 hle⟩

/-- Two blocks of 12 bytes, in an area of 40. -/
theorem mp_init_area40 : MpFits 0x20001000 40 12 ∧
    ∃ mp mem', rtMpInit (fun _ => 0) 0x20001000 40 12 = some (mp, mem') ∧
      (MpLaidOut (fun _ => 0) mem' mp 0x20001000 40 mp.blockSize.toNat ↔ MpFits 0x20001000 40 12) ∧
      (MpLaidOut (fun _ => 0) mem' mp 0x20001000 40 12 ↔
        MpFits 0x20001000 40 12 ∧ 12 ≤ 2 ^ 32 - rtAlignSize) :=
  ⟨by decide, mp_init_area _ (by decide) (by decide) (by decide)⟩

/-- An area of 8 bytes has no room for a block of 8: the null link is written 12 bytes before the area,
and `block_list` is not null. -/
theorem mp_init_small : ∃ mp mem', rtMpInit (fun _ => 1) 0x20001000 8 8 = some (mp, mem') ∧
    mem' 0x20000FF4 = 0 ∧ mp.blockTotalCount = 0 ∧ mp.blockList = 0x20001000 ∧
    ¬MpLaidOut (fun _ => 1) mem' mp 0x20001000 8 mp.blockSize.toNat := by
  refine ⟨_, _, rtMpInit_eq (by decide) (by decide) (by decide), by decide, by decide, rfl, fun h => ?_⟩
  exact absurd (h.pos rfl (by decide)) (by decide)

/-- **The words are those of `mpInit`**, when the pool has a block. -/
theorem rtMpInit_mpInit {P : Type} (header : ℕ → MpWord P) {mem mem' : ByteMemory} {mp : MpFields}
    {start size blockSize : BitVec 32} (h : rtMpInit mem start size blockSize = some (mp, mem'))
    (harea : start.toNat + size.toNat ≤ 2 ^ 32) (hroom : MpFits start size blockSize) {k : ℕ}
    (hk : k < mpCount size blockSize) :
    (mpInit header start.toNat size.toNat blockSize.toNat).2 (start.toNat + k * mpStride blockSize) =
      .next ((asPointer (loadWord mem' (mpBlock start (mpStride blockSize) k))).map BitVec.toNat) := by
  have hnonzero : start ≠ 0 ∧ size ≠ 0 ∧ blockSize ≠ 0 := by
    by_contra hnot
    rw [rtMpInit, if_neg hnot] at h
    cases h
  rw [rtMpInit_eq hnonzero.1 hnonzero.2.1 hnonzero.2.2] at h
  cases h
  obtain ⟨hs, hs'⟩ := mpStride_bounds blockSize
  obtain ⟨hn, hnull⟩ := mpFits_iff.mp hroom
  have hle := mpCount_le size blockSize
  have hlt : mpCount size blockSize * mpStride blockSize < 2 ^ 32 :=
    Nat.lt_of_le_of_lt hle size.isLt
  have hcount : mpCount size blockSize < 2 ^ 32 := by
    have := Nat.le_mul_of_pos_right (mpCount size blockSize) (by omega : 0 < mpStride blockSize)
    omega
  have hword : (mpInit header start.toNat size.toNat blockSize.toNat).2
      (start.toNat + k * mpStride blockSize) = _ :=
    mpFormat_apply header start.toNat (mpStride blockSize) (by omega) hk
  rw [hword, mpInitStores_eq hn hcount]
  change (if k = mpCount size blockSize - 1 then _ else _) = _
  by_cases hlast : k = mpCount size blockSize - 1
  · rw [if_pos hlast, hlast, loadWord_last]
    rfl
  · have hk' : k + 1 < mpCount size blockSize := by omega
    have hmul : (k + 1 + 1) * mpStride blockSize ≤ mpCount size blockSize * mpStride blockSize :=
      Nat.mul_le_mul_right _ hk'
    rw [Nat.succ_mul] at hmul
    rw [if_neg hlast, loadWord_first hs hlt hk', asPointer_of_ne (hnull _ hk'), Option.map_some,
      mpBlock_toNat, Nat.mod_eq_of_lt (by omega)]

/-- **The pool in bytes is the pool of the conservation law.** In an area of the address space with room
for a block, `rt_mp_init` sets the fields and writes the words that `mpInit` has. -/
theorem mp_init_refines {P : Type} (header : ℕ → MpWord P) {mem mem' : ByteMemory} {mp : MpFields}
    {start size blockSize : BitVec 32} (h : rtMpInit mem start size blockSize = some (mp, mem'))
    (harea : start.toNat + size.toNat ≤ 2 ^ 32) (hroom : mpStride blockSize ≤ rtAlignDown size.toNat) :
    (mpInit header start.toNat size.toNat blockSize.toNat).1 =
        { startAddress := mp.startAddress.toNat
          blockSize := mp.blockSize.toNat
          blockList := (asPointer mp.blockList).map BitVec.toNat
          blockTotalCount := mp.blockTotalCount.toNat
          blockFreeCount := mp.blockFreeCount.toNat } ∧
      ∀ b ∈ (mpInit header start.toNat size.toNat blockSize.toNat).1.blocks,
        (mpInit header start.toNat size.toNat blockSize.toNat).2 b =
          .next ((asPointer (loadWord mem' (BitVec.ofNat 32 b))).map BitVec.toNat) := by
  have hnonzero : start ≠ 0 ∧ size ≠ 0 ∧ blockSize ≠ 0 := by
    by_contra hnot
    rw [rtMpInit, if_neg hnot] at h
    cases h
  have hfits : MpFits start size blockSize := (mpFits_of_area hnonzero.1 harea).mpr hroom
  have hcount : (mpInit header start.toNat size.toNat blockSize.toNat).1.blockTotalCount =
      mpCount size blockSize := rfl
  refine ⟨?_, fun b hb => ?_⟩
  · rw [rtMpInit_eq hnonzero.1 hnonzero.2.1 hnonzero.2.2] at h
    cases h
    have hle := rtAlign_le blockSize.toNat
    have hblock : (mpFields start size blockSize).blockSize.toNat = rtAlign blockSize.toNat :=
      (BitVec.toNat_ofNat _ _).trans (Nat.mod_eq_of_lt (by omega))
    have hfree : (mpFields start size blockSize).blockFreeCount.toNat = mpCount size blockSize :=
      @mpFields_total start size blockSize
    rw [hblock, mpFields_total, hfree]
    show _ = Mempool.mk _ _ ((asPointer start).map BitVec.toNat) _ _
    rw [asPointer_of_ne hnonzero.1]
    rfl
  · obtain ⟨k, hk, rfl⟩ := List.mem_map.mp hb
    have hk' : k < mpCount size blockSize := hcount ▸ List.mem_range.mp hk
    have haddr : BitVec.ofNat 32 (start.toNat + k * mpStride blockSize) =
        mpBlock start (mpStride blockSize) k := by
      rw [mpBlock, BitVec.ofNat_add, BitVec.ofNat_toNat, BitVec.setWidth_eq]
    exact (rtMpInit_mpInit header h harea hfits hk').trans (by rw [← haddr]; rfl)

/-- Two blocks of 12 bytes, in an area of 40. -/
theorem mp_init_refines40 : ∃ mp mem', rtMpInit (fun _ => 0) 0x20001000 40 12 = some (mp, mem') ∧
    (mpInit (fun _ => MpWord.next (P := Unit) none) (0x20001000#32).toNat (40#32).toNat
      (12#32).toNat).1.blockFreeCount = mp.blockFreeCount.toNat :=
  ⟨_, _, rtMpInit_eq (by decide) (by decide) (by decide), congrArg Mempool.blockFreeCount
    (mp_init_refines (fun _ => .next (P := Unit) none)
      (show rtMpInit (fun _ => 0) 0x20001000 40 12 = _ from
        rtMpInit_eq (by decide) (by decide) (by decide)) (by decide) (by decide)).1⟩

end RtThread
