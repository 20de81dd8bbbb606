import Mathlib.Algebra.Ring.Int.Defs
import Mathlib.Data.Finset.Basic
import RtThread.Kernel.Align

/-!
# Programming and erasing the NOR flash

`write` and `erase` of `fal_flash_port.c`. The ROM succeeds or fails call by call; a sector is erased
where the unit of a call lies on it.

* `NorFlash`: what `rom_xpi_nor_get_property` reports; `WriteCall`, `EraseCall`: regions of the flash;
* `write`, `erase`: the functions, with the calls of the ROM that they make and their copies;
* `writeLoop_spec`, `eraseLoop_spec`: what the loops program and erase;
* **`flash_right`**: when a call of `write` and a call of `erase` do what they should.
-/

namespace RtThread

/-- The flash as the ROM reports it. Offsets are of type `long` and sizes are returned as `int`. -/
structure NorFlash where
  pageSize : ℕ
  sectorSize : ℕ
  blockSize : ℕ
  len : ℕ
  page_pow : ∃ k < 32, pageSize = 2 ^ k
  sector_pow : ∃ k < 32, sectorSize = 2 ^ k
  block_pow : ∃ k < 32, blockSize = 2 ^ k
  sector_le : sectorSize ≤ blockSize
  len_lt : len < 2 ^ 31

namespace NorFlash

/-- `nor_flash0.blk_size`, as `init` sets it. -/
def blkSize (s : NorFlash) : ℕ := s.sectorSize

/-- `sizeof(buf_32)`. -/
def bufSize : ℕ := 256

/-- `-RT_ERROR`. -/
def negError : ℤ := -1

/-- The arguments of `write`. -/
structure WriteCall (s : NorFlash) where
  offset : ℕ
  buf : List UInt8
  inside : offset + buf.length ≤ s.len

/-- The arguments of `erase`. -/
structure EraseCall (s : NorFlash) where
  offset : ℕ
  size : ℕ
  inside : offset + size ≤ s.len

/-- A call of `rom_xpi_nor_program`. -/
structure Program where
  addr : ℕ
  data : List UInt8
  ok : Bool

/-- A call of `rom_xpi_nor_erase_block` or `rom_xpi_nor_erase_sector`, with the size of the unit. -/
structure Erasure where
  addr : ℕ
  unit : ℕ
  ok : Bool

/-- What a call of `write` returns, its calls of the ROM and the lengths of its copies to `buf_32`. -/
structure WriteEnd where
  ret : ℤ
  programs : List Program
  copied : List ℕ

/-- What a call of `erase` returns, and its calls of the ROM. -/
structure EraseEnd where
  ret : ℤ
  erasures : List Erasure

/-! ## The functions -/

/-- `write_unaligned_page_data`, for a status. -/
def writeUnalignedPageData (status : Bool) (size : ℕ) : ℤ := if status then size else negError

/-- The loop of `write`, from the call `k` of the ROM on: whether every call succeeded, and the calls. -/
def writeLoop (rom : ℕ → Bool) (k offset : ℕ) (buf : List UInt8) : Bool × List Program :=
  if buf = [] then (true, [])
  else
    let writeSize := min buf.length bufSize
    let p : Program := ⟨offset, buf.take writeSize, rom k⟩
    if rom k then
      let r := writeLoop rom (k + 1) (offset + writeSize) (buf.drop writeSize)
      (r.1, p :: r.2)
    else (false, [p])
termination_by buf.length
decreasing_by
  have hpos : 0 < buf.length := List.length_pos_iff.mpr ‹_›
  rw [List.length_drop, bufSize]
  omega

/-- The result of `write` behind the loop. -/
def writeQuit (size : ℕ) (r : Bool × List Program) : ℤ × List Program :=
  (if r.1 then size else negError, r.2)

/-- `write`; `rom k` is the outcome of the call `k` of the ROM. -/
def write (s : NorFlash) (rom : ℕ → Bool) (offset : ℕ) (buf : List UInt8) : WriteEnd :=
  let offsetInPage := offset % s.pageSize
  if offsetInPage ≠ 0 then
    let n := min (s.pageSize - offsetInPage) buf.length
    let p : Program := ⟨offset, buf.take n, rom 0⟩
    -- `write_size` is a `uint32_t`
    let writeSize : ℕ := (writeUnalignedPageData (rom 0) n % 2 ^ 32).toNat
    if writeSize < 0 then ⟨negError, [p], [n]⟩
    else
      let r := writeQuit buf.length (writeLoop rom 1 (offset + n) (buf.drop n))
      ⟨r.1, p :: r.2, n :: r.2.map fun q => q.data.length⟩
  else
    let r := writeQuit buf.length (writeLoop rom 0 offset buf)
    ⟨r.1, r.2, r.2.map fun q => q.data.length⟩

/-- `erase_unit`: a block at a boundary of blocks, while there is one left, and a sector otherwise. -/
def eraseUnit (s : NorFlash) (offset alignedSize : ℕ) : ℕ :=
  if offset % s.blockSize = 0 ∧ s.blockSize ≤ alignedSize then s.blockSize else s.sectorSize

theorem sectorSize_pos (s : NorFlash) : 0 < s.sectorSize := by
  obtain ⟨k, -, hk⟩ := s.sector_pow
  rw [hk]
  exact Nat.two_pow_pos k

theorem eraseUnit_pos (s : NorFlash) (offset alignedSize : ℕ) : 0 < s.eraseUnit offset alignedSize := by
  unfold eraseUnit
  split_ifs
  · exact s.sectorSize_pos.trans_le s.sector_le
  · exact s.sectorSize_pos

/-- The loop of `erase`, from the call `k` of the ROM on. -/
def eraseLoop (s : NorFlash) (rom : ℕ → Bool) (k offset alignedSize : ℕ) : Bool × List Erasure :=
  if alignedSize = 0 then (true, [])
  else
    let e : Erasure := ⟨offset, s.eraseUnit offset alignedSize, rom k⟩
    if rom k then
      let r := eraseLoop s rom (k + 1) (offset + e.unit) (alignedSize - e.unit)
      (r.1, e :: r.2)
    else (false, [e])
termination_by alignedSize
decreasing_by
  exact Nat.sub_lt (Nat.pos_of_ne_zero ‹_›) (s.eraseUnit_pos _ _)

/-- `erase`. -/
def erase (s : NorFlash) (rom : ℕ → Bool) (offset size : ℕ) : EraseEnd :=
  let r := s.eraseLoop rom 0 offset (alignTo size s.blkSize)
  ⟨if r.1 then size else negError, r.2⟩

/-! ## What they should do -/

/-- A byte has been programmed. -/
def Programmed (l : List Program) (x : ℕ) (v : UInt8) : Prop :=
  ∃ p ∈ l, p.ok = true ∧ p.addr ≤ x ∧ p.data[x - p.addr]? = some v

/-- A byte has been erased, with the aligned unit of a call. -/
def Erased (l : List Erasure) (x : ℕ) : Prop := ∃ e ∈ l, e.ok = true ∧ x / e.unit = e.addr / e.unit

/-- **What `write` should do.** -/
structure WriteRight (offset : ℕ) (buf : List UInt8) (r : WriteEnd) : Prop where
  bounce : ∀ n ∈ r.copied, n ≤ bufSize
  all : r.ret = buf.length → ∀ i v, buf[i]? = some v → Programmed r.programs (offset + i) v
  negative : r.ret = buf.length ∨ r.ret < 0

/-- **What `erase` should do**: the sectors that intersect the region and no others. -/
def EraseRight (s : NorFlash) (offset size : ℕ) (r : EraseEnd) : Prop :=
  r.ret = size → ∀ x, Erased r.erasures x ↔
    ∃ y, offset ≤ y ∧ y < offset + size ∧ y / s.sectorSize = x / s.sectorSize

/-- The bytes in front of the first page boundary. -/
def headSize (s : NorFlash) (offset size : ℕ) : ℕ :=
  if offset % s.pageSize = 0 then 0 else min (s.pageSize - offset % s.pageSize) size

/-- The pieces of a size that `buf_32` can hold. -/
def chunks (size : ℕ) : ℕ := (size + (bufSize - 1)) / bufSize

/-! ## Writing -/

section

variable {s : NorFlash} {rom : ℕ → Bool} {k offset : ℕ} {buf : List UInt8}

theorem chunks_zero : chunks 0 = 0 := rfl

theorem chunks_pos {n : ℕ} (h : 0 < n) : chunks n = chunks (n - min n bufSize) + 1 := by
  unfold chunks bufSize
  omega

/-- The calls of the ROM, one by one. -/
theorem calls_succ {n : ℕ} :
    (∀ i < n + 1, rom (k + i) = true) ↔ rom k = true ∧ ∀ i < n, rom (k + 1 + i) = true := by
  refine ⟨fun h => ⟨h 0 (Nat.succ_pos n), fun i hi => ?_⟩, fun h i hi => ?_⟩
  · rw [Nat.add_assoc, Nat.add_comm 1]
    exact h (i + 1) (Nat.succ_lt_succ hi)
  · cases i with
    | zero => exact h.1
    | succ i =>
      rw [Nat.add_comm i, ← Nat.add_assoc]
      exact h.2 i (Nat.lt_of_succ_lt_succ hi)

/-- **The loop succeeds** when the calls for all pieces do. -/
theorem writeLoop_ok :
    (writeLoop rom k offset buf).1 = true ↔ ∀ i < chunks buf.length, rom (k + i) = true := by
  fun_induction writeLoop rom k offset buf with
  | case1 k offset => simp [chunks_zero]
  | case2 k offset buf hne n p hrom r ih =>
    rw [chunks_pos (List.length_pos_iff.mpr hne), calls_succ, and_iff_right hrom, ih, List.length_drop]
  | case3 k offset buf hne n p hrom =>
    rw [chunks_pos (List.length_pos_iff.mpr hne), calls_succ]
    exact iff_of_false Bool.false_ne_true fun h => hrom h.1

/-- The pieces lie behind the offset and fit in `buf_32`. -/
theorem writeLoop_pieces :
    ∀ p ∈ (writeLoop rom k offset buf).2, offset ≤ p.addr ∧ p.data.length ≤ bufSize := by
  fun_induction writeLoop rom k offset buf with
  | case1 k offset => exact fun p hp => absurd hp List.not_mem_nil
  | case2 k offset buf hne n p hrom r ih =>
    intro q hq
    rcases List.mem_cons.mp hq with rfl | hq
    · exact ⟨Nat.le_refl _, (List.length_take_le _ _).trans (Nat.min_le_right _ _)⟩
    · exact ⟨(Nat.le_add_right _ _).trans (ih q hq).1, (ih q hq).2⟩
  | case3 k offset buf hne n p hrom =>
    intro q hq
    rw [List.mem_singleton.mp hq]
    exact ⟨Nat.le_refl _, (List.length_take_le _ _).trans (Nat.min_le_right _ _)⟩

theorem programmed_cons {p : Program} {l : List Program} {x : ℕ} {v : UInt8} (h : Programmed l x v) :
    Programmed (p :: l) x v :=
  h.imp fun _ hq => ⟨List.mem_cons_of_mem _ hq.1, hq.2⟩

/-- A piece that is programmed, and what is programmed behind it. -/
theorem programmed_piece {l : List Program} {n : ℕ}
    (hl : ∀ i v, (buf.drop n)[i]? = some v → Programmed l (offset + n + i) v) :
    ∀ i v, buf[i]? = some v → Programmed (⟨offset, buf.take n, true⟩ :: l) (offset + i) v := by
  intro i v hv
  by_cases hi : i < n
  · refine ⟨_, List.mem_cons_self, rfl, Nat.le_add_right _ _, ?_⟩
    rw [Nat.add_sub_cancel_left, List.getElem?_take_of_lt hi, hv]
  · have hsum : offset + n + (i - n) = offset + i := by omega
    rw [← hsum]
    refine programmed_cons (hl (i - n) v ?_)
    rw [List.getElem?_drop, Nat.add_sub_cancel' (Nat.le_of_not_lt hi), hv]

/-- **What the loop programs** when it succeeds: all bytes. -/
theorem writeLoop_spec (h : (writeLoop rom k offset buf).1 = true) :
    ∀ i v, buf[i]? = some v → Programmed (writeLoop rom k offset buf).2 (offset + i) v := by
  fun_induction writeLoop rom k offset buf with
  | case1 k offset =>
    intro i v hv
    simp at hv
  | case2 k offset buf hne n p hrom r ih =>
    have hp : p = ⟨offset, buf.take n, true⟩ := by
      rw [← hrom]
    rw [hp]
    exact programmed_piece (ih h)
  | case3 k offset buf hne n p hrom => exact absurd h Bool.false_ne_true

theorem writeQuit_ret {size : ℕ} {r : Bool × List Program} :
    ((writeQuit size r).1 = size ↔ r.1 = true) ∧
      ((writeQuit size r).1 = size ∨ (writeQuit size r).1 < 0) := by
  unfold writeQuit negError
  cases r.1 with
  | true => exact ⟨iff_of_true rfl rfl, Or.inl rfl⟩
  | false => exact ⟨iff_of_false (by simp) Bool.false_ne_true, Or.inr (by simp)⟩

/-- A write that begins at a boundary of pages. -/
theorem write_aligned (h : offset % s.pageSize = 0) : WriteRight offset buf (s.write rom offset buf) := by
  unfold write
  dsimp only
  rw [if_neg (not_not.mpr h)]
  refine ⟨fun n hn => ?_, fun hret => writeLoop_spec (writeQuit_ret.1.mp hret), writeQuit_ret.2⟩
  obtain ⟨p, hp, rfl⟩ := List.mem_map.mp hn
  exact (writeLoop_pieces p hp).2

/-- **A write that does not**: the head must fit in `buf_32`, and its failure is lost. -/
theorem write_unaligned (h : offset % s.pageSize ≠ 0) :
    WriteRight offset buf (s.write rom offset buf) ↔ s.headSize offset buf.length ≤ bufSize ∧
      (0 < s.headSize offset buf.length → rom 0 = false →
        ∃ i < chunks (buf.length - s.headSize offset buf.length), rom (1 + i) = false) := by
  unfold write headSize
  dsimp only
  rw [if_pos h, if_neg h, if_neg (Nat.not_lt_zero _)]
  generalize hn : min (s.pageSize - offset % s.pageSize) buf.length = n
  have hle : n ≤ buf.length := hn ▸ Nat.min_le_right _ _
  have hok : (writeLoop rom 1 (offset + n) (buf.drop n)).1 = true ↔
      ∀ i < chunks (buf.drop n).length, rom (1 + i) = true := writeLoop_ok
  rw [List.length_drop] at hok
  constructor
  · rintro ⟨hbounce, hall, -⟩
    refine ⟨hbounce n List.mem_cons_self, fun hpos hfail => ?_⟩
    by_contra hnone
    have hloop : (writeLoop rom 1 (offset + n) (buf.drop n)).1 = true := by
      refine hok.mpr fun i hi => ?_
      by_contra hi'
      exact hnone ⟨i, hi, eq_false_of_ne_true hi'⟩
    obtain ⟨v, h0⟩ : ∃ v, buf[0]? = some v := ⟨_, List.getElem?_eq_getElem (hpos.trans_le hle)⟩
    obtain ⟨p, hp, hpok, haddr, -⟩ := hall (writeQuit_ret.1.mpr hloop) 0 v h0
    rcases List.mem_cons.mp hp with rfl | hp
    · exact Bool.false_ne_true (hfail.symm.trans hpok)
    · have hbehind := (writeLoop_pieces p hp).1
      omega
  · rintro ⟨hbounce, hlost⟩
    refine ⟨fun m hm => ?_, fun hret => ?_, writeQuit_ret.2⟩
    · rcases List.mem_cons.mp hm with rfl | hm
      · exact hbounce
      · obtain ⟨p, hp, rfl⟩ := List.mem_map.mp hm
        exact (writeLoop_pieces p hp).2
    · have hloop := writeQuit_ret.1.mp hret
      have hspec := writeLoop_spec hloop
      cases hrom : rom 0 with
      | true => exact programmed_piece hspec
      | false =>
        -- a head without bytes
        have hzero : n = 0 := by
          by_contra hpos
          obtain ⟨i, hi, hfail⟩ := hlost (Nat.pos_of_ne_zero hpos) hrom
          exact Bool.false_ne_true (hfail.symm.trans (hok.mp hloop i hi))
        subst hzero
        exact fun i v hv => programmed_cons (hspec i v hv)

end

/-! ## Erasing -/

section

variable {s : NorFlash} {rom : ℕ → Bool} {k offset n x : ℕ}

/-- A block consists of sectors. -/
theorem blockSize_eq (s : NorFlash) : ∃ m, 0 < m ∧ s.blockSize = s.sectorSize * m := by
  obtain ⟨i, -, hi⟩ := s.sector_pow
  obtain ⟨j, -, hj⟩ := s.block_pow
  have hle : i ≤ j := by
    have := s.sector_le
    rw [hi, hj] at this
    exact (Nat.pow_le_pow_iff_right (by decide)).mp this
  refine ⟨2 ^ (j - i), Nat.two_pow_pos _, ?_⟩
  rw [hi, hj, ← Nat.pow_add, Nat.add_sub_cancel' hle]

/-- The sectors of a block. -/
theorem div_block {m : ℕ} (hm : 0 < m) (hblock : s.blockSize = s.sectorSize * m)
    (halign : offset % s.blockSize = 0) : x / s.blockSize = offset / s.blockSize ↔
      offset / s.sectorSize ≤ x / s.sectorSize ∧ x / s.sectorSize < offset / s.sectorSize + m := by
  obtain ⟨q, rfl⟩ := Nat.dvd_of_mod_eq_zero halign
  have hbpos : 0 < s.blockSize := s.sectorSize_pos.trans_le s.sector_le
  rw [Nat.mul_div_cancel_left _ hbpos, hblock, ← Nat.div_div_eq_div_mul, Nat.mul_assoc,
    Nat.mul_div_cancel_left _ s.sectorSize_pos, Nat.div_eq_iff hm]
  rw [Nat.mul_comm q m]
  omega

/-- The sectors that one call and the calls behind it erase. -/
theorem erased_cons {e : Erasure} {l : List Erasure} :
    Erased (e :: l) x ↔ (e.ok = true ∧ x / e.unit = e.addr / e.unit) ∨ Erased l x := by
  unfold Erased
  simp only [List.mem_cons, or_and_right, exists_or, exists_eq_left]

variable (s offset) in
/-- The unit of a call, in sectors. -/
theorem eraseUnit_spec (hn : 0 < n) : ∃ m, 0 < m ∧ m ≤ n ∧
    s.eraseUnit offset (n * s.sectorSize) = s.sectorSize * m ∧
    ∀ x, x / s.eraseUnit offset (n * s.sectorSize) = offset / s.eraseUnit offset (n * s.sectorSize) ↔
      offset / s.sectorSize ≤ x / s.sectorSize ∧ x / s.sectorSize < offset / s.sectorSize + m := by
  unfold eraseUnit
  split_ifs with h
  · obtain ⟨m, hm, hblock⟩ := s.blockSize_eq
    have hle : m ≤ n := by
      have := h.2
      rw [hblock, Nat.mul_comm n] at this
      exact Nat.le_of_mul_le_mul_left this s.sectorSize_pos
    exact ⟨m, hm, hle, hblock, fun x => div_block hm hblock h.1⟩
  · refine ⟨1, Nat.one_pos, hn, (Nat.mul_one _).symm, fun x => ?_⟩
    omega

/-- **What the loop erases** when it succeeds: the sectors from that of the offset on. -/
theorem eraseLoop_spec (h : (s.eraseLoop rom k offset (n * s.sectorSize)).1 = true) :
    Erased (s.eraseLoop rom k offset (n * s.sectorSize)).2 x ↔
      offset / s.sectorSize ≤ x / s.sectorSize ∧ x / s.sectorSize < offset / s.sectorSize + n := by
  induction n using Nat.strong_induction_on generalizing k offset with
  | _ n ih =>
    have hspos := s.sectorSize_pos
    by_cases hzero : n = 0
    · subst hzero
      rw [Nat.zero_mul, eraseLoop, if_pos rfl]
      refine iff_of_false (fun ⟨e, he, _⟩ => absurd he List.not_mem_nil) ?_
      omega
    · obtain ⟨m, hm, hle, hunit, hspec⟩ :=
        eraseUnit_spec s offset (Nat.pos_of_ne_zero hzero)
      have hrest : n * s.sectorSize - s.sectorSize * m = (n - m) * s.sectorSize := by
        rw [Nat.mul_comm s.sectorSize, Nat.sub_mul]
      have hnext : (offset + s.sectorSize * m) / s.sectorSize = offset / s.sectorSize + m :=
        Nat.add_mul_div_left _ _ hspos
      rw [eraseLoop, if_neg (Nat.mul_ne_zero hzero hspos.ne')] at h ⊢
      dsimp only at h ⊢
      split_ifs at h ⊢ with hrom
      rw [erased_cons, hspec, and_iff_right hrom]
      rw [hunit, hrest] at h ⊢
      rw [ih (n - m) (by omega) h, hnext]
      omega

/-- The loop erases sectors only when the offset is no boundary of sectors. -/
theorem eraseLoop_ok (hoff : offset % s.sectorSize ≠ 0) :
    (s.eraseLoop rom k offset (n * s.sectorSize)).1 = true ↔ ∀ i < n, rom (k + i) = true := by
  have hspos := s.sectorSize_pos
  induction n generalizing k offset with
  | zero =>
    rw [Nat.zero_mul, eraseLoop, if_pos rfl]
    exact iff_of_true rfl fun i hi => absurd hi (Nat.not_lt_zero i)
  | succ n ih =>
    have hunit : s.eraseUnit offset ((n + 1) * s.sectorSize) = s.sectorSize := by
      obtain ⟨m, -, hblock⟩ := s.blockSize_eq
      refine if_neg fun h => hoff ?_
      exact Nat.mod_eq_zero_of_dvd (Nat.dvd_trans ⟨m, hblock⟩ (Nat.dvd_of_mod_eq_zero h.1))
    have hrest : (n + 1) * s.sectorSize - s.sectorSize = n * s.sectorSize := by
      rw [Nat.add_mul, Nat.one_mul, Nat.add_sub_cancel]
    rw [eraseLoop, if_neg (Nat.mul_ne_zero (Nat.succ_ne_zero n) hspos.ne'), hunit]
    dsimp only
    rw [hrest, calls_succ]
    split_ifs with hrom
    · rw [and_iff_right hrom]
      exact ih (by rwa [Nat.add_mod_right])
    · exact iff_of_false not_false fun h => hrom h.1

/-- `aligned_size` does not wrap: it is a number of sectors. -/
theorem alignedSize_eq (c : s.EraseCall) : ∃ n, alignTo c.size s.blkSize = n * s.sectorSize ∧
    c.size ≤ n * s.sectorSize ∧ (c.size = 0 → n = 0) ∧ (n - 1) * s.sectorSize ≤ c.size - 1 := by
  obtain ⟨i, hi, hsector⟩ := s.sector_pow
  have hspos := s.sectorSize_pos
  have hle : s.sectorSize ≤ 2 ^ 31 := by
    rw [hsector]
    exact Nat.pow_le_pow_right (by decide) (Nat.le_of_lt_succ hi)
  have hsize := c.inside.trans_lt s.len_lt
  have hwrap : c.size + (s.sectorSize - 1) < 2 ^ 32 := by omega
  have hceil := Nat.div_add_mod (c.size + (s.sectorSize - 1)) s.sectorSize
  have hmod := Nat.mod_lt (c.size + (s.sectorSize - 1)) hspos
  refine ⟨(c.size + (s.sectorSize - 1)) / s.sectorSize, alignTo_eq hwrap, ?_, fun h => ?_, ?_⟩
  · rw [Nat.mul_comm]
    omega
  · rw [h, Nat.zero_add]
    exact Nat.div_eq_of_lt (by omega)
  · rw [Nat.sub_mul, Nat.one_mul, Nat.mul_comm]
    omega

/-- The sectors that intersect a region, where they are those from that of the offset on. -/
theorem intersects_iff {size : ℕ} (hpos : 0 < size) (hfit : offset % s.sectorSize + size ≤ n * s.sectorSize)
    (hlast : (n - 1) * s.sectorSize ≤ size - 1) :
    (∃ y, offset ≤ y ∧ y < offset + size ∧ y / s.sectorSize = x / s.sectorSize) ↔
      offset / s.sectorSize ≤ x / s.sectorSize ∧ x / s.sectorSize < offset / s.sectorSize + n := by
  have hspos := s.sectorSize_pos
  have hoff := Nat.div_add_mod' offset s.sectorSize
  constructor
  · rintro ⟨y, hle, hlt, hy⟩
    rw [← hy]
    refine ⟨Nat.div_le_div_right hle, (Nat.div_lt_iff_lt_mul hspos).mpr ?_⟩
    rw [Nat.add_mul]
    omega
  · rintro ⟨hle, hlt⟩
    rcases Nat.eq_or_lt_of_le hle with heq | hgt
    · exact ⟨offset, Nat.le_refl _, by omega, heq⟩
    · -- the first byte of the sector
      refine ⟨x / s.sectorSize * s.sectorSize, ?_, ?_, Nat.mul_div_cancel _ hspos⟩
      · have := Nat.mul_le_mul_right s.sectorSize (Nat.succ_le_of_lt hgt)
        have := Nat.mod_lt offset hspos
        rw [Nat.succ_mul] at *
        omega
      · have hmul := Nat.mul_le_mul_right s.sectorSize
          (show x / s.sectorSize ≤ offset / s.sectorSize + (n - 1) by omega)
        rw [Nat.add_mul] at hmul
        omega

/-- **A call of `erase`**: the end of the region must lie in the sectors that `aligned_size` counts. -/
theorem erase_right (c : s.EraseCall) : s.EraseRight c.offset c.size (s.erase rom c.offset c.size) ↔
    c.size = 0 ∨ c.offset % s.sectorSize + c.size ≤ alignTo c.size s.blkSize ∨
      ∃ i < alignTo c.size s.blkSize / s.sectorSize, rom i = false := by
  obtain ⟨n, halign, hsize, hzero, hlast⟩ := alignedSize_eq c
  have hspos := s.sectorSize_pos
  have hret : (s.erase rom c.offset c.size).ret = c.size ↔
      (s.eraseLoop rom 0 c.offset (n * s.sectorSize)).1 = true := by
    unfold erase
    rw [← halign]
    dsimp only
    split_ifs with hloop
    · exact iff_of_true rfl hloop
    · exact iff_of_false (by simp [negError]) hloop
  have hspec : ∀ x, (s.eraseLoop rom 0 c.offset (n * s.sectorSize)).1 = true →
      (Erased (s.erase rom c.offset c.size).erasures x ↔ c.offset / s.sectorSize ≤ x / s.sectorSize ∧
        x / s.sectorSize < c.offset / s.sectorSize + n) := by
    intro x hloop
    unfold erase
    rw [halign]
    exact eraseLoop_spec hloop
  rw [halign, Nat.mul_div_cancel _ hspos]
  unfold EraseRight
  rw [hret]
  constructor
  · intro h
    by_cases hempty : c.size = 0
    · exact Or.inl hempty
    by_cases hfit : c.offset % s.sectorSize + c.size ≤ n * s.sectorSize
    · exact Or.inr (Or.inl hfit)
    refine Or.inr (Or.inr ?_)
    by_contra hnone
    have hoff : c.offset % s.sectorSize ≠ 0 := by omega
    have hloop : (s.eraseLoop rom 0 c.offset (n * s.sectorSize)).1 = true := by
      refine (eraseLoop_ok hoff).mpr fun i hi => ?_
      rw [Nat.zero_add]
      by_contra hi'
      exact hnone ⟨i, hi, eq_false_of_ne_true hi'⟩
    -- the sector of the last byte
    have hx := ((hspec _ hloop).mp ((h hloop (c.offset + c.size - 1)).mpr
      ⟨c.offset + c.size - 1, by omega, by omega, rfl⟩)).2
    rw [Nat.div_lt_iff_lt_mul hspos, Nat.add_mul] at hx
    have hdiv := Nat.div_add_mod' c.offset s.sectorSize
    omega
  · intro h hloop x
    rw [hspec x hloop]
    by_cases hempty : c.size = 0
    · rw [hzero hempty, hempty]
      refine iff_of_false (fun hx => ?_) ?_
      · omega
      · rintro ⟨y, hy1, hy2, -⟩
        omega
    by_cases hfit : c.offset % s.sectorSize + c.size ≤ n * s.sectorSize
    · exact (intersects_iff (Nat.pos_of_ne_zero hempty) hfit hlast).symm
    · obtain ⟨i, hi, hfail⟩ := (h.resolve_left hempty).resolve_left hfit
      have hok := (eraseLoop_ok (show c.offset % s.sectorSize ≠ 0 by omega)).mp hloop i hi
      rw [Nat.zero_add] at hok
      exact absurd (hfail.symm.trans hok) Bool.false_ne_true

end

/-- **Writing and erasing.** A write is right exactly when the head in front of the first boundary of
pages fits in `buf_32` and, where there is one, its call does not fail alone; an erase exactly when it
fails, or the region ends within the sectors that its size counts from that of the offset on. -/
theorem flash_right (s : NorFlash) (rom : ℕ → Bool) (w : s.WriteCall) (e : s.EraseCall) :
    (WriteRight w.offset w.buf (s.write rom w.offset w.buf) ↔
      s.headSize w.offset w.buf.length ≤ bufSize ∧
        (0 < s.headSize w.offset w.buf.length → rom 0 = false →
          ∃ i < chunks (w.buf.length - s.headSize w.offset w.buf.length), rom (1 + i) = false)) ∧
    (s.EraseRight e.offset e.size (s.erase rom e.offset e.size) ↔
      e.size = 0 ∨ e.offset % s.sectorSize + e.size ≤ alignTo e.size s.blkSize ∨
        ∃ i < alignTo e.size s.blkSize / s.sectorSize, rom i = false) := by
  refine ⟨?_, erase_right e⟩
  by_cases h : w.offset % s.pageSize = 0
  · have hhead : s.headSize w.offset w.buf.length = 0 := if_pos h
    rw [hhead]
    exact iff_of_true (write_aligned h) ⟨Nat.zero_le _, fun h => absurd h (Nat.lt_irrefl 0)⟩
  · exact write_unaligned h

/-- A flash with pages of 256 bytes, sectors of 4 KiB and blocks of 64 KiB. -/
def smallFlash : NorFlash where
  pageSize := 256
  sectorSize := 4096
  blockSize := 65536
  len := 2 ^ 23
  page_pow := ⟨8, by decide, rfl⟩
  sector_pow := ⟨12, by decide, rfl⟩
  block_pow := ⟨16, by decide, rfl⟩
  sector_le := by decide
  len_lt := by decide

/-- **A write of one byte at offset 1 fails in the ROM**, and an erase of two bytes across a boundary of
sectors leaves the second one. -/
theorem flash_wrong :
    ¬ WriteRight 1 [0] (smallFlash.write (fun _ => false) 1 [0]) ∧
      ¬ smallFlash.EraseRight 4095 2 (smallFlash.erase (fun _ => true) 4095 2) := by
  constructor
  · rw [write_unaligned (by decide)]
    exact fun h => absurd (h.2 (by decide) rfl) (by decide)
  · rw [erase_right ⟨4095, 2, by decide⟩]
    decide

end NorFlash

end RtThread
