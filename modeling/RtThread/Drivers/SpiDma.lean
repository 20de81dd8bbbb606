import RtThread.Drivers.SpiChain
import RtThread.Kernel.Align
import RtThread.Lib.Ownership

/-!
# Bounce buffers of the SPI DMA

`hpm_spi_xfer_dma` with `hpm_spi_transfer_data_cache_handle` of `drv_spi.c`, the data cache being enabled
and the hardware successful. What the DMA moves is followed by its place: a byte of memory, the i-th byte
that is received, or neither. The CPU sees what the DMA has received only where the lines are invalidated
afterwards.

* `DmaCtx`: `spi_dma_buf_ctx_t`, with the blocks of `rt_malloc_align` and those that were freed;
* `handleTx`, `handleRx`, `dmaMessage`, `dmaChain`: the functions;
* `DmaDelivers`: what is claimed of a chain; `dmaOk`: the condition;
* `dmaMessage_outcome`, `CtxOk.dmaMessage`: what a message moves, and what it does to the blocks;
* **`spi_dma`**: the claim holds exactly when `dmaOk` does.
-/

namespace RtThread

/-- What a byte is: the byte at an address, the i-th byte received in a message, or neither. -/
inductive DmaByte where
  | memory (a : ℕ)
  | wire (i : ℕ)
  | junk
deriving DecidableEq

/-- A block of `rt_malloc_align`. -/
structure DmaBlock where
  size : ℕ
  content : ℕ → DmaByte

/-- A pointer to memory of the caller or to a block. -/
inductive DmaPtr where
  | memory (a : ℕ)
  | block (n : ℕ)

/-- `spi_dma_buf_ctx_t`; the blocks are numbered as they are allocated. -/
structure DmaCtx where
  alignedSize : ℕ := 0
  rawTx : Option ℕ := none
  alignedTx : Option DmaPtr := none
  rawRx : Option ℕ := none
  alignedRx : Option DmaPtr := none
  blocks : List DmaBlock := []
  freed : List ℕ := []

/-- What becomes of a message: the bytes transmitted, what its receive buffer contains by address, and
whether the blocks are as large as what is moved through them. -/
structure DmaOutcome where
  sent : List DmaByte
  stored : List (ℕ × DmaByte)
  fits : Bool
deriving DecidableEq

/-- The test for a bounce buffer. -/
def unaligned (buf len : ℕ) : Bool := buf % cachelineSize ≠ 0 || len % cachelineSize ≠ 0

namespace DmaCtx

variable (c : DmaCtx)

/-- The byte behind a pointer. -/
def byteAt (i : ℕ) : DmaPtr → DmaByte
  | .memory a => .memory (a + i)
  | .block n => (c.blocks[n]?.map fun b => b.content i).getD .junk

/-- A pointer has room for so many bytes. -/
def room (n : ℕ) : Option DmaPtr → Bool
  | some (.block b) => (c.blocks[b]?.map fun b => decide (n ≤ b.size)).getD false
  | _ => true

/-- The transmit branch of `hpm_spi_transfer_data_cache_handle`. -/
def handleTx (sendBuf : Option ℕ) (length len : ℕ) : DmaCtx :=
  match sendBuf with
  | none => c
  | some a =>
    if unaligned a len then
      { c with
        alignedSize := alignTo len cachelineSize
        rawTx := some c.blocks.length
        alignedTx := some (.block c.blocks.length)
        blocks := c.blocks ++
          [⟨alignTo len cachelineSize, fun i => if i < len then .memory (a + i) else .junk⟩] }
    else
      { c with
        alignedTx := some (.memory a)
        alignedSize := alignTo (a + length) cachelineSize - alignDownTo a cachelineSize }

/-- The receive branch. -/
def handleRx (recvBuf : Option ℕ) (len : ℕ) : DmaCtx :=
  match recvBuf with
  | none => c
  | some a =>
    if unaligned a len then
      { c with
        alignedSize := alignTo len cachelineSize
        rawRx := some c.blocks.length
        alignedRx := some (.block c.blocks.length)
        blocks := c.blocks ++ [⟨alignTo len cachelineSize, fun _ => .junk⟩] }
    else { c with alignedRx := some (.memory a), alignedSize := len }

/-- `rt_free_align` of `raw_alloc_tx_buf`, if `aligned_tx_buf` is not NULL. -/
def freeTx : DmaCtx :=
  match c.alignedTx with
  | none => c
  | some _ => { c with freed := c.freed ++ c.rawTx.toList, rawTx := none, alignedTx := none }

/-- `rt_free_align` of `raw_alloc_rx_buf`. -/
def freeRx : DmaCtx := { c with freed := c.freed ++ c.rawRx.toList, rawRx := none, alignedRx := none }

end DmaCtx

namespace HpmSpi

variable (spi : HpmSpi)

/-- The bytes of an access to the data register. -/
def accessLength : ℕ :=
  match spi.dataLength with
  | 1 => 1
  | 2 => 2
  | _ => 4

/-- The offsets of the bytes that the DMA moves: `size / data_len` accesses for every sub-packet. -/
def dmaOffsets (offset remaining : ℕ) : List ℕ :=
  if _h : remaining = 0 then []
  else
    let transferLen := min spi.countMax remaining
    List.range' offset (transferLen / spi.accessLength * spi.accessLength) ++
      dmaOffsets (offset + transferLen) (remaining - transferLen)
termination_by remaining
decreasing_by
  have := spi.countMax_pos
  omega

/-- What the DMA leaves at an offset of the buffer that it receives into. -/
def received (length i : ℕ) : DmaByte :=
  if i ∈ spi.dmaOffsets 0 length then .wire ((spi.dmaOffsets 0 length).idxOf i) else .junk

/-- The bytes that `hpm_spi_transmit_use_fifo` writes. -/
def fifoBytes (sendBuf length : ℕ) : List DmaByte :=
  (List.range length).flatMap fun j =>
    (List.range spi.accessLength).map fun b => .memory (sendBuf + (j * spi.dataLength + b))

/-- The bytes that the DMA reads for a message. -/
def dmaSent (msg : QspiMessage) (c : DmaCtx) : List DmaByte :=
  match msg.sendBuf, c.alignedTx with
  | some _, some p => (spi.dmaOffsets 0 msg.length).map (c.byteAt · p)
  | _, _ => []

/-- The blocks of a message have room for what is copied and what the DMA moves. -/
def dmaFits (first msg : QspiMessage) (c : DmaCtx) : Bool :=
  (msg.sendBuf.isNone || (c.room msg.length c.alignedTx && c.room first.length c.alignedTx)) &&
  (msg.recvBuf.isNone || c.room msg.length c.alignedRx)

/-- The receive buffer after a message: the lines are invalidated, and the data is copied. -/
def dmaStored (first msg : QspiMessage) (c : DmaCtx) : List (ℕ × DmaByte) × DmaCtx :=
  let view := fun i => if i < c.alignedSize then spi.received msg.length i else .junk
  match msg.recvBuf, c.alignedRx with
  | some a, some p =>
    if unaligned (first.recvBuf.getD 0) msg.length then
      ((List.range msg.length).map fun i => (a + i, view i), c.freeRx)
    else
      match p with
      | .memory b => ((List.range msg.length).map fun i => (b + i, view i), c)
      | .block _ => ([], c)
  | _, _ => ([], c)

/-- A message that the DMA moves, of a chain that begins with `first`. -/
def dmaMessage (first msg : QspiMessage) (c : DmaCtx) : DmaOutcome × DmaCtx :=
  let c := (c.handleTx msg.sendBuf msg.length first.length).handleRx msg.recvBuf first.length
  let r := spi.dmaStored first msg
    (if unaligned (first.sendBuf.getD 0) msg.length then c.freeTx else c)
  (⟨spi.dmaSent msg c, r.1, dmaFits first msg c⟩, r.2)

/-- A message of which nothing is moved. -/
def idle : DmaOutcome := ⟨[], [], true⟩

/-- The loop of `hpm_spi_xfer_dma`. The FIFO moves `send_buf` of its message, also of the first one. For a
message without a buffer `stat` stays the failure of `hpm_spi_transmit_use_fifo`. -/
def dmaMessages (head : Bool) (first : QspiMessage) :
    List QspiMessage → DmaCtx → List DmaOutcome × DmaCtx
  | [], c => ([], c)
  | msg :: next, c =>
    if spi.checkParams msg then
      if msg.length = 0 then
        let r := dmaMessages false first next c
        (idle :: r.1, r.2)
      else if spi.usesFifo msg then
        let moved := { first with sendBuf := first.sendBuf.map (· + msg.length * spi.dataLength) }
        let r := dmaMessages false (if head then moved else first) next c
        (⟨spi.fifoBytes (msg.sendBuf.getD 0) msg.length, [], true⟩ :: r.1, r.2)
      else
        let m := spi.dmaMessage first msg c
        if msg.sendBuf.isSome || msg.recvBuf.isSome then
          let r := dmaMessages false first next m.2
          (m.1 :: r.1, r.2)
        else (m.1 :: next.map fun _ => idle, m.2)
    else ((msg :: next).map fun _ => idle, c)

/-- `hpm_spi_xfer_dma`. -/
def dmaChain (chain : List QspiMessage) : List DmaOutcome × DmaCtx :=
  match chain with
  | [] => ([], {})
  | first :: _ => spi.dmaMessages true first chain {}

end HpmSpi

/-! ## The property -/

/-- What a message should do. -/
def QspiMessage.outcome (msg : QspiMessage) : DmaOutcome where
  sent := msg.sendBuf.elim [] fun a => (List.range msg.length).map fun i => .memory (a + i)
  stored := msg.recvBuf.elim [] fun a => (List.range msg.length).map fun i => (a + i, .wire i)
  fits := true

/-- Every block has been freed exactly once. -/
def DmaCtx.FreedOnce (c : DmaCtx) : Prop := ∀ n < c.blocks.length, c.freed.count n = 1

/-- **The claim** of a chain. -/
def DmaDelivers (spi : HpmSpi) (chain : List QspiMessage) : Prop :=
  (spi.dmaChain chain).1 = chain.map QspiMessage.outcome ∧ (spi.dmaChain chain).2.FreedOnce

/-! ## The condition -/

/-- A message of which there is nothing to move. -/
def QspiMessage.idle (msg : QspiMessage) : Bool :=
  msg.length = 0 || (msg.sendBuf.isNone && msg.recvBuf.isNone)

/-- A buffer of a message in a chain gets a bounce buffer. -/
def bounces (first : QspiMessage) (buf : Option ℕ) : Bool := buf.any (unaligned · first.length)

/-- Whether the bounce buffers are freed behind a message. -/
def txFreed (first msg : QspiMessage) : Bool := unaligned (first.sendBuf.getD 0) msg.length

def rxFreed (first msg : QspiMessage) : Bool := unaligned (first.recvBuf.getD 0) msg.length

namespace HpmSpi

variable (spi : HpmSpi)

/-- The accesses of the DMA make up the length. -/
def whole (length : ℕ) : Bool :=
  length % spi.accessLength = 0 && (length ≤ spi.countMax || spi.countMax % spi.accessLength = 0)

/-- The condition on what a message moves by DMA. -/
def movesOk (first msg : QspiMessage) : Bool :=
  (spi.whole msg.length || (msg.sendBuf.isNone && msg.recvBuf.isNone)) &&
  (!bounces first msg.sendBuf ||
    (msg.length ≤ first.length && first.length ≤ alignTo first.length cachelineSize)) &&
  (msg.recvBuf.isNone ||
    if bounces first msg.recvBuf then
      msg.length ≤ alignTo first.length cachelineSize && rxFreed first msg
    else msg.length ≤ first.length)

/-- The condition from a message on; `pending` says that a bounce buffer is not freed yet. -/
def messagesOk (head : Bool) (first : QspiMessage) : List QspiMessage → Bool → Bool
  | [], pending => !pending
  | msg :: next, pending =>
    if spi.checkParams msg then
      if msg.length = 0 then messagesOk false first next pending
      else if spi.usesFifo msg then
        let moved := { first with sendBuf := first.sendBuf.map (· + msg.length * spi.dataLength) }
        spi.dataLength == 1 && messagesOk false (if head then moved else first) next pending
      else
        spi.movesOk first msg && !(bounces first msg.sendBuf && pending) &&
          let pending := (pending || bounces first msg.sendBuf) && !txFreed first msg
          if msg.sendBuf.isSome || msg.recvBuf.isSome then messagesOk false first next pending
          else !pending && next.all (·.idle)
    else !pending && (msg :: next).all (·.idle)

/-- **The condition** on a chain. -/
def dmaOk (chain : List QspiMessage) : Bool :=
  match chain with
  | [] => true
  | first :: _ => spi.messagesOk true first chain false

end HpmSpi

/-! ## What the DMA moves -/

section

variable {spi : HpmSpi} {first msg : QspiMessage} {c : DmaCtx} {offset n len a k : ℕ}

variable (spi) in
theorem dmaOffsets_le (offset n : ℕ) : (spi.dmaOffsets offset n).length ≤ n := by
  induction hn : n using Nat.strongRecOn generalizing offset n with
  | _ m ih =>
    subst hn
    unfold HpmSpi.dmaOffsets
    split
    case isTrue h => simp
    case isFalse h =>
      have hpos := spi.countMax_pos
      have hrest := ih (n - min spi.countMax n) (by omega) (offset + min spi.countMax n) _ rfl
      have hdiv := Nat.div_mul_le_self (min spi.countMax n) spi.accessLength
      rw [List.length_append, List.length_range']
      omega

/-- Whole accesses: every byte of the length, in order. -/
theorem dmaOffsets_of_whole (h : spi.whole n = true) (offset : ℕ) :
    spi.dmaOffsets offset n = List.range' offset n := by
  induction hn : n using Nat.strongRecOn generalizing offset n with
  | _ m ih =>
    subst hn
    unfold HpmSpi.dmaOffsets
    split
    case isTrue h0 => rw [h0, List.range'_zero]
    case isFalse h0 =>
      have hpos := spi.countMax_pos
      simp only [HpmSpi.whole, Bool.and_eq_true, Bool.or_eq_true, decide_eq_true_eq] at h
      have hpart : min spi.countMax n % spi.accessLength = 0 ∧
          spi.whole (n - min spi.countMax n) = true := by
        simp only [HpmSpi.whole, Bool.and_eq_true, Bool.or_eq_true, decide_eq_true_eq]
        by_cases hle : n ≤ spi.countMax
        · rw [Nat.min_eq_right hle, Nat.sub_self, Nat.zero_mod]
          exact ⟨h.1, rfl, .inl (Nat.zero_le _)⟩
        · have hc := h.2.resolve_left hle
          rw [Nat.min_eq_left (by omega)]
          exact ⟨hc, Nat.mod_eq_zero_of_dvd (Nat.dvd_sub (Nat.dvd_of_mod_eq_zero h.1)
            (Nat.dvd_of_mod_eq_zero hc)), .inr hc⟩
      dsimp only
      rw [ih _ (by omega) hpart.2 _ rfl, Nat.div_mul_cancel (Nat.dvd_of_mod_eq_zero hpart.1),
        List.range'_append_1]
      congr 1
      omega

/-- Otherwise some bytes are left out. -/
theorem whole_of_length (h : (spi.dmaOffsets offset n).length = n) : spi.whole n = true := by
  induction hn : n using Nat.strongRecOn generalizing offset n with
  | _ m ih =>
    subst hn
    unfold HpmSpi.dmaOffsets at h
    split at h
    case isTrue h0 => simp [h0, HpmSpi.whole]
    case isFalse h0 =>
      have hpos := spi.countMax_pos
      rw [List.length_append, List.length_range'] at h
      have hdiv := Nat.div_mul_le_self (min spi.countMax n) spi.accessLength
      have hle := dmaOffsets_le spi (offset + min spi.countMax n) (n - min spi.countMax n)
      have hrest := @ih (n - min spi.countMax n) (by omega) (offset + min spi.countMax n)
        (n - min spi.countMax n) (by omega) rfl
      have hdvd : spi.accessLength ∣ min spi.countMax n := by
        refine ⟨min spi.countMax n / spi.accessLength, ?_⟩
        rw [Nat.mul_comm]
        omega
      simp only [HpmSpi.whole, Bool.and_eq_true, Bool.or_eq_true, decide_eq_true_eq] at hrest ⊢
      have hsum : min spi.countMax n + (n - min spi.countMax n) = n := by omega
      refine ⟨?_, ?_⟩
      · rw [← hsum]
        exact Nat.mod_eq_zero_of_dvd (Nat.dvd_add hdvd (Nat.dvd_of_mod_eq_zero hrest.1))
      · by_cases hle : n ≤ spi.countMax
        · exact .inl hle
        · rw [Nat.min_eq_left (by omega)] at hdvd
          exact .inr (Nat.mod_eq_zero_of_dvd hdvd)

/-- The bytes that are received lie at their places exactly when the accesses are whole. -/
theorem received_eq : (∀ i < n, spi.received n i = .wire i) ↔ spi.whole n = true := by
  unfold HpmSpi.received
  constructor
  · intro h
    have hsub : List.range n ⊆ spi.dmaOffsets 0 n := by
      intro i hi
      by_contra hmem
      have hi' := h i (List.mem_range.mp hi)
      rw [if_neg hmem] at hi'
      cases hi'
    have hle := (List.subperm_of_subset List.nodup_range hsub).length_le
    rw [List.length_range] at hle
    exact whole_of_length (Nat.le_antisymm (dmaOffsets_le spi 0 n) hle)
  · intro h i hi
    rw [dmaOffsets_of_whole h]
    have hlt : i < (List.range' 0 n).length := by rwa [List.length_range']
    have hget : (List.range' 0 n)[i] = i := by simp
    have hidx := List.Nodup.idxOf_getElem (show (List.range' 0 n).Nodup from List.nodup_range') i hlt
    rw [hget] at hidx
    rw [if_pos (by simpa using hi), hidx]

/-! ## The buffers of a message -/

variable {buf : Option ℕ}

/-- The buffers of a message when the DMA begins. -/
def handled (first msg : QspiMessage) (c : DmaCtx) : DmaCtx :=
  (c.handleTx msg.sendBuf msg.length first.length).handleRx msg.recvBuf first.length

theorem handleRx_tx (c : DmaCtx) : (c.handleRx buf len).alignedTx = c.alignedTx ∧
    ∀ n < c.blocks.length, (c.handleRx buf len).blocks[n]? = c.blocks[n]? := by
  unfold DmaCtx.handleRx
  cases buf with
  | none => exact ⟨rfl, fun _ _ => rfl⟩
  | some a =>
    dsimp only
    split
    · exact ⟨rfl, fun n hn => List.getElem?_append_left hn⟩
    · exact ⟨rfl, fun _ _ => rfl⟩

/-- The pointer to the data that is sent. -/
theorem handled_direct (c : DmaCtx) (hs : msg.sendBuf = some a) (hb : bounces first msg.sendBuf = false) :
    (handled first msg c).alignedTx = some (.memory a) := by
  rw [hs] at hb
  rw [handled, (handleRx_tx _).1, hs, DmaCtx.handleTx,
    if_neg (by rw [show unaligned a first.length = false from hb]; exact Bool.false_ne_true)]

/-- The bounce buffer of the data that is sent. -/
theorem handled_bounce (c : DmaCtx) (hs : msg.sendBuf = some a) (hb : bounces first msg.sendBuf = true) :
    ∃ n, (handled first msg c).alignedTx = some (.block n) ∧ (handled first msg c).blocks[n]? =
      some ⟨alignTo first.length cachelineSize,
        fun i => if i < first.length then .memory (a + i) else .junk⟩ := by
  rw [hs] at hb
  refine ⟨c.blocks.length, ?_, ?_⟩
  · rw [handled, (handleRx_tx _).1, hs, DmaCtx.handleTx,
      if_pos (show unaligned a first.length = true from hb)]
  · rw [handled, hs, DmaCtx.handleTx, if_pos (show unaligned a first.length = true from hb),
      (handleRx_tx _).2 c.blocks.length (by simp)]
    show (c.blocks ++ [_])[c.blocks.length]? = _
    rw [List.getElem?_append_right (Nat.le_refl _), Nat.sub_self, List.getElem?_cons_zero]

/-- The pointer to what is received. -/
theorem handled_rx_direct (c : DmaCtx) (hr : msg.recvBuf = some a)
    (hb : bounces first msg.recvBuf = false) :
    (handled first msg c).alignedRx = some (.memory a) ∧
      (handled first msg c).alignedSize = first.length := by
  rw [hr] at hb
  rw [handled, hr, DmaCtx.handleRx,
    if_neg (by rw [show unaligned a first.length = false from hb]; exact Bool.false_ne_true)]
  exact ⟨rfl, rfl⟩

/-- The bounce buffer of what is received. -/
theorem handled_rx_bounce (c : DmaCtx) (hr : msg.recvBuf = some a)
    (hb : bounces first msg.recvBuf = true) :
    ∃ n, (handled first msg c).alignedRx = some (.block n) ∧
      (handled first msg c).alignedSize = alignTo first.length cachelineSize ∧
      (handled first msg c).blocks[n]? =
        some ⟨alignTo first.length cachelineSize, fun _ => .junk⟩ := by
  rw [hr] at hb
  rw [handled, hr, DmaCtx.handleRx, if_pos (show unaligned a first.length = true from hb)]
  refine ⟨_, rfl, rfl, ?_⟩
  show (_ ++ [_])[_]? = _
  rw [List.getElem?_append_right (Nat.le_refl _), Nat.sub_self, List.getElem?_cons_zero]

theorem freeTx_rx (c : DmaCtx) :
    c.freeTx.alignedRx = c.alignedRx ∧ c.freeTx.alignedSize = c.alignedSize := by
  unfold DmaCtx.freeTx
  cases c.alignedTx <;> exact ⟨rfl, rfl⟩

/-- The bytes that a message sends. -/
def sentBy (spi : HpmSpi) (first msg : QspiMessage) : List DmaByte :=
  msg.sendBuf.elim [] fun a => (spi.dmaOffsets 0 msg.length).map fun i =>
    if bounces first msg.sendBuf && !decide (i < first.length) then .junk else .memory (a + i)

/-- What its receive buffer contains. -/
def storedBy (spi : HpmSpi) (first msg : QspiMessage) : List (ℕ × DmaByte) :=
  msg.recvBuf.elim [] fun a =>
    if bounces first msg.recvBuf && !rxFreed first msg then []
    else (List.range msg.length).map fun i => (a + i,
      if i < (if bounces first msg.recvBuf then alignTo first.length cachelineSize else first.length) then
        spi.received msg.length i
      else .junk)

/-- The sizes of its blocks. -/
def fitsBy (first msg : QspiMessage) : Bool :=
  (!bounces first msg.sendBuf || (msg.length ≤ alignTo first.length cachelineSize &&
    first.length ≤ alignTo first.length cachelineSize)) &&
  (!bounces first msg.recvBuf || msg.length ≤ alignTo first.length cachelineSize)

theorem dmaSent_eq (c : DmaCtx) : spi.dmaSent msg (handled first msg c) = sentBy spi first msg := by
  unfold HpmSpi.dmaSent sentBy
  cases hs : msg.sendBuf with
  | none => rfl
  | some a =>
    cases hb : bounces first (some a) with
    | false =>
      rw [handled_direct c hs (hs ▸ hb)]
      rfl
    | true =>
      obtain ⟨n, htx, hblock⟩ := handled_bounce c hs (hs ▸ hb)
      rw [htx]
      refine List.map_congr_left fun i _ => ?_
      rw [DmaCtx.byteAt, hblock]
      by_cases hi : i < first.length <;> simp [hi]

theorem dmaFits_eq (c : DmaCtx) :
    HpmSpi.dmaFits first msg (handled first msg c) = fitsBy first msg := by
  have htx : ∀ a, msg.sendBuf = some a → ∀ n,
      (handled first msg c).room n (handled first msg c).alignedTx =
      (!bounces first msg.sendBuf || n ≤ alignTo first.length cachelineSize) := by
    intro a hs n
    cases hb : bounces first msg.sendBuf with
    | false =>
      rw [handled_direct c hs hb]
      rfl
    | true =>
      obtain ⟨k, htx, hblock⟩ := handled_bounce c hs hb
      rw [htx, DmaCtx.room, hblock]
      rfl
  have hrx : ∀ a, msg.recvBuf = some a → (handled first msg c).room msg.length
      (handled first msg c).alignedRx =
      (!bounces first msg.recvBuf || msg.length ≤ alignTo first.length cachelineSize) := by
    intro a hr
    cases hb : bounces first msg.recvBuf with
    | false =>
      rw [(handled_rx_direct c hr hb).1]
      rfl
    | true =>
      obtain ⟨k, hrx, -, hblock⟩ := handled_rx_bounce c hr hb
      rw [hrx, DmaCtx.room, hblock]
      rfl
  unfold HpmSpi.dmaFits fitsBy
  congr 1
  · cases hs : msg.sendBuf with
    | none => rfl
    | some a =>
      rw [← hs, htx a hs, htx a hs, hs]
      cases bounces first (some a) <;> rfl
  · cases hr : msg.recvBuf with
    | none => rfl
    | some a =>
      rw [← hr, hrx a hr, hr]
      rfl

theorem dmaStored_eq (c : DmaCtx) :
    (spi.dmaStored first msg (if unaligned (first.sendBuf.getD 0) msg.length then
      (handled first msg c).freeTx else handled first msg c)).1 = storedBy spi first msg := by
  have hkeep : ∀ c' : DmaCtx, c'.alignedRx = (handled first msg c).alignedRx →
      c'.alignedSize = (handled first msg c).alignedSize →
      (spi.dmaStored first msg c').1 = storedBy spi first msg := by
    intro c' h1 h2
    unfold HpmSpi.dmaStored storedBy
    rw [h1, h2]
    cases hr : msg.recvBuf with
    | none => rfl
    | some a =>
      cases hb : bounces first (some a) with
      | false =>
        obtain ⟨hrx, hsize⟩ := handled_rx_direct c hr (hr ▸ hb)
        rw [hrx, hsize]
        dsimp only
        split <;> simp
      | true =>
        obtain ⟨k, hrx, hsize, hblock⟩ := handled_rx_bounce c hr (hr ▸ hb)
        rw [hrx, hsize]
        dsimp only
        by_cases hf : unaligned (first.recvBuf.getD 0) msg.length = true
        · rw [if_pos hf]
          simp [rxFreed, hf]
        · rw [if_neg hf]
          simp [rxFreed, hf]
  split
  · obtain ⟨h1, h2⟩ := freeTx_rx (handled first msg c)
    exact hkeep _ h1 h2
  · exact hkeep _ rfl rfl

/-- **What a message does** does not depend on the messages before. -/
theorem dmaMessage_outcome (c : DmaCtx) :
    (spi.dmaMessage first msg c).1 =
      ⟨sentBy spi first msg, storedBy spi first msg, fitsBy first msg⟩ := by
  rw [← dmaSent_eq c, ← dmaFits_eq c, ← dmaStored_eq c]
  rfl

/-! ## The condition on a message -/

theorem sentBy_eq : sentBy spi first msg = msg.outcome.sent ↔ msg.sendBuf = none ∨
    (spi.whole msg.length = true ∧
      (bounces first msg.sendBuf = true → msg.length ≤ first.length)) := by
  unfold sentBy QspiMessage.outcome
  cases hs : msg.sendBuf with
  | none => exact ⟨fun _ => .inl rfl, fun _ => rfl⟩
  | some a =>
    simp only [Option.elim_some, reduceCtorEq, false_or]
    constructor
    · intro h
      have hlen := congrArg List.length h
      rw [List.length_map, List.length_map, List.length_range] at hlen
      have hwhole := whole_of_length hlen
      refine ⟨hwhole, fun hb => ?_⟩
      rw [dmaOffsets_of_whole hwhole, ← List.range_eq_range'] at h
      by_contra hlt
      have hat := List.map_inj_left.mp h first.length (List.mem_range.mpr (by omega))
      simp [hb] at hat
    · rintro ⟨hwhole, hle⟩
      rw [dmaOffsets_of_whole hwhole, ← List.range_eq_range']
      refine List.map_congr_left fun i hi => ?_
      have hi := List.mem_range.mp hi
      cases hb : bounces first (some a) with
      | false => rfl
      | true =>
        have := hle hb
        have hlt : i < first.length := by omega
        simp [hlt]

/-- What the CPU sees of the data that is received. -/
theorem view_eq {size : ℕ} :
    ((List.range n).map fun i => (a + i, if i < size then spi.received n i else .junk)) =
      ((List.range n).map fun i => (a + i, DmaByte.wire i)) ↔
      spi.whole n = true ∧ n ≤ size := by
  rw [List.map_inj_left, ← received_eq]
  constructor
  · intro h
    have hlt : ∀ i < n, i < size ∧ spi.received n i = .wire i := by
      intro i hi
      have hat := (Prod.mk.inj (h i (List.mem_range.mpr hi))).2
      by_cases his : i < size
      · rw [if_pos his] at hat
        exact ⟨his, hat⟩
      · rw [if_neg his] at hat
        cases hat
    refine ⟨fun i hi => (hlt i hi).2, ?_⟩
    by_contra hsize
    exact absurd (hlt size (by omega)).1 (Nat.lt_irrefl size)
  · rintro ⟨h, hsize⟩ i hi
    have hi := List.mem_range.mp hi
    rw [if_pos (by omega), h i hi]

theorem storedBy_eq (h0 : msg.length ≠ 0) : storedBy spi first msg = msg.outcome.stored ↔
    msg.recvBuf = none ∨ (spi.whole msg.length = true ∧
      if bounces first msg.recvBuf = true then
        msg.length ≤ alignTo first.length cachelineSize ∧ rxFreed first msg = true
      else msg.length ≤ first.length) := by
  unfold storedBy QspiMessage.outcome
  cases hr : msg.recvBuf with
  | none => exact ⟨fun _ => .inl rfl, fun _ => rfl⟩
  | some a =>
    simp only [Option.elim_some, reduceCtorEq, false_or]
    cases hb : bounces first (some a) with
    | false =>
      simp only [Bool.false_and, Bool.false_eq_true, if_false]
      exact view_eq
    | true =>
      cases hf : rxFreed first msg with
      | false =>
        simp only [Bool.not_false, Bool.and_self, if_true, and_false, Bool.false_eq_true, iff_false]
        intro h
        have hlen := congrArg List.length h
        rw [List.length_nil, List.length_map, List.length_range] at hlen
        exact h0 hlen.symm
      | true =>
        simp only [Bool.not_true, Bool.and_false, Bool.false_eq_true, if_false, if_true, and_true]
        exact view_eq

theorem bounces_none : bounces first none = false := rfl

/-- **The condition on a message.** -/
theorem movesOk_iff (h0 : msg.length ≠ 0) (c : DmaCtx) :
    (spi.dmaMessage first msg c).1 = msg.outcome ↔ spi.movesOk first msg = true := by
  have hsplit : (spi.dmaMessage first msg c).1 = msg.outcome ↔
      sentBy spi first msg = msg.outcome.sent ∧
      storedBy spi first msg = msg.outcome.stored ∧ fitsBy first msg = true := by
    rw [dmaMessage_outcome]
    constructor
    · intro h
      exact ⟨congrArg DmaOutcome.sent h, congrArg DmaOutcome.stored h, congrArg DmaOutcome.fits h⟩
    · rintro ⟨h1, h2, h3⟩
      rw [h1, h2, h3]
      rfl
  rw [hsplit, sentBy_eq, storedBy_eq h0]
  unfold fitsBy HpmSpi.movesOk
  have htrans : msg.length ≤ first.length → first.length ≤ alignTo first.length cachelineSize →
    msg.length ≤ alignTo first.length cachelineSize := Nat.le_trans
  cases hs : msg.sendBuf with
  | none =>
    cases hr : msg.recvBuf with
    | none => simp [bounces_none]
    | some b =>
      cases hbr : bounces first (some b) <;> simp [bounces_none, and_assoc]
      exact fun _ hle _ => hle
  | some a =>
    cases hr : msg.recvBuf with
    | none =>
      cases hbs : bounces first (some a) <;> simp [bounces_none]
      tauto
    | some b =>
      cases hbs : bounces first (some a) <;> cases hbr : bounces first (some b) <;> simp
      · tauto
      · tauto
      · tauto

/-! ## The blocks -/

/-- The blocks that the two pointers of `spi_dma_buf_ctx_t` have. -/
def DmaCtx.owner (c : DmaCtx) : Bool → Option ℕ
  | true => c.rawTx
  | false => c.rawRx

/-- A block that is not freed and that no pointer of `spi_dma_buf_ctx_t` has any more. -/
def LostBlock (c : DmaCtx) (n : ℕ) : Prop := Lost c.blocks.length c.freed c.owner n

/-- **The blocks**: they are freed once, except those that a pointer has. -/
structure CtxOk (c : DmaCtx) (tx rx : Bool) : Prop where
  tx : c.rawTx.isSome = tx
  rx : c.rawRx.isSome = rx
  aligned : c.alignedTx = none → c.rawTx = none
  owned : Owned c.blocks.length c.freed c.owner

/-- A branch of `hpm_spi_transfer_data_cache_handle`: the pointer of the direction `p` gets the next
block if the buffer needs one. -/
structure TakesBlock (c c' : DmaCtx) (p bounce : Bool) : Prop where
  length : c'.blocks.length = c.blocks.length + bounce.toNat
  freed : c'.freed = c.freed
  owner : c'.owner = if bounce then Function.update c.owner p (some c.blocks.length) else c.owner

/-- `rt_free_align` of the pointer of the direction `p`. -/
structure FreesBlock (c c' : DmaCtx) (p : Bool) : Prop where
  length : c'.blocks.length = c.blocks.length
  freed : c'.freed = c.freed ++ (c.owner p).toList
  owner : c'.owner = Function.update c.owner p none

section

variable {c' : DmaCtx} {p bounce : Bool} {x : Option ℕ}

theorem DmaCtx.owner_tx (htx : c'.rawTx = x) (hrx : c'.rawRx = c.rawRx) :
    c'.owner = Function.update c.owner true x := by
  funext b
  cases b with
  | true => rw [Function.update_self, ← htx]; rfl
  | false => rw [Function.update_of_ne Bool.false_ne_true]; exact hrx

theorem DmaCtx.owner_rx (htx : c'.rawTx = c.rawTx) (hrx : c'.rawRx = x) :
    c'.owner = Function.update c.owner false x := by
  funext b
  cases b with
  | true => rw [Function.update_of_ne Bool.false_ne_true.symm]; exact htx
  | false => rw [Function.update_self, ← hrx]; rfl

theorem handleTx_takes (c : DmaCtx) (k : ℕ) :
    TakesBlock c (c.handleTx buf k first.length) true (bounces first buf) := by
  cases buf with
  | none => exact ⟨rfl, rfl, rfl⟩
  | some a =>
    rw [show bounces first (some a) = unaligned a first.length from rfl, DmaCtx.handleTx]
    cases unaligned a first.length with
    | false => exact ⟨rfl, rfl, rfl⟩
    | true => exact ⟨List.length_append, rfl, DmaCtx.owner_tx rfl rfl⟩

theorem handleRx_takes (c : DmaCtx) :
    TakesBlock c (c.handleRx buf first.length) false (bounces first buf) := by
  cases buf with
  | none => exact ⟨rfl, rfl, rfl⟩
  | some a =>
    rw [show bounces first (some a) = unaligned a first.length from rfl, DmaCtx.handleRx]
    cases unaligned a first.length with
    | false => exact ⟨rfl, rfl, rfl⟩
    | true => exact ⟨List.length_append, rfl, DmaCtx.owner_rx rfl rfl⟩

theorem TakesBlock.owned (h : TakesBlock c c' p bounce) (ho : Owned c.blocks.length c.freed c.owner)
    (hp : bounce = true → c.owner p = none) : Owned c'.blocks.length c'.freed c'.owner := by
  rw [h.length, h.freed, h.owner]
  cases bounce with
  | false => exact ho
  | true => exact ho.alloc (hp rfl)

theorem TakesBlock.lostBlock (h : TakesBlock c c' p bounce) (hl : LostBlock c n) :
    LostBlock c' n := by
  unfold LostBlock
  rw [h.length, h.freed, h.owner]
  cases bounce with
  | false => exact hl
  | true => exact hl.alloc p

theorem freeTx_frees {q : DmaPtr} (ha : c.alignedTx = some q) : FreesBlock c c.freeTx true := by
  rw [DmaCtx.freeTx, ha]
  exact ⟨rfl, rfl, DmaCtx.owner_tx rfl rfl⟩

theorem freeRx_frees (c : DmaCtx) : FreesBlock c c.freeRx false :=
  ⟨rfl, rfl, DmaCtx.owner_rx rfl rfl⟩

theorem FreesBlock.owned (h : FreesBlock c c' p) (ho : Owned c.blocks.length c.freed c.owner) :
    Owned c'.blocks.length c'.freed c'.owner := by
  rw [h.length, h.freed, h.owner]
  exact ho.release p

theorem FreesBlock.lostBlock (h : FreesBlock c c' p) (hl : LostBlock c n) : LostBlock c' n := by
  unfold LostBlock
  rw [h.length, h.freed, h.owner]
  exact hl.release p

end

theorem LostBlock.freeTx (h : LostBlock c n) : LostBlock c.freeTx n := by
  cases ha : c.alignedTx with
  | none =>
    rw [DmaCtx.freeTx, ha]
    exact h
  | some q => exact (freeTx_frees ha).lostBlock h

theorem LostBlock.dmaStored (h : LostBlock c n) : LostBlock (spi.dmaStored first msg c).2 n := by
  unfold HpmSpi.dmaStored
  dsimp only
  split
  · split
    · exact (freeRx_frees c).lostBlock h
    · split <;> exact h
  · exact h

/-- A block that is lost stays so. -/
theorem LostBlock.dmaMessage (h : LostBlock c n) : LostBlock (spi.dmaMessage first msg c).2 n := by
  unfold HpmSpi.dmaMessage
  dsimp only
  refine LostBlock.dmaStored ?_
  split
  · exact ((handleRx_takes _).lostBlock ((handleTx_takes c _).lostBlock h)).freeTx
  · exact (handleRx_takes _).lostBlock ((handleTx_takes c _).lostBlock h)

theorem LostBlock.dmaMessages {chain : List QspiMessage} {head : Bool} (h : LostBlock c n) :
    LostBlock (spi.dmaMessages head first chain c).2 n := by
  induction chain generalizing head first c with
  | nil => exact h
  | cons msg next ih =>
    unfold HpmSpi.dmaMessages
    dsimp only
    split
    · split
      · exact ih h
      · split
        · exact ih h
        · split
          · exact ih h.dmaMessage
          · exact h.dmaMessage
    · exact h

theorem isSome_false {α : Type} {o : Option α} : o.isSome = false ↔ o = none := by
  rw [Option.isSome_eq_false_iff, Option.isNone_iff_eq_none]

theorem CtxOk.freedOnce {tx : Bool} (h : CtxOk c tx false) : c.FreedOnce ↔ tx = false := by
  refine h.owned.freed_iff.trans ⟨fun hnone => ?_, fun htx b => ?_⟩
  · rw [← h.tx]
    exact isSome_false.mpr (hnone true)
  · cases b with
    | true => exact isSome_false.mp (h.tx.trans htx)
    | false => exact isSome_false.mp h.rx

theorem CtxOk.handleTx {tx rx : Bool} (h : CtxOk c tx rx) (hb : (bounces first buf && tx) = false) :
    CtxOk (c.handleTx buf k first.length) (tx || bounces first buf) rx := by
  have howned := (handleTx_takes c k).owned h.owned fun hbounce =>
    isSome_false.mp (h.tx.trans (by rwa [hbounce, Bool.true_and] at hb))
  cases buf with
  | none =>
    rw [bounces_none, Bool.or_false]
    exact h
  | some a =>
    rw [show bounces first (some a) = unaligned a first.length from rfl]
    rw [DmaCtx.handleTx] at howned ⊢
    cases hbounce : unaligned a first.length with
    | false =>
      rw [hbounce] at howned
      rw [Bool.or_false]
      exact ⟨h.tx, h.rx, fun he => (nomatch he), howned⟩
    | true =>
      rw [hbounce] at howned
      rw [Bool.or_true]
      exact ⟨rfl, h.rx, fun he => (nomatch he), howned⟩

theorem CtxOk.handleRx {tx rx : Bool} (h : CtxOk c tx rx) (hb : (bounces first buf && rx) = false) :
    CtxOk (c.handleRx buf first.length) tx (rx || bounces first buf) := by
  have howned := (handleRx_takes c).owned h.owned fun hbounce =>
    isSome_false.mp (h.rx.trans (by rwa [hbounce, Bool.true_and] at hb))
  cases buf with
  | none =>
    rw [bounces_none, Bool.or_false]
    exact h
  | some a =>
    rw [show bounces first (some a) = unaligned a first.length from rfl]
    rw [DmaCtx.handleRx] at howned ⊢
    cases hbounce : unaligned a first.length with
    | false =>
      rw [hbounce] at howned
      rw [Bool.or_false]
      exact ⟨h.tx, h.rx, h.aligned, howned⟩
    | true =>
      rw [hbounce] at howned
      rw [Bool.or_true]
      exact ⟨h.tx, rfl, h.aligned, howned⟩

theorem CtxOk.freeTx {tx rx : Bool} (h : CtxOk c tx rx) : CtxOk c.freeTx false rx := by
  cases ha : c.alignedTx with
  | none =>
    rw [DmaCtx.freeTx, ha]
    exact ⟨isSome_false.mpr (h.aligned ha), h.rx, h.aligned, h.owned⟩
  | some q =>
    have howned := (freeTx_frees ha).owned h.owned
    rw [DmaCtx.freeTx, ha] at howned ⊢
    exact ⟨rfl, h.rx, fun _ => rfl, howned⟩

theorem CtxOk.freeRx {tx rx : Bool} (h : CtxOk c tx rx) : CtxOk c.freeRx tx false :=
  ⟨h.tx, rfl, h.aligned, (freeRx_frees c).owned h.owned⟩

theorem CtxOk.dmaStored {tx rx : Bool} (h : CtxOk c tx rx) (hnone : msg.recvBuf = none → rx = false)
    (hptr : ∀ a, msg.recvBuf = some a → ∃ p, c.alignedRx = some p)
    (hrx : rx = true → rxFreed first msg = true) : CtxOk (spi.dmaStored first msg c).2 tx false := by
  unfold HpmSpi.dmaStored
  dsimp only
  cases hr : msg.recvBuf with
  | none => exact hnone hr ▸ h
  | some a =>
    obtain ⟨p, hp⟩ := hptr a hr
    rw [hp]
    dsimp only
    cases hf : unaligned (first.recvBuf.getD 0) msg.length with
    | true => exact h.freeRx
    | false =>
      have hrx' : rx = false := by
        cases rx with
        | false => rfl
        | true => exact (hf.symm.trans (hrx rfl)).symm ▸ rfl
      rw [hrx'] at h
      cases p <;> exact h

variable (spi) in
/-- **What a message does to the blocks.** -/
theorem CtxOk.dmaMessage {tx : Bool} (h : CtxOk c tx false)
    (htx : (bounces first msg.sendBuf && tx) = false)
    (hrx : bounces first msg.recvBuf = true → rxFreed first msg = true) :
    CtxOk (spi.dmaMessage first msg c).2
      ((tx || bounces first msg.sendBuf) && !txFreed first msg) false := by
  have h1 : CtxOk (handled first msg c) (tx || bounces first msg.sendBuf) (bounces first msg.recvBuf) := by
    have := (h.handleTx (k := msg.length) htx).handleRx (Bool.and_false (bounces first msg.recvBuf))
    rwa [Bool.false_or] at this
  have hptr : ∀ a, msg.recvBuf = some a → ∃ p, (handled first msg c).alignedRx = some p := by
    intro a hr
    cases hb : bounces first msg.recvBuf with
    | false => exact ⟨_, (handled_rx_direct c hr hb).1⟩
    | true =>
      obtain ⟨n, hn, -⟩ := handled_rx_bounce c hr hb
      exact ⟨_, hn⟩
  have hnone : msg.recvBuf = none → bounces first msg.recvBuf = false := by
    intro hr
    rw [hr, bounces_none]
  show CtxOk (spi.dmaStored first msg (if unaligned (first.sendBuf.getD 0) msg.length then
    (handled first msg c).freeTx else handled first msg c)).2 _ false
  unfold txFreed
  cases unaligned (first.sendBuf.getD 0) msg.length with
  | true =>
    rw [Bool.not_true, Bool.and_false]
    refine h1.freeTx.dmaStored hnone (fun a hr => ?_) hrx
    rw [(freeTx_rx _).1]
    exact hptr a hr
  | false =>
    rw [Bool.not_false, Bool.and_true]
    exact h1.dmaStored hnone hptr hrx

variable (spi) in
/-- A bounce buffer whose pointer is overwritten. -/
theorem CtxOk.lost (h : CtxOk c true false) (hb : bounces first msg.sendBuf = true) :
    ∃ n, LostBlock (spi.dmaMessage first msg c).2 n := by
  obtain ⟨n, hn⟩ := Option.isSome_iff_exists.mp h.tx
  have hlost : LostBlock (c.handleTx msg.sendBuf msg.length first.length) n := by
    have htakes : TakesBlock c (c.handleTx msg.sendBuf msg.length first.length) true
        (bounces first msg.sendBuf) := handleTx_takes c msg.length
    unfold LostBlock
    rw [htakes.length, htakes.freed, htakes.owner, hb, if_pos rfl]
    exact h.owned.lost (i := true) hn
  refine ⟨n, LostBlock.dmaStored ?_⟩
  split
  · exact ((handleRx_takes _).lostBlock hlost).freeTx
  · exact (handleRx_takes _).lostBlock hlost

/-! ## The chain -/

theorem idle_eq : HpmSpi.idle = msg.outcome ↔ msg.idle = true := by
  unfold HpmSpi.idle QspiMessage.outcome QspiMessage.idle
  by_cases h0 : msg.length = 0
  · cases msg.sendBuf <;> cases msg.recvBuf <;> simp [h0]
  · cases msg.sendBuf <;> cases msg.recvBuf <;> simp [h0]

theorem map_idle (l : List QspiMessage) :
    (l.map fun _ => HpmSpi.idle) = l.map QspiMessage.outcome ↔ l.all (·.idle) = true := by
  rw [List.map_inj_left, List.all_eq_true]
  exact forall₂_congr fun _ _ => idle_eq

theorem accessLength_one : spi.accessLength = 1 ↔ spi.dataLength = 1 := by
  unfold HpmSpi.accessLength
  split
  · simp [*]
  · simp [*]
  · rename_i h1 h2
    exact ⟨fun he => absurd he (by decide), fun he => (h1 he).elim⟩

/-- The FIFO writes the data exactly when a frame is a byte. -/
theorem fifo_eq (h0 : msg.length ≠ 0) (hf : spi.usesFifo msg = true) :
    (⟨spi.fifoBytes (msg.sendBuf.getD 0) msg.length, [], true⟩ : DmaOutcome) = msg.outcome ↔
      spi.dataLength = 1 := by
  unfold HpmSpi.usesFifo at hf
  simp only [Bool.and_eq_true, decide_eq_true_eq, Option.isNone_iff_eq_none] at hf
  obtain ⟨⟨-, hs⟩, hr⟩ := hf
  obtain ⟨a, hs⟩ := Option.isSome_iff_exists.mp hs
  unfold QspiMessage.outcome HpmSpi.fifoBytes
  rw [hs, hr]
  simp only [Option.getD_some, Option.elim_some, Option.elim_none, DmaOutcome.mk.injEq, and_true]
  constructor
  · intro h
    have hlen := congrArg List.length h
    simp only [List.length_flatMap, List.length_map, List.length_range, List.map_const',
      List.sum_replicate_nat] at hlen
    refine accessLength_one.mp (Nat.eq_of_mul_eq_mul_left (Nat.pos_of_ne_zero h0) ?_)
    rw [hlen, Nat.mul_one]
  · intro h1
    rw [accessLength_one.mpr h1, h1, List.map_eq_flatMap]
    simp

/-- Under the condition the receive bounce buffer of a message is freed behind it. -/
theorem rxFreed_of_movesOk (h : spi.movesOk first msg = true) (hb : bounces first msg.recvBuf = true) :
    rxFreed first msg = true := by
  unfold HpmSpi.movesOk at h
  rw [hb, if_pos rfl, Bool.and_eq_true, Bool.or_eq_true, Bool.and_eq_true] at h
  rcases h.2 with hnone | hr
  · rw [Option.isNone_iff_eq_none.mp hnone, bounces_none] at hb
    cases hb
  · exact (Bool.and_eq_true_iff.mp hr).2

/-- **The chain from a message on.** -/
theorem messages_iff {chain : List QspiMessage} {head pending : Bool} (h : CtxOk c pending false) :
    ((spi.dmaMessages head first chain c).1 = chain.map QspiMessage.outcome ∧
      (spi.dmaMessages head first chain c).2.FreedOnce) ↔
      spi.messagesOk head first chain pending = true := by
  induction chain generalizing head first c pending with
  | nil =>
    unfold HpmSpi.dmaMessages HpmSpi.messagesOk
    rw [Bool.not_eq_true', ← h.freedOnce]
    exact ⟨And.right, fun hf => ⟨rfl, hf⟩⟩
  | cons msg next ih =>
    unfold HpmSpi.dmaMessages HpmSpi.messagesOk
    by_cases hc : spi.checkParams msg = true
    · rw [if_pos hc, if_pos hc]
      by_cases h0 : msg.length = 0
      · have hidle : HpmSpi.idle = msg.outcome := idle_eq.mpr (by simp [QspiMessage.idle, h0])
        rw [if_pos h0, if_pos h0, ← ih h, List.map_cons, List.cons.injEq, and_iff_right hidle]
      · rw [if_neg h0, if_neg h0]
        by_cases hf : spi.usesFifo msg = true
        · rw [if_pos hf, if_pos hf]
          rw [List.map_cons, List.cons.injEq, fifo_eq h0 hf, Bool.and_eq_true, beq_iff_eq, and_assoc, ih h]
        · rw [if_neg hf, if_neg hf, Bool.and_eq_true, Bool.and_eq_true, Bool.not_eq_true']
          dsimp only
          by_cases hm : spi.movesOk first msg = true
          · have hout := (movesOk_iff h0 c).mpr hm
            cases hlost : bounces first msg.sendBuf && pending with
            | true =>
              obtain ⟨hb, rfl⟩ := Bool.and_eq_true_iff.mp hlost
              obtain ⟨n, hn⟩ := h.lost spi hb
              refine ⟨fun hp => ?_, fun hp => absurd hp.1.2 (by decide)⟩
              have hfreed := hp.2
              split at hfreed
              · exact absurd hfreed hn.dmaMessages.not_freed
              · exact absurd hfreed hn.not_freed
            | false =>
              have hnext := h.dmaMessage spi hlost (rxFreed_of_movesOk hm)
              rw [and_iff_right (show spi.movesOk first msg = true ∧ false = false from ⟨hm, rfl⟩)]
              split
              · rw [← ih hnext, List.map_cons, List.cons.injEq, and_iff_right hout]
              · rw [List.map_cons, List.cons.injEq, and_iff_right hout, map_idle, hnext.freedOnce,
                  Bool.and_eq_true, Bool.not_eq_true']
                exact and_comm
          · have hout := fun he => hm ((movesOk_iff h0 c).mp he)
            refine ⟨fun hp => ?_, fun hp => absurd hp.1.1 hm⟩
            have hhead := hp.1
            split at hhead
            · exact absurd (List.cons.inj hhead).1 hout
            · exact absurd (List.cons.inj hhead).1 hout
    · rw [if_neg hc, if_neg hc, map_idle, h.freedOnce, Bool.and_eq_true, Bool.not_eq_true']
      exact and_comm

theorem CtxOk.init : CtxOk {} false false :=
  ⟨rfl, rfl, fun _ => rfl, (show DmaCtx.owner {} = fun _ => none by funext b; cases b <;> rfl) ▸
    Owned.empty⟩

/-- **The bounce buffers deliver** exactly when the condition holds. -/
theorem spi_dma (spi : HpmSpi) (chain : List QspiMessage) :
    DmaDelivers spi chain ↔ spi.dmaOk chain = true := by
  cases chain with
  | nil =>
    refine ⟨fun _ => rfl, fun _ => ⟨rfl, fun n hn => ?_⟩⟩
    exact absurd hn (Nat.not_lt_zero n)
  | cons first next => exact messages_iff CtxOk.init

end

/-- **Sixteen bytes, then thirty-two**: the second bounce buffer has the size and the data of the first
message, and the rest of what is transmitted is not data. -/
theorem spi_dma_garbage : ¬ DmaDelivers (hpmSpi true)
    [{ sendMessage 16 with sendBuf := some 64 }, { sendMessage 32 with sendBuf := some 128 }] := by
  intro h
  have hok := (messages_iff CtxOk.init).mp h
  exact absurd hok (by decide)

end RtThread
