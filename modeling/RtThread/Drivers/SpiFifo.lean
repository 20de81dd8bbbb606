import Mathlib.Data.List.Range
import RtThread.Drivers.SpiChain

/-!
# The FIFO and the DMA of an hpm SPI bus

A short message without a receive buffer is written to the data register by
`hpm_spi_transmit_use_fifo`; other messages are read by the DMA, which `hpm_spi_tx_dma_config` sets up.

* `FifoLoop`, `fifoUnit`, `transmitByFifo`: the loop that writes the register;
* `dmaPackets`, `transmitByDma`: the sub-packets of the DMA;
* `Transmitted`: the frames, the length, the message afterwards and the addresses read;
* **`spi_fifo`**: the FIFO does what the DMA does exactly for an empty message, and up to the message
  exactly when a frame is one byte; `spi_fifo_advanced`.
-/

namespace RtThread

/-! ## Data frames -/

/-- The bytes of a data frame: `spi_get_data_length_in_bytes`, for the field `DATALEN`. -/
def dataBytes (dataLen : BitVec 5) : ℕ := (dataLen.toNat + 1 + 7) / 8

/-- The bytes of an access to the data register, as the FIFO and the DMA make them. -/
def accessBytes (dataLen : BitVec 5) : ℕ :=
  match dataBytes dataLen with
  | 1 => 1
  | 2 => 2
  | _ => 4

/-- A little-endian value in memory. -/
def loadLe (mem : ℕ → UInt8) (a : ℕ) : ℕ → ℕ
  | 0 => 0
  | n + 1 => (mem a).toNat + 256 * loadLe mem (a + 1) n

/-- What a write of the data register makes of a value: a frame of `DATALEN + 1` bits. -/
def spiFrame (dataLen : BitVec 5) (value : ℕ) : ℕ := value % 2 ^ (dataLen.toNat + 1)

/-- A message that has been sent: the frames, what is added to `actual_len`, the message afterwards,
and the addresses that were read. -/
structure Transmitted where
  frames : List ℕ
  actual : BitVec 32
  msg : QspiMessage
  reads : List ℕ
deriving DecidableEq

/-! ## The FIFO -/

/-- `msg->send_buf`, `actual_len`, the frames and the addresses read. -/
structure FifoLoop where
  sendBuf : ℕ
  actual : BitVec 32 := 0
  frames : List ℕ := []
  reads : List ℕ := []

/-- A round: an access to the data register, and the pointer of the message moves by a frame. -/
def fifoUnit (mem : ℕ → UInt8) (dataLen : BitVec 5) (r : FifoLoop) : FifoLoop where
  sendBuf := r.sendBuf + dataBytes dataLen
  actual := r.actual + BitVec.ofNat 32 (dataBytes dataLen)
  frames := r.frames ++ [spiFrame dataLen (loadLe mem r.sendBuf (accessBytes dataLen))]
  reads := r.reads ++ List.range' r.sendBuf (accessBytes dataLen)

/-- The loop of `hpm_spi_transmit_use_fifo`. Its 8-bit counter does not reach 256. -/
def transmitByFifo (mem : ℕ → UInt8) (dataLen : BitVec 5) (msg : QspiMessage) (sendBuf : ℕ) :
    Option Transmitted :=
  if msg.length < 256 then
    let r := (fifoUnit mem dataLen)^[msg.length] { sendBuf }
    some ⟨r.frames, r.actual, { msg with sendBuf := some r.sendBuf }, r.reads⟩
  else none

/-! ## The DMA -/

/-- The sub-packets: the DMA makes `size / data_len` accesses for a sub-packet of `size`. -/
def dmaPackets (mem : ℕ → UInt8) (dataLen : BitVec 5) (countMax : ℕ) (hpos : 0 < countMax)
    (txBuf remaining : ℕ) : List ℕ × BitVec 32 × List ℕ :=
  if _h : remaining = 0 then ([], 0, [])
  else
    let transferLen := min countMax remaining
    let count := transferLen / accessBytes dataLen
    let next := dmaPackets mem dataLen countMax hpos (txBuf + transferLen) (remaining - transferLen)
    ((List.range count).map (fun j =>
        spiFrame dataLen (loadLe mem (txBuf + j * accessBytes dataLen) (accessBytes dataLen))) ++
        next.1,
      BitVec.ofNat 32 transferLen + next.2.1,
      List.range' txBuf (count * accessBytes dataLen) ++ next.2.2)
termination_by remaining
decreasing_by omega

/-- The path of `hpm_spi_xfer_dma` for a message with a send buffer. -/
def transmitByDma (mem : ℕ → UInt8) (dataLen : BitVec 5) (countMax : ℕ) (hpos : 0 < countMax)
    (msg : QspiMessage) (sendBuf : ℕ) : Transmitted :=
  let r := dmaPackets mem dataLen countMax hpos sendBuf msg.length
  ⟨r.1, r.2.1, msg, r.2.2⟩

/-! ## Agreement -/

/-- The two send the same frames and report the same length, and the FIFO reads nothing behind the
data. -/
def SameData (fifo : Option Transmitted) (dma : Transmitted) (sendBuf length : ℕ) : Prop :=
  ∃ t, fifo = some t ∧ t.frames = dma.frames ∧ t.actual = dma.actual ∧
    ∀ a ∈ t.reads, sendBuf ≤ a ∧ a < sendBuf + length

/-- The two leave the same message. -/
def SameMessage (fifo : Option Transmitted) (dma : Transmitted) : Prop :=
  ∃ t, fifo = some t ∧ t.msg = dma.msg

section

variable {mem : ℕ → UInt8} {dataLen : BitVec 5} {countMax : ℕ} {hpos : 0 < countMax}
  {msg : QspiMessage} {sendBuf n : ℕ}

theorem dataBytes_pos : 0 < dataBytes dataLen := by
  unfold dataBytes
  omega

theorem dataBytes_le : dataBytes dataLen ≤ accessBytes dataLen := by
  have hlt := dataLen.isLt
  unfold accessBytes
  split <;> rename_i h
  · exact h.le
  · exact h.le
  · unfold dataBytes
    omega

theorem accessBytes_eq_one : accessBytes dataLen = 1 ↔ dataBytes dataLen = 1 := by
  unfold accessBytes
  split <;> rename_i h
  · simp [h]
  · simp [h]
  · have := h
    simp_all

/-- What the rounds have done. -/
theorem fifoUnit_iterate (n : ℕ) :
    (fifoUnit mem dataLen)^[n] { sendBuf } =
      { sendBuf := sendBuf + n * dataBytes dataLen
        actual := BitVec.ofNat 32 (n * dataBytes dataLen)
        frames := (List.range n).map fun j =>
          spiFrame dataLen (loadLe mem (sendBuf + j * dataBytes dataLen) (accessBytes dataLen))
        reads := (List.range n).flatMap fun j =>
          List.range' (sendBuf + j * dataBytes dataLen) (accessBytes dataLen) } := by
  induction n with
  | zero => simp
  | succ n ih =>
    rw [Function.iterate_succ_apply', ih, fifoUnit, List.range_succ, List.map_append,
      List.flatMap_append]
    dsimp only
    rw [← BitVec.ofNat_add, Nat.succ_mul, ← Nat.add_assoc]
    simp

/-- The DMA counts the length. -/
theorem dmaPackets_actual (txBuf remaining : ℕ) :
    (dmaPackets mem dataLen countMax hpos txBuf remaining).2.1 = BitVec.ofNat 32 remaining := by
  induction hr : remaining using Nat.strongRecOn generalizing txBuf remaining with
  | _ r ih =>
    subst hr
    unfold dmaPackets
    split
    case isTrue h => rw [h]; rfl
    case isFalse h =>
      dsimp only
      rw [ih _ (by omega) _ _ rfl, ← BitVec.ofNat_add]
      congr 1
      omega

/-- It makes no more accesses than the length has frames of its own size. -/
theorem dmaPackets_length (txBuf remaining : ℕ) :
    (dmaPackets mem dataLen countMax hpos txBuf remaining).1.length * accessBytes dataLen ≤
      remaining := by
  induction hr : remaining using Nat.strongRecOn generalizing txBuf remaining with
  | _ r ih =>
    subst hr
    unfold dmaPackets
    split
    case isTrue h => simp
    case isFalse h =>
      have hn := ih (remaining - min countMax remaining) (by omega)
        (txBuf + min countMax remaining) _ rfl
      have hdiv := Nat.div_mul_le_self (min countMax remaining) (accessBytes dataLen)
      dsimp only
      rw [List.length_append, List.length_map, List.length_range, Nat.add_mul]
      omega

/-- With frames of one byte it reads the data byte by byte. -/
theorem dmaPackets_bytes (h1 : dataBytes dataLen = 1) (txBuf remaining : ℕ) :
    (dmaPackets mem dataLen countMax hpos txBuf remaining).1 =
      (List.range remaining).map fun j => spiFrame dataLen (loadLe mem (txBuf + j) 1) := by
  have ha := accessBytes_eq_one.mpr h1
  induction hr : remaining using Nat.strongRecOn generalizing txBuf remaining with
  | _ r ih =>
    subst hr
    unfold dmaPackets
    split
    case isTrue h => simp [h]
    case isFalse h =>
      dsimp only
      rw [ih _ (by omega) _ _ rfl, ha, Nat.div_one]
      conv_rhs => rw [show remaining = min countMax remaining + (remaining - min countMax remaining)
        by omega, List.range_add, List.map_append, List.map_map]
      congr 1
      · simp
      · refine List.map_congr_left fun j _ => ?_
        rw [Function.comp_apply, Nat.add_assoc]

end

/-- The message of `transmitByFifo` has moved on by its length. -/
theorem sameMessage_iff (mem : ℕ → UInt8) (dataLen : BitVec 5) (msg : QspiMessage) (sendBuf : ℕ)
    (hbuf : msg.sendBuf = some sendBuf) (hlen : msg.length < 256) (dma : Transmitted)
    (hdma : dma.msg = msg) :
    SameMessage (transmitByFifo mem dataLen msg sendBuf) dma ↔ msg.length = 0 := by
  unfold SameMessage transmitByFifo
  rw [if_pos hlen, fifoUnit_iterate, hdma]
  have hpos : 0 < dataBytes dataLen := dataBytes_pos
  constructor
  · rintro ⟨t, ht, hmsg⟩
    cases ht
    have hs := congrArg (fun m : QspiMessage => m.sendBuf) hmsg
    dsimp only at hs
    rw [hbuf] at hs
    have hmul : msg.length * dataBytes dataLen = 0 := by
      have := Option.some.inj hs
      omega
    exact (Nat.mul_eq_zero.mp hmul).resolve_right (by omega)
  · intro h0
    have hs : sendBuf + msg.length * dataBytes dataLen = sendBuf := by
      rw [h0, Nat.zero_mul, Nat.add_zero]
    refine ⟨_, rfl, ?_⟩
    dsimp only
    rw [hs, ← hbuf]

/-- The data of the two is the same when a frame is one byte, and only then. -/
theorem sameData_iff (mem : ℕ → UInt8) (dataLen : BitVec 5) (countMax : ℕ) (hpos : 0 < countMax)
    (msg : QspiMessage) (sendBuf : ℕ) (hlen : msg.length < 256) :
    SameData (transmitByFifo mem dataLen msg sendBuf)
      (transmitByDma mem dataLen countMax hpos msg sendBuf) sendBuf msg.length ↔
      msg.length = 0 ∨ dataBytes dataLen = 1 := by
  unfold SameData transmitByFifo
  rw [if_pos hlen, fifoUnit_iterate]
  constructor
  · rintro ⟨t, ht, hframes, -, -⟩
    cases ht
    have hle : (dmaPackets mem dataLen countMax hpos sendBuf msg.length).1.length *
        accessBytes dataLen ≤ msg.length := dmaPackets_length sendBuf msg.length
    have hcount := congrArg List.length hframes
    rw [List.length_map, List.length_range] at hcount
    rw [← show msg.length = (dmaPackets mem dataLen countMax hpos sendBuf msg.length).1.length from
      hcount] at hle
    by_cases h0 : msg.length = 0
    · exact Or.inl h0
    · refine Or.inr ?_
      have hacc : accessBytes dataLen ≤ 1 := Nat.le_of_mul_le_mul_left (by omega)
        (Nat.pos_of_ne_zero h0)
      have hb : 0 < dataBytes dataLen := dataBytes_pos
      have hba : dataBytes dataLen ≤ accessBytes dataLen := dataBytes_le
      omega
  · intro h
    refine ⟨_, rfl, ?_⟩
    unfold transmitByDma
    dsimp only
    rw [dmaPackets_actual]
    rcases h with h0 | h1
    · rw [h0]
      unfold dmaPackets
      simp
    · have ha := accessBytes_eq_one.mpr h1
      rw [dmaPackets_bytes h1, h1, ha, Nat.mul_one]
      refine ⟨?_, rfl, fun a hm => ?_⟩
      · simp only [Nat.mul_one]
      · obtain ⟨j, hj, hm⟩ := List.mem_flatMap.mp hm
        have hin := List.mem_range'_1.mp hm
        have := List.mem_range.mp hj
        omega

/-- The length that `transmitUseFifo` counts is that of the frames. -/
theorem transmitUseFifo_actual (spi : HpmSpi) (hw : ∀ n, spi.succeeds n = true)
    (mem : ℕ → UInt8) (dataLen : BitVec 5) (hd : spi.dataLength = dataBytes dataLen)
    (msg : QspiMessage) (sendBuf name : ℕ) (hf : spi.usesFifo msg = true) (hlen : msg.length < 256)
    (p : SpiPort) :
    (transmitByFifo mem dataLen msg sendBuf).map (·.actual) =
      some (spi.transmitUseFifo msg name { remaining := msg.length, port := p }).actual := by
  have hspec := HpmSpi.transmitUseFifo_spec hw msg name { remaining := msg.length, port := p } rfl
  rw [if_pos hf] at hspec
  unfold transmitByFifo
  rw [if_pos hlen, fifoUnit_iterate, hspec.2.1, hd]
  simp

/-- **The FIFO and the DMA.** For every data width and every message that the FIFO holds, the FIFO path
does what the DMA path does, the message included, exactly when the message is empty; up to the
message they agree exactly when it is empty or a frame is one byte. -/
theorem spi_fifo (mem : ℕ → UInt8) (dataLen : BitVec 5) (countMax : ℕ) (hpos : 0 < countMax)
    (fifoDepth : ℕ) (hdepth : fifoDepth = 4 ∨ fifoDepth = 8) (msg : QspiMessage) (sendBuf : ℕ)
    (hbuf : msg.sendBuf = some sendBuf) (hlen : msg.length ≤ fifoDepth) :
    ((SameData (transmitByFifo mem dataLen msg sendBuf)
        (transmitByDma mem dataLen countMax hpos msg sendBuf) sendBuf msg.length ∧
      SameMessage (transmitByFifo mem dataLen msg sendBuf)
        (transmitByDma mem dataLen countMax hpos msg sendBuf)) ↔ msg.length = 0) ∧
    (SameData (transmitByFifo mem dataLen msg sendBuf)
      (transmitByDma mem dataLen countMax hpos msg sendBuf) sendBuf msg.length ↔
      msg.length = 0 ∨ dataBytes dataLen = 1) := by
  have hlt : msg.length < 256 := by omega
  have hdata := sameData_iff mem dataLen countMax hpos msg sendBuf hlt
  refine ⟨?_, hdata⟩
  rw [hdata, sameMessage_iff mem dataLen msg sendBuf hbuf hlt _ rfl]
  exact ⟨And.right, fun h0 => ⟨Or.inl h0, h0⟩⟩

/-- A byte frame and a message of three. -/
theorem spi_fifo_three :
    SameData (transmitByFifo UInt8.ofNat 7 (sendMessage 3) 0)
      (transmitByDma UInt8.ofNat 7 512 (by decide) (sendMessage 3) 0) 0 3 :=
  (spi_fifo UInt8.ofNat 7 512 (by decide) 4 (Or.inl rfl) (sendMessage 3) 0 rfl (by decide)).2.mpr
    (Or.inr (by decide))

/-- **The pointer of the message moves**: the FIFO path leaves it behind the data. -/
theorem spi_fifo_advanced : ¬ ∀ (mem : ℕ → UInt8) (dataLen : BitVec 5) (msg : QspiMessage)
    (sendBuf : ℕ), msg.sendBuf = some sendBuf → msg.length ≤ 4 →
    SameData (transmitByFifo mem dataLen msg sendBuf)
        (transmitByDma mem dataLen 512 (by decide) msg sendBuf) sendBuf msg.length ∧
      SameMessage (transmitByFifo mem dataLen msg sendBuf)
        (transmitByDma mem dataLen 512 (by decide) msg sendBuf) := by
  intro h
  have := (spi_fifo (fun _ => 0) 7 512 (by decide) 4 (Or.inl rfl) (sendMessage 3) 0 rfl
    (by decide)).1.mp (h (fun _ => 0) 7 (sendMessage 3) 0 rfl (by decide))
  exact absurd this (by decide)

end RtThread
