import Mathlib.Data.List.Count
import RtThread.Drivers.SpiBus

/-!
# Chains of messages on an hpm SPI bus

`rt_spi_transfer_message` calls `xfer` for every message of a chain, and the driver's `xfer` follows
`next` itself. A message is named by the number of messages behind it.

* `pollingLoop`, `dmaLoop`: the loops of the driver, over `hardware` (one transfer) and
  `subPackets`; `transferMessage`: the loop of the core around them;
* `SpiItem`, `expected`: what is clocked out, and what a chain should make of it;
* `clocked`, `total`: what one `xfer` clocks out and answers; `xfer_clocked`;
* **`spi_chain`**: a chain is clocked out message by message exactly when it meets `once`.
-/

namespace RtThread

/-! ## The driver -/

/-- `struct rt_qspi_message`: what the driver checks and what makes phases of its own. -/
structure QspiMessage extends SpiMessage where
  instructionLines : ℕ := 0
  addressSize : ℕ := 0
  addressLines : ℕ := 0
  alternateSize : ℕ := 0
  dummyCycles : ℕ := 0
deriving DecidableEq

/-- The bus, the device and the chip: whether DMA is enabled and `RT_USING_QSPI` is defined, the
modes of the bus and of the device, `qspi_dl_width`, the bytes of a data frame, the limits
`SPI_SOC_TRANSFER_COUNT_MAX` and `SPI_SOC_FIFO_DEPTH`, and which hardware transfers succeed. -/
structure HpmSpi where
  enableDma : Bool
  usingQspi : Bool
  qspiBus : Bool := false
  mode : BitVec 8 := 0
  dlWidth : ℕ := 1
  dataLength : ℕ := 1
  dataLength_pos : 0 < dataLength
  countMax : ℕ
  countMax_pos : 0 < countMax
  fifoDepth : ℕ
  succeeds : ℕ → Bool

/-- What is clocked out: a command or address phase of a message, or a byte of its data. -/
inductive SpiItem where
  | phase (name : ℕ)
  | byte (name : ℕ)
deriving DecidableEq

/-- The controller: what it has clocked out, and how many transfers it has started. -/
structure SpiPort where
  sent : List SpiItem := []
  transfers : ℕ := 0

/-- The variables of a loop: whether the last status is a success, `remaining_size`,
`actual_len`. -/
structure SpiLoop where
  stat : Bool := true
  remaining : ℕ
  actual : BitVec 32 := 0
  port : SpiPort

/-- `RT_SPI_MASTER`. -/
def spiMaster : BitVec 8 := 0

/-- `RT_SPI_SLAVE`. -/
def spiSlave : BitVec 8 := 8

/-- `RT_EINVAL`, which the checks return as it is. -/
def spiInvalid : BitVec 32 := 10

namespace HpmSpi

variable (spi : HpmSpi)

/-- The dummy cycles that `qspi_dl_width` lines allow. -/
def dummyOk (dlWidth dummyCycles : ℕ) : Bool :=
  match dlWidth with
  | 0 => true
  | 1 => dummyCycles == 0 || (dummyCycles ≤ 4 * 8 && dummyCycles % 8 == 0)
  | 2 => dummyCycles == 0 || (dummyCycles ≤ 4 * 4 && dummyCycles % 4 == 0)
  | 4 => dummyCycles == 0 || (dummyCycles ≤ 4 * 2 && dummyCycles % 2 == 0)
  | _ => false

/-- `hpm_spi_check_params`: whether the answer is `RT_EOK`. -/
def checkParams (msg : QspiMessage) : Bool :=
  !(spi.mode == spiSlave && decide (msg.length > spi.countMax)) &&
  !(spi.mode == spiSlave && (msg.recvBuf.isNone || msg.sendBuf.isNone)) &&
  (!(spi.usingQspi && spi.qspiBus) ||
    !(spi.mode &&& spiMaster == spiMaster && decide (msg.instructionLines > 1)) &&
    !(spi.mode &&& spiMaster == spiMaster && (msg.recvBuf.isSome && msg.sendBuf.isSome) &&
      decide (msg.dummyCycles > 0)) &&
    (msg.addressSize == 0 || [8, 16, 24, 32].contains msg.addressSize) &&
    (msg.addressLines == 0 || [1, 2, 4].contains msg.addressLines) &&
    msg.alternateSize == 0 && dummyOk spi.dlWidth msg.dummyCycles)

/-- `hpm_qspi_parse_phase_message`: whether it enables the command or the address phase, which
`hpm_spi_configure` has disabled. -/
def phases (msg : QspiMessage) : Bool :=
  spi.usingQspi && spi.qspiBus && spi.mode &&& spiMaster == spiMaster &&
    (msg.instructionLines == 1 || msg.addressSize != 0)

/-- A transfer of the hardware: the phases, and `count` data frames. -/
def hardware (name : ℕ) (phase : Bool) (count : ℕ) (p : SpiPort) : Bool × SpiPort :=
  (spi.succeeds p.transfers,
    { sent := p.sent ++ ((if phase then [.phase name] else []) ++
        List.replicate (count * spi.dataLength) (.byte name))
      transfers := p.transfers + 1 })

/-- The bytes of the phases of a message. -/
def phaseLength (msg : QspiMessage) : ℕ :=
  (if msg.instructionLines > 0 then 1 else 0) +
    match msg.addressSize with
    | 8 => 1
    | 16 => 2
    | 24 => 3
    | 32 => 4
    | _ => 0

/-- `hpm_spi_send_no_data`. -/
def sendNoData (msg : QspiMessage) (name : ℕ) (r : SpiLoop) : SpiLoop :=
  if spi.phases msg then
    let x := spi.hardware name true 0 r.port
    { r with actual := if x.1 then BitVec.ofNat 32 (phaseLength msg) else -8, port := x.2 }
  else { r with actual := 0 }

/-- The loop over the sub-packets of a message, the first of which has its phases. -/
def subPackets (msg : QspiMessage) (name index : ℕ) (r : SpiLoop) : SpiLoop :=
  if h : r.remaining = 0 then r
  else
    let transferLen := min spi.countMax r.remaining
    let x := if msg.sendBuf.isSome || msg.recvBuf.isSome then
        spi.hardware name (decide (index = 0) && spi.phases msg) transferLen r.port
      else (r.stat, r.port)
    if x.1 then
      subPackets msg name (index + 1)
        ⟨true, r.remaining - transferLen, r.actual + BitVec.ofNat 32 transferLen, x.2⟩
    else ⟨false, r.remaining, -8, x.2⟩
termination_by r.remaining
decreasing_by
  have := spi.countMax_pos
  omega

/-- The loop of `hpm_spi_xfer_polling`; only with `RT_USING_QSPI` does it read the length again. -/
def pollingLoop : List QspiMessage → SpiLoop → BitVec 32 × SpiPort
  | [], r => (r.actual, r.port)
  | msg :: next, r =>
    if spi.checkParams msg then
      let r :=
        if spi.usingQspi then
          let r := { r with remaining := msg.length }
          if msg.length = 0 then spi.sendNoData msg next.length r else r
        else r
      pollingLoop next (spi.subPackets msg next.length 0 r)
    else (spiInvalid, r.port)

/-- `hpm_spi_xfer_polling`. -/
def xferPolling (msg : List QspiMessage) (p : SpiPort) : BitVec 32 × SpiPort :=
  if spi.mode == spiSlave then (-spiInvalid, p)
  else spi.pollingLoop msg { remaining := (msg.head?.map (·.length)).getD 0, port := p }

/-- `hpm_spi_transmit_use_fifo`; `stat` is a failure when the FIFO is not used. -/
def transmitUseFifo (msg : QspiMessage) (name : ℕ) (r : SpiLoop) : SpiLoop :=
  if decide (r.remaining ≤ spi.fifoDepth) && spi.mode &&& spiMaster == spiMaster &&
      msg.sendBuf.isSome && msg.recvBuf.isNone then
    let x := spi.hardware name (spi.phases msg) r.remaining r.port
    if x.1 then
      ⟨true, r.remaining, r.actual + BitVec.ofNat 32 (r.remaining * spi.dataLength), x.2⟩
    else { r with stat := false, port := x.2 }
  else { r with stat := false }

/-- The loop of `hpm_spi_xfer_dma`. -/
def dmaLoop : List QspiMessage → SpiLoop → BitVec 32 × SpiPort
  | [], r => (r.actual, r.port)
  | msg :: next, r =>
    if spi.checkParams msg then
      let r := { r with remaining := msg.length }
      if msg.length = 0 then
        let r := if spi.usingQspi then spi.sendNoData msg next.length r else r
        if r.stat then dmaLoop next r else (-8, r.port)
      else
        let f := spi.transmitUseFifo msg next.length r
        if f.stat then dmaLoop next f
        else
          let r := spi.subPackets msg next.length 0 f
          if r.stat then dmaLoop next r else (-8, r.port)
    else (spiInvalid, r.port)

/-- `hpm_spi_xfer`. -/
def xfer (msg : List QspiMessage) (p : SpiPort) : BitVec 32 × SpiPort :=
  if spi.enableDma then spi.dmaLoop msg { remaining := 0, port := p } else spi.xferPolling msg p

/-- `rt_spi_transfer_message` on a bus that its device owns. -/
def transferMessage (message : List QspiMessage) : List QspiMessage × SpiPort :=
  transmitEach (fun l p => ((spi.xfer l p).1.toInt, (spi.xfer l p).2)) message {}

/-! ## Once each -/

/-- What a message should make the bus clock out. -/
def items (msg : QspiMessage) (name : ℕ) : List SpiItem :=
  (if spi.phases msg then [.phase name] else []) ++ List.replicate msg.length (.byte name)

/-- **Every message once**, in the order of the chain, with its own length. -/
def expected : List QspiMessage → List SpiItem
  | [] => []
  | msg :: next => spi.items msg next.length ++ expected next

/-- A message that clocks nothing out: it is empty, and has no phases. -/
def silent (msg : QspiMessage) : Bool := msg.length == 0 && !spi.phases msg

/-- A message whose frames are its bytes. -/
def fits (msg : QspiMessage) : Bool := msg.length == 0 || spi.dataLength == 1

/-- When `hpm_spi_transmit_use_fifo` takes a message. -/
def usesFifo (msg : QspiMessage) : Bool :=
  decide (msg.length ≤ spi.fifoDepth) && msg.sendBuf.isSome && msg.recvBuf.isNone

/-- What a message adds to `actual_len` in a loop that reads every length: an empty one sets it. -/
def count (msg : QspiMessage) (actual : BitVec 32) : BitVec 32 :=
  if msg.length = 0 then
    if spi.usingQspi then BitVec.ofNat 32 (if spi.phases msg then phaseLength msg else 0)
    else actual
  else if spi.enableDma && spi.usesFifo msg then
    actual + BitVec.ofNat 32 (msg.length * spi.dataLength)
  else actual + BitVec.ofNat 32 msg.length

/-- The sum over a chain, up to a message that is rejected. -/
def total (actual : BitVec 32) : List QspiMessage → BitVec 32
  | [] => actual
  | msg :: next =>
    if spi.checkParams msg then total (spi.count msg actual) next else spiInvalid

/-- The condition when `xfer` clocks out one message. -/
def onceFirst : List QspiMessage → Bool
  | [] => true
  | msg :: next =>
    spi.fits msg &&
      if (BitVec.ofNat 32 msg.length).toInt < 0 then next.all spi.silent else onceFirst next

/-- The condition when `xfer` follows the chain: what is behind a message, up to one that is
rejected, is silent; a rejected message is silent too. -/
def onceEach : List QspiMessage → Bool
  | [] => true
  | msg :: next =>
    if spi.checkParams msg then
      if (spi.total 0 (msg :: next)).toInt < 0 then (msg :: next).all spi.fits
      else spi.fits msg && (next.takeWhile spi.checkParams).all spi.silent && onceEach next
    else spi.silent msg && onceEach next

/-- **The condition** on a chain. -/
def once (chain : List QspiMessage) : Bool :=
  if !spi.enableDma && spi.mode == spiSlave then chain.all spi.silent
  else if spi.enableDma || spi.usingQspi then spi.onceEach chain
  else spi.onceFirst chain

/-! ## What one `xfer` clocks out -/

/-- What the driver makes the bus clock out for a message. -/
def driven (msg : QspiMessage) (name : ℕ) : List SpiItem :=
  (if spi.phases msg then [.phase name] else []) ++
    List.replicate (msg.length * spi.dataLength) (.byte name)

/-- What a loop over a chain clocks out that reads every length. -/
def clocked : List QspiMessage → List SpiItem
  | [] => []
  | msg :: next =>
    if spi.checkParams msg then spi.driven msg next.length ++ clocked next else []

section

variable {spi} {msg : QspiMessage} {name index : ℕ} {r : SpiLoop} {p : SpiPort}

/-- A message has a buffer. -/
def Buffered (msg : QspiMessage) : Prop := (msg.sendBuf.isSome || msg.recvBuf.isSome) = true

theorem hardware_fst (hw : ∀ n, spi.succeeds n = true) (phase : Bool) (count : ℕ) :
    (spi.hardware name phase count p).1 = true := hw _

/-- **The sub-packets of a message**: together they are the message. -/
theorem subPackets_spec (hw : ∀ n, spi.succeeds n = true) (hb : Buffered msg) (name index : ℕ)
    (r : SpiLoop) :
    (spi.subPackets msg name index r).remaining = 0 ∧
    (spi.subPackets msg name index r).stat = (r.stat || decide (r.remaining ≠ 0)) ∧
    (spi.subPackets msg name index r).actual = r.actual + BitVec.ofNat 32 r.remaining ∧
    (spi.subPackets msg name index r).port.sent = r.port.sent ++
      ((if r.remaining ≠ 0 ∧ index = 0 ∧ spi.phases msg = true then [.phase name] else []) ++
        List.replicate (r.remaining * spi.dataLength) (.byte name)) := by
  induction hr : r.remaining using Nat.strongRecOn generalizing index r with
  | _ n ih =>
    subst hr
    unfold subPackets
    split
    case isTrue h => simp [h]
    case isFalse h =>
      rw [Buffered] at hb
      have hlen : min spi.countMax r.remaining ≤ r.remaining := Nat.min_le_right _ _
      have hpos : 0 < min spi.countMax r.remaining := by
        have := spi.countMax_pos
        omega
      simp only [hb, if_true, hardware_fst hw]
      obtain ⟨h1, h2, h3, h4⟩ := ih _ (by dsimp only; omega) (index + 1)
        ⟨true, r.remaining - min spi.countMax r.remaining,
          r.actual + BitVec.ofNat 32 (min spi.countMax r.remaining),
          (spi.hardware name (decide (index = 0) && spi.phases msg)
            (min spi.countMax r.remaining) r.port).2⟩ rfl
      refine ⟨h1, ?_, ?_, ?_⟩
      · rw [h2]
        simp [h]
      · rw [h3, BitVec.add_assoc, ← BitVec.ofNat_add]
        dsimp only
        rw [show min spi.countMax r.remaining + (r.remaining - min spi.countMax r.remaining) =
          r.remaining by omega]
      · rw [h4]
        have hsum : min spi.countMax r.remaining * spi.dataLength +
            (r.remaining - min spi.countMax r.remaining) * spi.dataLength =
            r.remaining * spi.dataLength := by
          rw [← Nat.add_mul]
          congr 1
          omega
        simp [hardware, List.replicate_append_replicate, hsum, h]

/-- A message of length 0 has its phases clocked out, and sets `actual_len`. -/
theorem sendNoData_spec (hw : ∀ n, spi.succeeds n = true) (msg : QspiMessage) (name : ℕ)
    (r : SpiLoop) :
    (spi.sendNoData msg name r).remaining = r.remaining ∧
    (spi.sendNoData msg name r).stat = r.stat ∧
    (spi.sendNoData msg name r).actual =
      BitVec.ofNat 32 (if spi.phases msg then phaseLength msg else 0) ∧
    (spi.sendNoData msg name r).port.sent =
      r.port.sent ++ if spi.phases msg then [.phase name] else [] := by
  unfold sendNoData
  split <;> simp [hardware, *]

/-- `RT_SPI_MASTER` is 0: every mode has it. -/
theorem and_spiMaster (mode : BitVec 8) : (mode &&& spiMaster == spiMaster) = true := by
  simp [spiMaster]

/-- The FIFO takes a message as a whole, or leaves it. -/
theorem transmitUseFifo_spec (hw : ∀ n, spi.succeeds n = true) (msg : QspiMessage) (name : ℕ)
    (r : SpiLoop) (hr : r.remaining = msg.length) :
    if spi.usesFifo msg then
      (spi.transmitUseFifo msg name r).stat = true ∧
      (spi.transmitUseFifo msg name r).actual =
        r.actual + BitVec.ofNat 32 (msg.length * spi.dataLength) ∧
      (spi.transmitUseFifo msg name r).port.sent = r.port.sent ++ spi.driven msg name
    else spi.transmitUseFifo msg name r = { r with stat := false } := by
  unfold transmitUseFifo usesFifo
  rw [hr, and_spiMaster, Bool.and_true]
  split
  · simp [hardware, hw, driven]
  · rfl

/-- Without `RT_USING_QSPI` no message has phases. -/
theorem phases_of_not_qspi (hq : spi.usingQspi = false) (msg : QspiMessage) :
    spi.phases msg = false := by
  simp [phases, hq]

/-- A message in the DMA loop: its items, its count. -/
theorem dmaLoop_spec (hw : ∀ n, spi.succeeds n = true) (hdma : spi.enableDma = true)
    (chain : List QspiMessage) (hb : ∀ msg ∈ chain, Buffered msg) (r : SpiLoop)
    (hr : r.stat = true) :
    (spi.dmaLoop chain r).2.sent = r.port.sent ++ spi.clocked chain ∧
    (spi.dmaLoop chain r).1 = spi.total r.actual chain := by
  induction chain generalizing r with
  | nil => simp [dmaLoop, clocked, total]
  | cons msg next ih =>
    have hbm : Buffered msg := hb msg List.mem_cons_self
    have hbn : ∀ m ∈ next, Buffered m := fun m hm => hb m (List.mem_cons_of_mem _ hm)
    unfold dmaLoop clocked total
    by_cases hc : spi.checkParams msg = true
    · rw [if_pos hc, if_pos hc, if_pos hc]
      dsimp only
      by_cases h0 : msg.length = 0
      · rw [if_pos h0]
        by_cases hq : spi.usingQspi = true
        · obtain ⟨-, h2, h3, h4⟩ := sendNoData_spec hw msg next.length
            { r with remaining := msg.length }
          rw [if_pos hq, if_pos (h2.trans hr)]
          have hn := ih hbn _ (h2.trans hr)
          rw [hn.1, hn.2, h3, h4]
          simp [driven, count, h0, hq]
        · have hp := phases_of_not_qspi ((Bool.not_eq_true _).mp hq) msg
          rw [if_neg hq, if_pos hr]
          have hn := ih hbn { r with remaining := msg.length } hr
          rw [hn.1, hn.2]
          simp [driven, count, h0, hq, hp]
      · rw [if_neg h0]
        have hf := transmitUseFifo_spec hw msg next.length { r with remaining := msg.length } rfl
        split at hf
        case isTrue hu =>
          obtain ⟨h2, h3, h4⟩ := hf
          rw [if_pos h2]
          have hn := ih hbn _ h2
          rw [hn.1, hn.2, h3, h4]
          simp [count, h0, hdma, hu]
        case isFalse hu =>
          rw [hf, if_neg Bool.false_ne_true]
          obtain ⟨-, h2, h3, h4⟩ := subPackets_spec hw hbm next.length 0
            { r with stat := false, remaining := msg.length }
          have hs : (spi.subPackets msg next.length 0
              { r with stat := false, remaining := msg.length }).stat = true := by
            rw [h2]
            simp [h0]
          rw [if_pos hs]
          have hn := ih hbn _ hs
          rw [hn.1, hn.2, h3, h4]
          simp [driven, count, h0, hdma, hu]
    · rw [if_neg hc, if_neg hc, if_neg hc]
      simp

/-- The polling loop with `RT_USING_QSPI` reads every length. -/
theorem pollingLoop_qspi (hw : ∀ n, spi.succeeds n = true) (hdma : spi.enableDma = false)
    (hq : spi.usingQspi = true) (chain : List QspiMessage) (hb : ∀ msg ∈ chain, Buffered msg)
    (r : SpiLoop) :
    (spi.pollingLoop chain r).2.sent = r.port.sent ++ spi.clocked chain ∧
    (spi.pollingLoop chain r).1 = spi.total r.actual chain := by
  induction chain generalizing r with
  | nil => simp [pollingLoop, clocked, total]
  | cons msg next ih =>
    have hbm : Buffered msg := hb msg List.mem_cons_self
    have hbn : ∀ m ∈ next, Buffered m := fun m hm => hb m (List.mem_cons_of_mem _ hm)
    unfold pollingLoop clocked total
    by_cases hc : spi.checkParams msg = true
    · rw [if_pos hc, if_pos hc, if_pos hc]
      dsimp only
      rw [if_pos hq]
      have hn := ih hbn
      by_cases h0 : msg.length = 0
      · rw [if_pos h0]
        obtain ⟨h1, -, h3, h4⟩ := sendNoData_spec hw msg next.length
          { r with remaining := msg.length }
        obtain ⟨-, -, g3, g4⟩ := subPackets_spec hw hbm next.length 0
          (spi.sendNoData msg next.length { r with remaining := msg.length })
        rw [(hn _).1, (hn _).2, g3, g4, h1, h3, h4]
        simp [driven, count, h0, hq]
      · rw [if_neg h0]
        obtain ⟨-, -, g3, g4⟩ := subPackets_spec hw hbm next.length 0
          { r with remaining := msg.length }
        rw [(hn _).1, (hn _).2, g3, g4]
        simp [driven, count, h0, hdma]
    · rw [if_neg hc, if_neg hc, if_neg hc]
      simp

/-- A master without `RT_USING_QSPI` passes the checks. -/
theorem checkParams_master (hq : spi.usingQspi = false) (hs : (spi.mode == spiSlave) = false)
    (msg : QspiMessage) : spi.checkParams msg = true := by
  simp [checkParams, hq, hs]

/-- **The polling loop without `RT_USING_QSPI`** has nothing left behind the first message. -/
theorem pollingLoop_zero (hw : ∀ n, spi.succeeds n = true) (hq : spi.usingQspi = false)
    (hs : (spi.mode == spiSlave) = false) (chain : List QspiMessage)
    (hb : ∀ msg ∈ chain, Buffered msg) (r : SpiLoop) (hr : r.remaining = 0) :
    (spi.pollingLoop chain r).2.sent = r.port.sent ∧ (spi.pollingLoop chain r).1 = r.actual := by
  induction chain generalizing r with
  | nil => exact ⟨rfl, rfl⟩
  | cons msg next ih =>
    have hbm : Buffered msg := hb msg List.mem_cons_self
    have hbn : ∀ m ∈ next, Buffered m := fun m hm => hb m (List.mem_cons_of_mem _ hm)
    unfold pollingLoop
    rw [if_pos (checkParams_master hq hs msg)]
    dsimp only
    rw [hq, if_neg Bool.false_ne_true]
    obtain ⟨h1, -, h3, h4⟩ := subPackets_spec hw hbm next.length 0 r
    have hn := ih hbn _ h1
    rw [hn.1, hn.2, h3, h4]
    simp [hr]

theorem pollingLoop_first (hw : ∀ n, spi.succeeds n = true) (hq : spi.usingQspi = false)
    (hs : (spi.mode == spiSlave) = false) (next : List QspiMessage)
    (hb : ∀ m ∈ msg :: next, Buffered m) (r : SpiLoop) (hr : r.remaining = msg.length) :
    (spi.pollingLoop (msg :: next) r).2.sent = r.port.sent ++ spi.driven msg next.length ∧
    (spi.pollingLoop (msg :: next) r).1 = r.actual + BitVec.ofNat 32 msg.length := by
  have hbm : Buffered msg := hb msg List.mem_cons_self
  have hbn : ∀ m ∈ next, Buffered m := fun m hm => hb m (List.mem_cons_of_mem _ hm)
  unfold pollingLoop
  rw [if_pos (checkParams_master hq hs msg)]
  dsimp only
  rw [hq, if_neg Bool.false_ne_true]
  obtain ⟨h1, -, h3, h4⟩ := subPackets_spec hw hbm next.length 0 r
  have hn := pollingLoop_zero hw hq hs next hbn _ h1
  rw [hn.1, hn.2, h3, h4]
  simp [driven, hr, phases_of_not_qspi hq]

end

/-! ## What the core makes of it -/

/-- What `xfer` clocks out. -/
def run : List QspiMessage → List SpiItem
  | [] => []
  | msg :: next =>
    if !spi.enableDma && spi.mode == spiSlave then []
    else if spi.enableDma || spi.usingQspi then spi.clocked (msg :: next)
    else spi.driven msg next.length

/-- What `xfer` answers. -/
def answer : List QspiMessage → BitVec 32
  | [] => 0
  | msg :: next =>
    if !spi.enableDma && spi.mode == spiSlave then -spiInvalid
    else if spi.enableDma || spi.usingQspi then spi.total 0 (msg :: next)
    else BitVec.ofNat 32 msg.length

/-- What the core clocks out: `xfer` of every message, up to a negative answer. -/
def wire : List QspiMessage → List SpiItem
  | [] => []
  | msg :: next =>
    spi.run (msg :: next) ++ if (spi.answer (msg :: next)).toInt < 0 then [] else wire next

section

variable {spi} {msg : QspiMessage} {next chain : List QspiMessage} {n : ℕ} {x : SpiItem}
  {p : SpiPort}

/-- **One `xfer`.** -/
theorem xfer_clocked (hw : ∀ n, spi.succeeds n = true) (hb : ∀ m ∈ msg :: next, Buffered m)
    (p : SpiPort) :
    (spi.xfer (msg :: next) p).2.sent = p.sent ++ spi.run (msg :: next) ∧
    (spi.xfer (msg :: next) p).1 = spi.answer (msg :: next) := by
  unfold xfer run answer
  by_cases hdma : spi.enableDma = true
  · simp only [hdma, if_true, Bool.not_true, Bool.false_and, Bool.true_or,
      if_neg Bool.false_ne_true]
    exact dmaLoop_spec hw hdma (msg :: next) hb _ rfl
  · have hd : spi.enableDma = false := (Bool.not_eq_true _).mp hdma
    rw [if_neg hdma]
    unfold xferPolling
    by_cases hs : (spi.mode == spiSlave) = true
    · simp [hd, hs]
    · have hs' : (spi.mode == spiSlave) = false := (Bool.not_eq_true _).mp hs
      simp only [hd, hs', Bool.not_false, Bool.and_false, if_neg Bool.false_ne_true,
        Bool.false_or]
      by_cases hq : spi.usingQspi = true
      · rw [if_pos hq, if_pos hq]
        exact pollingLoop_qspi hw hd hq (msg :: next) hb _
      · rw [if_neg hq, if_neg hq]
        have h := pollingLoop_first hw ((Bool.not_eq_true _).mp hq) hs' next hb
          { remaining := msg.length, port := p } rfl
        exact ⟨h.1, h.2.trans (BitVec.zero_add _)⟩

/-- The loop of the core. -/
theorem transmitEach_wire (hw : ∀ n, spi.succeeds n = true) (hb : ∀ m ∈ chain, Buffered m)
    (p : SpiPort) :
    (transmitEach (fun l p => ((spi.xfer l p).1.toInt, (spi.xfer l p).2)) chain p).2.sent =
      p.sent ++ spi.wire chain := by
  induction chain generalizing p with
  | nil => simp [transmitEach, wire]
  | cons msg next ih =>
    have hx := xfer_clocked hw hb p
    unfold transmitEach wire
    dsimp only
    rw [hx.2]
    split_ifs
    · rw [hx.1, List.append_nil]
    · rw [ih (fun m hm => hb m (List.mem_cons_of_mem _ hm)), hx.1, List.append_assoc]

/-! ## Names -/

end

end HpmSpi

/-- The message an item is of. -/
def SpiItem.name : SpiItem → ℕ
  | .phase name => name
  | .byte name => name

/-- Two lists of items of the message `n`, each with older items behind it. -/
theorem append_eq_append_of_name {n : ℕ} {a a' b b' : List SpiItem} (ha : ∀ x ∈ a, x.name = n)
    (ha' : ∀ x ∈ a', x.name = n) (hb : ∀ x ∈ b, x.name < n) (hb' : ∀ x ∈ b', x.name < n) :
    a ++ b = a' ++ b' ↔ a = a' ∧ b = b' := by
  refine ⟨fun h => ?_, fun h => by rw [h.1, h.2]⟩
  have hself : ∀ l : List SpiItem, (∀ x ∈ l, x.name = n) → l.filter (fun x => x.name == n) = l :=
    fun l hl => List.filter_eq_self.mpr fun x hx => beq_iff_eq.mpr (hl x hx)
  have hnil : ∀ l : List SpiItem, (∀ x ∈ l, x.name < n) → l.filter (fun x => x.name == n) = [] :=
    fun l hl => List.filter_eq_nil_iff.mpr fun x hx => by
      have := hl x hx
      simp only [beq_iff_eq]
      omega
  have hf := congrArg (List.filter fun x => x.name == n) h
  rw [List.filter_append, List.filter_append, hself a ha, hself a' ha', hnil b hb, hnil b' hb',
    List.append_nil, List.append_nil] at hf
  refine ⟨hf, ?_⟩
  rw [hf] at h
  exact List.append_cancel_left h

namespace HpmSpi

section

variable {spi : HpmSpi} {msg : QspiMessage} {next chain : List QspiMessage} {n : ℕ} {x : SpiItem}

theorem name_items (h : x ∈ spi.items msg n) : x.name = n := by
  rcases List.mem_append.mp h with h | h
  · split_ifs at h
    · rw [List.mem_singleton.mp h, SpiItem.name]
    · exact absurd h List.not_mem_nil
  · rw [List.eq_of_mem_replicate h, SpiItem.name]

theorem name_driven (h : x ∈ spi.driven msg n) : x.name = n := by
  rcases List.mem_append.mp h with h | h
  · split_ifs at h
    · rw [List.mem_singleton.mp h, SpiItem.name]
    · exact absurd h List.not_mem_nil
  · rw [List.eq_of_mem_replicate h, SpiItem.name]

theorem name_expected (h : x ∈ spi.expected chain) : x.name < chain.length := by
  induction chain with
  | nil => exact absurd h List.not_mem_nil
  | cons msg next ih =>
    rw [List.length_cons]
    rcases List.mem_append.mp h with h | h
    · rw [name_items h]
      omega
    · exact Nat.lt_succ_of_lt (ih h)

theorem name_clocked (h : x ∈ spi.clocked chain) : x.name < chain.length := by
  induction chain with
  | nil => exact absurd h List.not_mem_nil
  | cons msg next ih =>
    rw [List.length_cons]
    unfold clocked at h
    split_ifs at h
    · rcases List.mem_append.mp h with h | h
      · rw [name_driven h]
        omega
      · exact Nat.lt_succ_of_lt (ih h)
    · exact absurd h List.not_mem_nil

theorem name_run (h : x ∈ spi.run chain) : x.name < chain.length := by
  cases chain with
  | nil => exact absurd h List.not_mem_nil
  | cons msg next =>
    unfold run at h
    split_ifs at h
    · exact absurd h List.not_mem_nil
    · exact name_clocked h
    · rw [name_driven h, List.length_cons]
      omega

theorem name_wire (h : x ∈ spi.wire chain) : x.name < chain.length := by
  induction chain with
  | nil => exact absurd h List.not_mem_nil
  | cons msg next ih =>
    rcases List.mem_append.mp h with h | h
    · exact name_run h
    · split_ifs at h
      · exact absurd h List.not_mem_nil
      · exact Nat.lt_succ_of_lt (ih h)

theorem items_eq_nil : spi.items msg n = [] ↔ spi.silent msg = true := by
  simp [items, silent, and_comm]

theorem driven_eq_nil : spi.driven msg n = [] ↔ spi.silent msg = true := by
  have hne : spi.dataLength ≠ 0 := Nat.pos_iff_ne_zero.mp spi.dataLength_pos
  have hmul : msg.length * spi.dataLength = 0 ↔ msg.length = 0 :=
    Nat.mul_eq_zero.trans (or_iff_left hne)
  rw [driven, silent, List.append_eq_nil_iff, List.replicate_eq_nil_iff, hmul]
  simp [and_comm]

theorem driven_eq_items : spi.driven msg n = spi.items msg n ↔ spi.fits msg = true := by
  rw [driven, items, List.append_cancel_left_eq, fits]
  constructor
  · intro h
    have hl := congrArg List.length h
    rw [List.length_replicate, List.length_replicate] at hl
    by_cases h0 : msg.length = 0
    · simp [h0]
    · simp [(Nat.mul_eq_left h0).mp hl]
  · intro h
    rcases (Bool.or_eq_true _ _).mp h with h | h
    · simp [beq_iff_eq.mp h]
    · simp [beq_iff_eq.mp h]

/-! ## Exactly once -/

theorem clocked_eq_nil :
    spi.clocked chain = [] ↔ (chain.takeWhile spi.checkParams).all spi.silent = true := by
  induction chain with
  | nil => simp [clocked]
  | cons msg next ih =>
    unfold clocked
    by_cases hc : spi.checkParams msg = true
    · rw [if_pos hc, List.takeWhile_cons_of_pos hc, List.append_eq_nil_iff, driven_eq_nil, ih,
        List.all_cons, Bool.and_eq_true]
    · rw [if_neg hc, List.takeWhile_cons_of_neg hc]
      simp

theorem expected_eq_nil : spi.expected chain = [] ↔ chain.all spi.silent = true := by
  induction chain with
  | nil => simp [expected]
  | cons msg next ih =>
    rw [expected, List.append_eq_nil_iff, items_eq_nil, ih, List.all_cons, Bool.and_eq_true]

/-- A chain whose messages all pass the checks is clocked out once when its frames are bytes. -/
theorem clocked_eq_expected (h : ∀ m ∈ chain, spi.checkParams m = true) :
    spi.clocked chain = spi.expected chain ↔ chain.all spi.fits = true := by
  induction chain with
  | nil => simp [clocked, expected]
  | cons msg next ih =>
    have hn := ih fun m hm => h m (List.mem_cons_of_mem _ hm)
    rw [clocked, if_pos (h msg List.mem_cons_self), expected,
      append_eq_append_of_name (fun x hx => name_driven hx) (fun x hx => name_items hx)
        (fun x hx => name_clocked hx) (fun x hx => name_expected hx),
      driven_eq_items, hn, List.all_cons, Bool.and_eq_true]

/-- No item stands more often in a message than in what the driver makes of it. -/
theorem count_items_le (msg : QspiMessage) (n : ℕ) (x : SpiItem) :
    (spi.items msg n).count x ≤ (spi.driven msg n).count x := by
  have := spi.dataLength_pos
  rw [items, driven, List.count_append, List.count_append, List.count_replicate,
    List.count_replicate]
  have hle : msg.length ≤ msg.length * spi.dataLength := Nat.le_mul_of_pos_right _ this
  split_ifs <;> omega

/-- An item that is clocked out stands no more often in the whole chain. -/
theorem count_expected_le (h : x ∈ spi.clocked chain) :
    (spi.expected chain).count x ≤ (spi.clocked chain).count x := by
  induction chain with
  | nil => exact absurd h List.not_mem_nil
  | cons msg next ih =>
    unfold clocked at h ⊢
    split_ifs at h ⊢ with hc
    · rw [expected, List.count_append, List.count_append]
      rcases List.mem_append.mp h with hx | hx
      · have h0 : (spi.expected next).count x = 0 := by
          refine List.count_eq_zero.mpr fun hy => ?_
          have := name_expected hy
          rw [name_driven hx] at this
          omega
        have : (spi.items msg next.length).count x ≤ (spi.driven msg next.length).count x :=
          count_items_le msg next.length x
        omega
      · have h0 : (spi.items msg next.length).count x = 0 := by
          refine List.count_eq_zero.mpr fun hy => ?_
          have := name_clocked hx
          rw [name_items hy] at this
          omega
        have := ih hx
        omega
    · exact absurd h List.not_mem_nil

/-- **Twice is too often**: what one `xfer` clocks out behind its message, the next clocks out
again. -/
theorem clocked_append_wire (hrun : spi.run chain = spi.clocked chain) :
    spi.clocked chain ++ spi.wire chain = spi.expected chain ↔
      spi.clocked chain = [] ∧ spi.wire chain = spi.expected chain := by
  constructor
  · intro h
    have hnil : spi.clocked chain = [] := by
      by_contra hne
      obtain ⟨x, hx⟩ := List.exists_mem_of_ne_nil _ hne
      have hle := count_expected_le hx
      have hpos : 0 < (spi.clocked chain).count x := List.count_pos_iff.mpr hx
      have hw : (spi.clocked chain).count x ≤ (spi.wire chain).count x := by
        cases chain with
        | nil => exact Nat.le_refl _
        | cons msg next =>
          rw [wire, hrun, List.count_append]
          exact Nat.le_add_right _ _
      have hc := congrArg (List.count x) h
      rw [List.count_append] at hc
      omega
    refine ⟨hnil, ?_⟩
    rw [hnil, List.nil_append] at h
    exact h
  · intro h
    rw [h.1, List.nil_append]
    exact h.2

/-- A negative sum: no message is rejected. -/
theorem checkParams_of_total_neg {actual : BitVec 32} (h : (spi.total actual chain).toInt < 0) :
    ∀ m ∈ chain, spi.checkParams m = true := by
  induction chain generalizing actual with
  | nil => exact fun m hm => absurd hm List.not_mem_nil
  | cons msg next ih =>
    unfold total at h
    split_ifs at h with hc
    · intro m hm
      rcases List.mem_cons.mp hm with rfl | hm
      · exact hc
      · exact ih h m hm
    · exact absurd h (by decide)

theorem total_rejected (hc : ¬ spi.checkParams msg = true) (actual : BitVec 32) :
    spi.total actual (msg :: next) = spiInvalid := by
  rw [total, if_neg hc]

/-- The driver follows the chain. -/
theorem wire_each (hs : (!spi.enableDma && spi.mode == spiSlave) = false)
    (hq : (spi.enableDma || spi.usingQspi) = true) :
    spi.wire chain = spi.expected chain ↔ spi.onceEach chain = true := by
  have hrun : ∀ l, spi.run l = spi.clocked l := by
    intro l
    cases l with
    | nil => rfl
    | cons msg next => rw [run, hs, if_neg Bool.false_ne_true, if_pos hq]
  have hans : ∀ msg next, spi.answer (msg :: next) = spi.total 0 (msg :: next) := by
    intro msg next
    rw [answer, hs, if_neg Bool.false_ne_true, if_pos hq]
  induction chain with
  | nil => simp [wire, expected, onceEach]
  | cons msg next ih =>
    have hnext : spi.wire next = spi.expected next ↔ spi.onceEach next = true := ih
    rw [wire, hrun, hans]
    by_cases hc : spi.checkParams msg = true
    · by_cases hneg : (spi.total 0 (msg :: next)).toInt < 0
      · rw [if_pos hneg, List.append_nil, clocked_eq_expected (checkParams_of_total_neg hneg),
          onceEach, if_pos hc, if_pos hneg]
      · have hx : ∀ x ∈ spi.clocked next ++ spi.wire next, x.name < next.length := by
          intro x hx
          rcases List.mem_append.mp hx with h | h
          · exact name_clocked h
          · exact name_wire h
        rw [if_neg hneg, onceEach, if_pos hc, if_neg hneg, clocked, if_pos hc, expected,
          List.append_assoc, append_eq_append_of_name (fun x hx => name_driven hx)
            (fun x hx => name_items hx) hx (fun x hx => name_expected hx),
          clocked_append_wire (hrun next), driven_eq_items, clocked_eq_nil, hnext, Bool.and_eq_true,
          Bool.and_eq_true, and_assoc]
    · have hpos : ¬ (spi.total 0 (msg :: next)).toInt < 0 := by
        rw [total_rejected hc]
        decide
      have happ : [] ++ spi.wire next = spi.items msg next.length ++ spi.expected next ↔
          [] = spi.items msg next.length ∧ spi.wire next = spi.expected next :=
        append_eq_append_of_name (fun x hx => absurd hx List.not_mem_nil)
          (fun x hx => name_items hx) (fun x hx => name_wire hx) (fun x hx => name_expected hx)
      rw [if_neg hpos, onceEach, if_neg hc, clocked, if_neg hc, expected, happ, eq_comm,
        items_eq_nil, hnext, Bool.and_eq_true]

/-- The driver clocks out the first message. -/
theorem wire_first (hq : (spi.enableDma || spi.usingQspi) = false)
    (hs : (!spi.enableDma && spi.mode == spiSlave) = false) :
    spi.wire chain = spi.expected chain ↔ spi.onceFirst chain = true := by
  induction chain with
  | nil => simp [wire, expected, onceFirst]
  | cons msg next ih =>
    rw [wire, run, answer, hs, hq, if_neg Bool.false_ne_true, if_neg Bool.false_ne_true,
      if_neg Bool.false_ne_true, if_neg Bool.false_ne_true, expected, onceFirst, Bool.and_eq_true]
    by_cases hneg : (BitVec.ofNat 32 msg.length).toInt < 0
    · rw [if_pos hneg, if_pos hneg, append_eq_append_of_name (fun x hx => name_driven hx)
        (fun x hx => name_items hx) (fun x hx => absurd hx List.not_mem_nil)
        (fun x hx => name_expected hx), driven_eq_items, eq_comm (a := []), expected_eq_nil]
    · rw [if_neg hneg, if_neg hneg, append_eq_append_of_name (fun x hx => name_driven hx)
        (fun x hx => name_items hx) (fun x hx => name_wire hx) (fun x hx => name_expected hx),
        driven_eq_items, ih]

/-- A slave is refused. -/
theorem wire_slave (hs : (!spi.enableDma && spi.mode == spiSlave) = true) :
    spi.wire chain = [] := by
  cases chain with
  | nil => rfl
  | cons msg next =>
    rw [wire, run, answer, if_pos hs, if_pos hs, if_pos (by decide)]
    rfl

end

end HpmSpi

/-- **Every message once**: when the hardware transfers succeed, a chain of messages that have a
buffer is clocked out message by message, each with its own length, exactly when it meets the
condition. -/
theorem spi_chain (spi : HpmSpi) (hw : ∀ n, spi.succeeds n = true) (chain : List QspiMessage)
    (hb : ∀ msg ∈ chain, (msg.sendBuf.isSome || msg.recvBuf.isSome) = true) :
    (spi.transferMessage chain).2.sent = spi.expected chain ↔ spi.once chain = true := by
  have hwire : (spi.transferMessage chain).2.sent = spi.wire chain :=
    (HpmSpi.transmitEach_wire hw hb {}).trans (List.nil_append _)
  rw [hwire, HpmSpi.once]
  by_cases hs : (!spi.enableDma && spi.mode == spiSlave) = true
  · rw [if_pos hs, HpmSpi.wire_slave hs, eq_comm, HpmSpi.expected_eq_nil]
  · rw [if_neg hs]
    have hs' := (Bool.not_eq_true _).mp hs
    by_cases hq : (spi.enableDma || spi.usingQspi) = true
    · rw [if_pos hq, HpmSpi.wire_each hs' hq]
    · rw [if_neg hq, HpmSpi.wire_first ((Bool.not_eq_true _).mp hq) hs']

/-- A bus without or with DMA, on a chip that counts up to 512 and has a FIFO of 4. -/
def hpmSpi (enableDma : Bool) : HpmSpi where
  enableDma := enableDma
  usingQspi := false
  dataLength_pos := Nat.one_pos
  countMax := 512
  countMax_pos := by decide
  fifoDepth := 4
  succeeds _ := true

/-- A message that sends. -/
def sendMessage (length : ℕ) : QspiMessage :=
  { sendBuf := some 0, recvBuf := none, length, csTake := true, csRelease := true }

/-- Two messages in polling mode. -/
theorem spi_chain_polling :
    ((hpmSpi false).transferMessage [sendMessage 3, sendMessage 2]).2.sent =
      (hpmSpi false).expected [sendMessage 3, sendMessage 2] :=
  (spi_chain (hpmSpi false) (fun _ => rfl) _ (by decide)).mpr (by decide)

/-- **Two messages in DMA mode**: the second is clocked out twice. -/
theorem spi_twice : ¬ ∀ (spi : HpmSpi), (∀ n, spi.succeeds n = true) → ∀ chain : List QspiMessage,
    (∀ msg ∈ chain, (msg.sendBuf.isSome || msg.recvBuf.isSome) = true) →
    (spi.transferMessage chain).2.sent = spi.expected chain := by
  intro h
  have := h (hpmSpi true) (fun _ => rfl) [sendMessage 3, sendMessage 2] (by decide)
  exact absurd this (by decide)

end RtThread
