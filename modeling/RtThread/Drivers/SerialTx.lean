import RtThread.Drivers.RingBuffer

/-!
# Non-blocking transmission by DMA

`components/drivers/serial/serial_v2.c`: a write puts its bytes into the ring buffer and, when no
transfer is activated, hands the linear piece at the read index to `transmit`; the interrupt at the end
of a transfer moves the read index over the piece and hands the next one over.

* `serialGetLinearBuffer`, `serialUpdateReadIndex`, `fifoTxSection`, `fifoTxLinear`,
  `fifoTxTransmit`, `dmaDone`, `dmaDoneTail`: the steps of the writers and of the interrupt;
* `TxPhase`: the phases of the channel, and what holds in each;
* **`serialTx_exact`**: the bytes handed over are the accepted ones, in order, in every run whose
  `tx_complete` callback writes nothing; `serialTx_repeated`: a run whose callback writes.
-/

set_option linter.unusedSectionVars false

namespace RtThread

namespace RingBuffer

variable (rb : RingBuffer)

/-- `rt_serial_get_linear_buffer`, with the bytes at the pointer it delivers. -/
def serialGetLinearBuffer : ℕ × List UInt8 :=
  let size := rb.dataLen
  let bytes := fun size => (List.range size).map fun i => rb.bufferPtr (rb.readIndex + i)
  if size = 0 then (0, [])
  else if rb.bufferSize - rb.readIndex > size then (size, bytes size)
  else (rb.bufferSize - rb.readIndex, bytes (rb.bufferSize - rb.readIndex))

/-- `rt_serial_update_read_index`; the parameter is an `rt_uint16_t`. -/
def serialUpdateReadIndex (readIndex : ℕ) : RingBuffer :=
  let size := rb.dataLen
  if size = 0 then rb
  else
    let readIndex := readIndex % 2 ^ 16
    let readIndex := if size < readIndex then size else readIndex
    if rb.bufferSize - rb.readIndex > readIndex then { rb with readIndex := rb.readIndex + readIndex }
    else { rb with readMirror := !rb.readMirror, readIndex := 0 }

/-- A non-empty piece of `n` bytes at the read index that does not wrap. -/
structure Linear (n : ℕ) : Prop where
  pos : 0 < n
  le : n ≤ rb.contents.length
  wrap : n ≤ rb.bufferSize - rb.readIndex

variable {rb} {len n : ℕ}

theorem serialGetLinearBuffer_eq : rb.serialGetLinearBuffer = (rb.peek.1, rb.peek.2.1) := by
  unfold serialGetLinearBuffer peek
  dsimp only
  split_ifs <;> rfl

/-- **The linear piece is a prefix of the contents.** -/
theorem serialGetLinearBuffer_spec (h : rb.Holds len) (hne : rb.contents ≠ []) :
    rb.Linear rb.serialGetLinearBuffer.1 ∧
      rb.serialGetLinearBuffer.2 = rb.contents.take rb.serialGetLinearBuffer.1 := by
  obtain ⟨h1, h2, h3, -⟩ := peek_spec h
  have hlen := h.contents_length
  have hwrap : rb.peek.1 ≤ rb.bufferSize - rb.readIndex := by
    unfold peek
    dsimp only
    split_ifs <;> dsimp only <;> omega
  rw [serialGetLinearBuffer_eq]
  refine ⟨⟨?_, ?_, hwrap⟩, ?_⟩
  · rw [h1]
    exact List.length_pos_iff.mpr (h3 hne)
  · rw [h1, h2, List.length_append]
    exact Nat.le_add_right _ _
  · show rb.peek.2.1 = rb.contents.take rb.peek.1
    rw [h2, h1, List.take_left']
    rfl

/-- **The read index moves over a linear piece.** -/
theorem serialUpdateReadIndex_eq (h : rb.Holds len) (hn : rb.Linear n) (hs : n < 2 ^ 16) :
    rb.serialUpdateReadIndex n = rb.skip n := by
  obtain ⟨hpos, hle, hwrap⟩ := hn
  rw [h.contents_length] at hle
  have hlen : ¬ len = 0 := by omega
  have hmin : (if len < n then len else n) = n := if_neg (by omega)
  unfold serialUpdateReadIndex skip
  dsimp only
  rw [h.dataLen, if_neg hlen, Nat.mod_eq_of_lt hs, hmin]
  split_ifs with hc
  · rfl
  · rw [show n - (rb.bufferSize - rb.readIndex) = 0 by omega]

/-- A linear piece stays one when bytes are put in. -/
theorem Linear.put (h : rb.Holds len) (hn : rb.Linear n) (xs : List UInt8) :
    (rb.put xs).2.Linear n ∧ (rb.put xs).2.contents.take n = rb.contents.take n ∧
      (rb.put xs).2.contents.drop n =
        rb.contents.drop n ++ xs.take (rb.bufferSize - len) := by
  obtain ⟨hpos, hle, hwrap⟩ := hn
  obtain ⟨-, -, hc⟩ := put_spec h xs
  obtain ⟨hsize, hread⟩ := put_frame rb xs
  refine ⟨⟨hpos, ?_, by rw [hsize, hread]; exact hwrap⟩, ?_, ?_⟩
  · rw [hc, List.length_append]
    omega
  · rw [hc, List.take_append_of_le_length hle]
  · rw [hc, List.drop_append_of_le_length hle]

end RingBuffer

/-! ## The steps -/

/-- Where a write is: not started, past its section, and with its linear piece. -/
inductive TxCall where
  | idle
  | started
  | piece (bytes : List UInt8)
  deriving DecidableEq

/-- The transmit FIFO, the transfers in progress, the interrupt while it calls `tx_complete`, the
writes, and the bytes that were accepted and handed to `transmit` so far. -/
structure SerialTx (T : Type) where
  rb : RingBuffer
  putSize : ℕ
  activated : Bool
  transfers : ℕ
  isr : Bool
  call : T → TxCall
  accepted : List UInt8
  handed : List UInt8

/-- The steps: a write of a thread up to the end of its section, up to its linear piece, and its
`transmit`; the interrupt up to `tx_complete`, a write of the callback, and the rest of the
interrupt. -/
inductive TxLabel (T : Type) where
  | write (t : T) (buffer : List UInt8)
  | linear (t : T)
  | transmit (t : T)
  | dmaDone
  | callback (buffer : List UInt8)
  | dmaDoneTail
  deriving DecidableEq

namespace SerialTx

section

variable {T : Type} [DecidableEq T] (s : SerialTx T)

/-- The section of `_serial_fifo_tx_nonblocking`. -/
def fifoTxSection (buffer : List UInt8) : SerialTx T :=
  { s with
    activated := true
    rb := (s.rb.put buffer).2
    accepted := s.accepted ++ buffer.take (s.rb.put buffer).1 }

/-- The linear piece of a write. -/
def fifoTxLinear : List UInt8 × SerialTx T :=
  let x := s.rb.serialGetLinearBuffer
  (x.2, { s with putSize := x.1 })

/-- `serial->ops->transmit`. -/
def fifoTxTransmit (bytes : List UInt8) : SerialTx T :=
  { s with transfers := s.transfers + 1, handed := s.handed ++ bytes }

/-- A write of the callback, which no thread interrupts. -/
def fifoTxNonblocking (buffer : List UInt8) : SerialTx T :=
  if buffer = [] then s
  else if s.activated = false then
    let x := (s.fifoTxSection buffer).fifoTxLinear
    x.2.fifoTxTransmit x.1
  else s.fifoTxSection buffer

/-- `rt_hw_serial_isr` for `RT_SERIAL_EVENT_TX_DMADONE` after `tx_complete`. -/
def dmaDoneTail : SerialTx T :=
  let s := { s with rb := s.rb.serialUpdateReadIndex s.putSize, isr := false }
  if s.rb.dataLen = 0 then s
  else
    let x := { s with activated := true }.fifoTxLinear
    x.2.fifoTxTransmit x.1

/-- One step. The interrupt does not come while it is served, and threads run outside it. -/
def step : TxLabel T → Option (SerialTx T)
  | .write t buffer =>
    if s.isr = true ∨ s.call t ≠ .idle then none
    else if buffer = [] then some s
    else if s.activated = false then
      some { s.fifoTxSection buffer with call := Function.update s.call t .started }
    else some (s.fifoTxSection buffer)
  | .linear t =>
    if s.isr = true ∨ s.call t ≠ .started then none
    else
      let x := s.fifoTxLinear
      some { x.2 with call := Function.update s.call t (.piece x.1) }
  | .transmit t =>
    if s.isr = true then none
    else match s.call t with
      | .piece bytes => some { s.fifoTxTransmit bytes with call := Function.update s.call t .idle }
      | _ => none
  | .dmaDone =>
    if s.isr = true ∨ s.transfers = 0 then none
    else some { s with transfers := s.transfers - 1, activated := false, isr := true }
  | .callback buffer => if s.isr = false then none else some (s.fifoTxNonblocking buffer)
  | .dmaDoneTail => if s.isr = false then none else some s.dmaDoneTail

end

end SerialTx

/-- After `rt_serial_tx_enable`: `tx_bufsz` is a field of 16 bits, at least `RT_SERIAL_TX_MINBUFSZ`. -/
structure SerialTxInit {T : Type} (s : SerialTx T) : Prop where
  rb : ∃ pool size, 64 ≤ size ∧ size < 2 ^ 16 ∧ s.rb = RingBuffer.init pool size
  putSize : s.putSize = 0
  activated : s.activated = false
  transfers : s.transfers = 0
  isr : s.isr = false
  call : ∀ t, s.call t = .idle
  accepted : s.accepted = []
  handed : s.handed = []

/-- The runs of the writers and the interrupt. -/
def serialTxSystem (T : Type) [DecidableEq T] : System (SerialTx T) (TxLabel T) where
  init := SerialTxInit
  step := SerialTx.step

/-- The callback writes nothing. -/
def serialTxOk {T : Type} (_ : SerialTx T) : TxLabel T → Bool
  | .callback buffer => buffer = []
  | _ => true

/-! ## The property -/

section

variable {T : Type} [DecidableEq T] {s s' : SerialTx T}

/-- What was not handed over yet is at the end of the ring buffer, at most one transfer is outstanding,
and one is when the ring buffer is not empty and nothing is in progress. -/
structure SerialTxExact (s : SerialTx T) : Prop where
  exact : ∃ n ≤ s.rb.contents.length, s.accepted = s.handed ++ s.rb.contents.drop n
  one : s.transfers ≤ 1
  busy : s.rb.contents ≠ [] → (∀ t, s.call t = .idle) → s.isr = false → s.transfers = 1

/-- The phases of the channel: nothing to send, a write past its section, a write with its piece, a
transfer, and the interrupt in `tx_complete`. -/
inductive TxPhase (T : Type) where
  | quiet
  | started (t : T)
  | piece (t : T)
  | sending
  | completing

/-- What holds in a phase. -/
def TxPhase.Of (s : SerialTx T) : TxPhase T → Prop
  | .quiet => s.activated = false ∧ s.isr = false ∧ s.transfers = 0 ∧ (∀ u, s.call u = .idle) ∧
      s.rb.contents = [] ∧ s.accepted = s.handed
  | .started t => s.activated = true ∧ s.isr = false ∧ s.transfers = 0 ∧
      (∀ u, s.call u = if u = t then .started else .idle) ∧ s.rb.contents ≠ [] ∧
      s.accepted = s.handed ++ s.rb.contents
  | .piece t => s.activated = true ∧ s.isr = false ∧ s.transfers = 0 ∧
      (∀ u, s.call u = if u = t then .piece (s.rb.contents.take s.putSize) else .idle) ∧
      s.rb.Linear s.putSize ∧ s.accepted = s.handed ++ s.rb.contents
  | .sending => s.activated = true ∧ s.isr = false ∧ s.transfers = 1 ∧ (∀ u, s.call u = .idle) ∧
      s.rb.Linear s.putSize ∧ s.accepted = s.handed ++ s.rb.contents.drop s.putSize
  | .completing => s.activated = false ∧ s.isr = true ∧ s.transfers = 0 ∧ (∀ u, s.call u = .idle) ∧
      s.rb.Linear s.putSize ∧ s.accepted = s.handed ++ s.rb.contents.drop s.putSize

/-- The invariant: a ring buffer whose pieces fit 16 bits, and a phase. -/
def SerialTxInv (s : SerialTx T) : Prop :=
  (∃ len, s.rb.Holds len) ∧ s.rb.bufferSize < 2 ^ 16 ∧ ∃ ph : TxPhase T, ph.Of s

theorem SerialTxInv.exact (h : SerialTxInv s) : SerialTxExact s := by
  obtain ⟨-, -, ph, hph⟩ := h
  cases ph with
  | quiet =>
    obtain ⟨-, -, ht, -, hc, he⟩ := hph
    refine ⟨⟨0, Nat.zero_le _, by rw [hc, he]; simp⟩, by omega, fun hne => absurd hc hne⟩
  | started t =>
    obtain ⟨-, -, ht, hcall, -, he⟩ := hph
    refine ⟨⟨0, Nat.zero_le _, he⟩, by omega, fun _ hidle => ?_⟩
    have := (hcall t).symm.trans (hidle t)
    rw [if_pos rfl] at this
    cases this
  | piece t =>
    obtain ⟨-, -, ht, hcall, -, he⟩ := hph
    refine ⟨⟨0, Nat.zero_le _, he⟩, by omega, fun _ hidle => ?_⟩
    have := (hcall t).symm.trans (hidle t)
    rw [if_pos rfl] at this
    cases this
  | sending =>
    obtain ⟨-, -, ht, -, hl, he⟩ := hph
    exact ⟨⟨_, hl.le, he⟩, by omega, fun _ _ _ => ht⟩
  | completing =>
    obtain ⟨-, hi, ht, -, hl, he⟩ := hph
    refine ⟨⟨_, hl.le, he⟩, by omega, fun _ _ hn => ?_⟩
    rw [hi] at hn
    cases hn

/-- Bytes are put in. -/
theorem SerialTx.put_accepted (h : ∃ len, s.rb.Holds len) (buffer : List UInt8) :
    (∃ len, (s.rb.put buffer).2.Holds len) ∧
      (s.rb.put buffer).2.contents = s.rb.contents ++ buffer.take (s.rb.put buffer).1 ∧
      ∀ n, s.rb.Linear n → (s.rb.put buffer).2.Linear n ∧
        (s.rb.put buffer).2.contents.take n = s.rb.contents.take n ∧
        (s.rb.put buffer).2.contents.drop n =
          s.rb.contents.drop n ++ buffer.take (s.rb.put buffer).1 := by
  obtain ⟨len, hl⟩ := h
  obtain ⟨hn, hh, hc⟩ := RingBuffer.put_spec hl buffer
  have htake : buffer.take (s.rb.bufferSize - len) = buffer.take (s.rb.put buffer).1 := by
    rw [hn, Nat.min_comm, ← List.take_take, List.take_length]
  rw [htake] at hc
  refine ⟨⟨_, hh⟩, hc, fun n hlin => ?_⟩
  obtain ⟨h1, h2, h3⟩ := hlin.put hl buffer
  exact ⟨h1, h2, htake ▸ h3⟩

/-- A write. -/
theorem SerialTxInv.write (h : SerialTxInv s) {t : T} {buffer : List UInt8}
    (hst : s.step (.write t buffer) = some s') : SerialTxInv s' := by
  simp only [SerialTx.step] at hst
  by_cases hcond : s.isr = true ∨ s.call t ≠ .idle
  · rw [if_pos hcond] at hst
    cases hst
  rw [if_neg hcond] at hst
  by_cases hnil : buffer = []
  · rw [if_pos hnil] at hst
    cases hst
    exact h
  rw [if_neg hnil] at hst
  simp only [not_or, not_not, Bool.not_eq_true] at hcond
  obtain ⟨hisr, hidle⟩ := hcond
  obtain ⟨hh, hsize, ph, hph⟩ := h
  obtain ⟨hh', hc, hlin⟩ := SerialTx.put_accepted hh buffer
  have hsize' : (s.rb.put buffer).2.bufferSize < 2 ^ 16 := by
    rw [(RingBuffer.put_frame s.rb buffer).1]
    exact hsize
  cases ph with
  | quiet =>
    obtain ⟨ha, -, ht, hcall, hemp, he⟩ := hph
    rw [if_pos ha] at hst
    cases hst
    refine ⟨hh', hsize', .started t, rfl, hisr, ht, fun u => ?_, ?_, ?_⟩
    · show Function.update s.call t .started u = _
      rw [Function.update_apply, hcall u]
    · obtain ⟨len, hl⟩ := hh
      obtain ⟨hn, -, hc'⟩ := RingBuffer.put_spec hl buffer
      show (s.rb.put buffer).2.contents ≠ []
      have h0 : len = 0 := by rw [← hl.contents_length, hemp]; rfl
      have hpos := hl.read
      rw [hc', hemp, List.nil_append, h0, Nat.sub_zero]
      intro hnone
      rcases List.take_eq_nil_iff.mp hnone with h1 | h1
      · omega
      · exact hnil h1
    · show s.accepted ++ _ = s.handed ++ (s.rb.put buffer).2.contents
      rw [hc, hemp, he, List.nil_append]
  | started u =>
    obtain ⟨ha, -, ht, hcall, hne, he⟩ := hph
    rw [if_neg (by simp [ha])] at hst
    cases hst
    refine ⟨hh', hsize', .started u, rfl, hisr, ht, hcall, ?_, ?_⟩
    · show (s.rb.put buffer).2.contents ≠ []
      rw [hc]
      exact fun hnone => hne (List.append_eq_nil_iff.mp hnone).1
    · show s.accepted ++ _ = s.handed ++ (s.rb.put buffer).2.contents
      rw [hc, he, List.append_assoc]
  | piece u =>
    obtain ⟨ha, -, ht, hcall, hl, he⟩ := hph
    rw [if_neg (by simp [ha])] at hst
    cases hst
    obtain ⟨h1, h2, -⟩ := hlin _ hl
    refine ⟨hh', hsize', .piece u, rfl, hisr, ht, fun w => ?_, h1, ?_⟩
    · show s.call w = if w = u then .piece ((s.rb.put buffer).2.contents.take s.putSize) else .idle
      rw [h2]
      exact hcall w
    · show s.accepted ++ _ = s.handed ++ (s.rb.put buffer).2.contents
      rw [hc, he, List.append_assoc]
  | sending =>
    obtain ⟨ha, -, ht, hcall, hl, he⟩ := hph
    rw [if_neg (by simp [ha])] at hst
    cases hst
    obtain ⟨h1, -, h3⟩ := hlin _ hl
    refine ⟨hh', hsize', .sending, rfl, hisr, ht, hcall, h1, ?_⟩
    show s.accepted ++ _ = s.handed ++ (s.rb.put buffer).2.contents.drop s.putSize
    rw [h3, he, List.append_assoc]
  | completing =>
    rw [hph.2.1] at hisr
    cases hisr

/-- Where a write past its section is, only one phase is possible. -/
theorem TxPhase.of_call {ph : TxPhase T} (h : ph.Of s) {t : T} :
    (s.call t = .started → ph = .started t) ∧
      ∀ bytes, s.call t = .piece bytes →
        ph = .piece t ∧ bytes = s.rb.contents.take s.putSize := by
  have hidle : (∀ u, s.call u = .idle) → (s.call t = .started → ph = .started t) ∧
      ∀ bytes, s.call t = .piece bytes →
        ph = .piece t ∧ bytes = s.rb.contents.take s.putSize := by
    intro hi
    rw [hi t]
    exact ⟨fun hc => (nomatch hc), fun _ hc => (nomatch hc)⟩
  cases ph with
  | quiet => exact hidle h.2.2.2.1
  | sending => exact hidle h.2.2.2.1
  | completing => exact hidle h.2.2.2.1
  | started u =>
    rw [h.2.2.2.1 t]
    by_cases hu : t = u
    · rw [if_pos hu, hu]
      exact ⟨fun _ => rfl, fun _ hc => (nomatch hc)⟩
    · rw [if_neg hu]
      exact ⟨fun hc => (nomatch hc), fun _ hc => (nomatch hc)⟩
  | piece u =>
    rw [h.2.2.2.1 t]
    by_cases hu : t = u
    · rw [if_pos hu, hu]
      exact ⟨fun hc => (nomatch hc), fun _ hc => ⟨rfl, (TxCall.piece.inj hc).symm⟩⟩
    · rw [if_neg hu]
      exact ⟨fun hc => (nomatch hc), fun _ hc => (nomatch hc)⟩

/-- The linear piece of a write. -/
theorem SerialTxInv.linear (h : SerialTxInv s) {t : T} (hst : s.step (.linear t) = some s') :
    SerialTxInv s' := by
  obtain ⟨⟨len, hl⟩, hsize, ph, hph⟩ := h
  simp only [SerialTx.step] at hst
  by_cases hcond : s.isr = true ∨ s.call t ≠ .started
  · rw [if_pos hcond] at hst
    cases hst
  rw [if_neg hcond] at hst
  simp only [not_or, not_not, Bool.not_eq_true] at hcond
  obtain ⟨hisr, hcall⟩ := hcond
  rw [(TxPhase.of_call hph).1 hcall] at hph
  obtain ⟨ha, -, ht, hall, hne, he⟩ := hph
  obtain ⟨hlin, hbytes⟩ := RingBuffer.serialGetLinearBuffer_spec hl hne
  cases hst
  refine ⟨⟨len, hl⟩, hsize, .piece t, ha, hisr, ht, fun u => ?_, hlin, he⟩
  show Function.update s.call t (.piece s.rb.serialGetLinearBuffer.2) u = _
  rw [Function.update_apply, hall u, hbytes]
  by_cases hu : u = t
  · rw [if_pos hu, if_pos hu]
    rfl
  · rw [if_neg hu, if_neg hu, if_neg hu]

/-- The `transmit` of a write. -/
theorem SerialTxInv.transmit (h : SerialTxInv s) {t : T} (hst : s.step (.transmit t) = some s') :
    SerialTxInv s' := by
  obtain ⟨hh, hsize, ph, hph⟩ := h
  simp only [SerialTx.step] at hst
  by_cases hisr : s.isr = true
  · rw [if_pos hisr] at hst
    cases hst
  rw [if_neg hisr] at hst
  cases hcall : s.call t with
  | idle =>
    rw [hcall] at hst
    cases hst
  | started =>
    rw [hcall] at hst
    cases hst
  | piece bytes =>
    rw [hcall] at hst
    cases hst
    obtain ⟨hp, hb⟩ := (TxPhase.of_call hph).2 bytes hcall
    rw [hp] at hph
    obtain ⟨ha, hi, ht, hall, hlin, he⟩ := hph
    refine ⟨hh, hsize, .sending, ha, hi, ?_, fun u => ?_, hlin, ?_⟩
    · show s.transfers + 1 = 1
      rw [ht]
    · show Function.update s.call t .idle u = .idle
      rw [Function.update_apply, hall u]
      by_cases hu : u = t
      · rw [if_pos hu]
      · rw [if_neg hu, if_neg hu]
    · show s.accepted = s.handed ++ bytes ++ s.rb.contents.drop s.putSize
      rw [hb, List.append_assoc, List.take_append_drop]
      exact he

/-- The interrupt up to `tx_complete`. -/
theorem SerialTxInv.dmaDone (h : SerialTxInv s) (hst : s.step .dmaDone = some s') :
    SerialTxInv s' := by
  obtain ⟨hh, hsize, ph, hph⟩ := h
  simp only [SerialTx.step] at hst
  by_cases hcond : s.isr = true ∨ s.transfers = 0
  · rw [if_pos hcond] at hst
    cases hst
  rw [if_neg hcond] at hst
  simp only [not_or, Bool.not_eq_true] at hcond
  cases hst
  cases ph with
  | quiet => exact absurd hph.2.2.1 hcond.2
  | started t => exact absurd hph.2.2.1 hcond.2
  | piece t => exact absurd hph.2.2.1 hcond.2
  | completing => exact absurd hph.2.2.1 hcond.2
  | sending =>
    obtain ⟨-, -, ht, hall, hlin, he⟩ := hph
    refine ⟨hh, hsize, .completing, rfl, rfl, ?_, hall, hlin, he⟩
    show s.transfers - 1 = 0
    rw [ht]

/-- The rest of the interrupt. -/
theorem SerialTxInv.dmaDoneTail (h : SerialTxInv s) (hst : s.step .dmaDoneTail = some s') :
    SerialTxInv s' := by
  obtain ⟨⟨len, hl⟩, hsize, ph, hph⟩ := h
  simp only [SerialTx.step] at hst
  by_cases hisr : s.isr = false
  · rw [if_pos hisr] at hst
    cases hst
  rw [if_neg hisr] at hst
  cases hst
  cases ph with
  | quiet => exact absurd hph.2.1 hisr
  | started t => exact absurd hph.2.1 hisr
  | piece t => exact absurd hph.2.1 hisr
  | sending => exact absurd hph.2.1 hisr
  | completing =>
    obtain ⟨ha, -, ht, hall, hlin, he⟩ := hph
    have hread := hl.read
    have hwrap := hlin.wrap
    have hle : s.putSize ≤ len := hl.contents_length ▸ hlin.le
    have hskip := RingBuffer.serialUpdateReadIndex_eq hl hlin (by omega)
    have hh' : (s.rb.skip s.putSize).Holds (len - s.putSize) := RingBuffer.skip_holds hl hle
    have hc' := RingBuffer.skip_contents hl hle
    have hsize' : (s.rb.skip s.putSize).bufferSize < 2 ^ 16 := by
      rw [RingBuffer.skip_bufferSize]
      exact hsize
    rw [← hc'] at he
    unfold SerialTx.dmaDoneTail
    simp only [hskip]
    by_cases h0 : (s.rb.skip s.putSize).dataLen = 0
    · rw [if_pos h0]
      have hnil : (s.rb.skip s.putSize).contents = [] := by
        rw [← List.length_eq_zero_iff, hh'.contents_length, ← hh'.dataLen]
        exact h0
      refine ⟨⟨_, hh'⟩, hsize', .quiet, ha, rfl, ht, hall, hnil, ?_⟩
      show s.accepted = s.handed
      rw [he, hnil, List.append_nil]
    · rw [if_neg h0]
      have hne : (s.rb.skip s.putSize).contents ≠ [] := by
        intro hnil
        rw [hh'.dataLen, ← hh'.contents_length, hnil] at h0
        exact h0 rfl
      obtain ⟨hlin', hbytes⟩ := RingBuffer.serialGetLinearBuffer_spec hh' hne
      refine ⟨⟨_, hh'⟩, hsize', .sending, rfl, rfl, ?_, hall, hlin', ?_⟩
      · show s.transfers + 1 = 1
        rw [ht]
      · show s.accepted = s.handed ++ (s.rb.skip s.putSize).serialGetLinearBuffer.2 ++
          (s.rb.skip s.putSize).contents.drop (s.rb.skip s.putSize).serialGetLinearBuffer.1
        rw [hbytes, List.append_assoc, List.take_append_drop]
        exact he

theorem serialTxStep_inv (h : SerialTxInv s) {a : TxLabel T} (hok : serialTxOk s a = true)
    (hst : s.step a = some s') : SerialTxInv s' := by
  cases a with
  | write t buffer => exact h.write hst
  | linear t => exact h.linear hst
  | transmit t => exact h.transmit hst
  | dmaDone => exact h.dmaDone hst
  | dmaDoneTail => exact h.dmaDoneTail hst
  | callback buffer =>
    have hnil : buffer = [] := of_decide_eq_true hok
    simp only [SerialTx.step] at hst
    by_cases hisr : s.isr = false
    · rw [if_pos hisr] at hst
      cases hst
    rw [if_neg hisr, SerialTx.fifoTxNonblocking, if_pos hnil] at hst
    cases hst
    exact h

theorem SerialTxInit.inv (h : SerialTxInit s) : SerialTxInv s := by
  obtain ⟨pool, size, h1, h2, hrb⟩ := h.rb
  have hh : s.rb.Holds 0 := by
    rw [hrb]
    exact RingBuffer.init_holds pool (by unfold rtAlignSize; omega)
  refine ⟨⟨0, hh⟩, ?_, .quiet, h.activated, h.isr, h.transfers, h.call, ?_, ?_⟩
  · rw [hrb]
    show rtAlignDown size < 2 ^ 16
    unfold rtAlignDown rtAlignSize
    omega
  · exact List.eq_nil_of_length_eq_zero hh.contents_length
  · rw [h.accepted, h.handed]

/-- **Non-blocking transmission by DMA is exact.** In every run whose `tx_complete` callback writes
nothing, the bytes handed to `transmit` are the accepted ones in order, less those at the end of the
ring buffer, at most one transfer is outstanding, and none is missing. -/
theorem serialTx_exact (hs : (serialTxSystem T).Reach serialTxOk s) : SerialTxExact s := by
  have hinv : SerialTxInv s := hs.invariant (I := SerialTxInv) (fun _ h => SerialTxInit.inv h)
    fun _ _ _ h hok hst => serialTxStep_inv h hok hst
  exact hinv.exact

end

/-! ## Runs -/

/-- Two threads and a buffer of 64 bytes. -/
def serialTxStart : SerialTx (Fin 2) where
  rb := RingBuffer.init (fun _ => 0) 64
  putSize := 0
  activated := false
  transfers := 0
  isr := false
  call := fun _ => .idle
  accepted := []
  handed := []

theorem serialTxStart_init : SerialTxInit serialTxStart :=
  ⟨⟨fun _ => 0, 64, by decide, by decide, rfl⟩, rfl, rfl, rfl, rfl, fun _ => rfl, rfl, rfl⟩

/-- Two writes, the second one while the first is not handed over, and the interrupt. -/
theorem serialTx_exact_two : ∃ s : SerialTx (Fin 2), (serialTxSystem (Fin 2)).Reach serialTxOk s ∧
    (s.handed = [1, 2] ∧ s.accepted = [1, 2, 3]) ∧ SerialTxExact s := by
  obtain ⟨s, hs, hp⟩ := System.exists_reach (serialTxSystem (Fin 2)) serialTxOk
    (fun s => decide (s.handed = [1, 2] ∧ s.accepted = [1, 2, 3])) serialTxStart_init
    [.write 0 [1, 2], .linear 0, .write 1 [3], .transmit 0, .dmaDone, .callback []]
    (by decide)
  exact ⟨s, hs, of_decide_eq_true hp, serialTx_exact hs⟩

/-- **A writing callback repeats bytes**: it runs before the read index has moved over the bytes that
were sent, finds no transfer activated, and hands them over again. -/
theorem serialTx_repeated : ¬ ∀ s : SerialTx (Fin 2),
    (serialTxSystem (Fin 2)).Reach System.anyStep s → SerialTxExact s := by
  intro h
  obtain ⟨s, hs, hp⟩ := System.exists_reach (serialTxSystem (Fin 2)) System.anyStep
    (fun s => decide (s.handed = [1, 2, 1, 2, 3] ∧ s.accepted = [1, 2, 3])) serialTxStart_init
    [.write 0 [1, 2], .linear 0, .transmit 0, .dmaDone, .callback [3]] (by decide)
  obtain ⟨hh, ha⟩ := of_decide_eq_true hp
  obtain ⟨n, -, he⟩ := (h s hs).exact
  have hlen := congrArg List.length he
  rw [hh, ha, List.length_append] at hlen
  simp only [List.length_cons, List.length_nil] at hlen
  omega

end RtThread
