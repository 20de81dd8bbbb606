import RtThread.Drivers.RingBuffer

/-!
# Blocking reads of a serial device

`components/drivers/serial/serial_v2.c`: a read that finds too few bytes in the ring buffer publishes
the number it wants and waits for a completion, which the receive interrupt raises once that many bytes
are there. The test, the publication and the wait are three steps with interrupts enabled.

* `fifoRxTest`, `fifoRxPublish`, `fifoRxWait`, `fifoRxWake`, `fifoRxGet`: the steps of `_serial_fifo_rx`;
* `serialRxIsr`: the receive interrupt after its bytes are in the ring buffer;
* **`serialRx_live`**: no read waits for bytes that are there, in every run in which a read publishes a
  number the ring buffer can hold and does not hold; `serialRx_lost`: a run in which the bytes arrive
  between the test and the publication.
-/

namespace RtThread

/-- Where `_serial_fifo_rx` is: after its test, after the publication, on the list of the completion,
off it again, and before its section. -/
inductive RxCall where
  | idle
  | tested (size : ℕ)
  | published (size : ℕ)
  | waiting (size : ℕ)
  | woken (size : ℕ)
  | reading (size : ℕ)
  deriving DecidableEq

/-- The receive FIFO with the flag of `rx_cpt`, the interrupt while it is served, the reader and what
it last returned. -/
structure SerialRx where
  rb : RingBuffer
  rxBufsz : ℕ
  rxCptIndex : ℕ
  completed : Bool
  isr : Bool
  call : RxCall
  ret : List UInt8

/-- The steps of the reader, and of the interrupt: bytes are put in, then `rt_hw_serial_isr` runs. -/
inductive RxLabel where
  | read (size : ℕ)
  | publish
  | wait
  | wake
  | get
  | rxPut (bytes : List UInt8)
  | rxIsr
  deriving DecidableEq

namespace SerialRx

variable (s : SerialRx)

/-- `_serial_fifo_rx` up to its test of the length. -/
def fifoRxTest (size : ℕ) : SerialRx :=
  if size = 0 then { s with ret := [] }
  else if size > s.rxBufsz then { s with ret := [] }
  else if s.rb.dataLen < size then { s with call := .tested size }
  else { s with call := .reading size }

/-- `rx_cpt_index = size`, a field of 16 bits. -/
def fifoRxPublish (size : ℕ) : SerialRx :=
  { s with rxCptIndex := size % 2 ^ 16, call := .published size }

/-- `rt_completion_wait` up to its `rt_schedule`, or to its end when the flag is up. -/
def fifoRxWait (size : ℕ) : SerialRx :=
  if s.completed = false then { s with call := .waiting size }
  else { s with completed := false, call := .reading size }

/-- `rt_completion_wait` after its `rt_schedule`. -/
def fifoRxWake (size : ℕ) : SerialRx := { s with completed := false, call := .reading size }

/-- The section of `_serial_fifo_rx`. -/
def fifoRxGet (size : ℕ) : SerialRx :=
  { s with rb := (s.rb.get size).2.2, ret := (s.rb.get size).2.1, call := .idle }

/-- `rt_completion_done`. -/
def completionDone : SerialRx :=
  if s.completed = true then s
  else match s.call with
    | .waiting size => { s with completed := true, call := .woken size }
    | _ => { s with completed := true }

/-- `rt_hw_serial_isr` for `RT_SERIAL_EVENT_RX_IND`. -/
def serialRxIsr : SerialRx :=
  let rxLength := s.rb.dataLen
  if rxLength = 0 then s
  else if s.rxCptIndex ≠ 0 ∧ rxLength ≥ s.rxCptIndex then { s with rxCptIndex := 0 }.completionDone
  else s

/-- One step. The reader runs outside the interrupt. -/
def step : RxLabel → Option SerialRx
  | .read size => if s.isr = true ∨ s.call ≠ .idle then none else some (s.fifoRxTest size)
  | .publish =>
    match s.isr, s.call with
    | false, .tested size => some (s.fifoRxPublish size)
    | _, _ => none
  | .wait =>
    match s.isr, s.call with
    | false, .published size => some (s.fifoRxWait size)
    | _, _ => none
  | .wake =>
    match s.isr, s.call with
    | false, .woken size => some (s.fifoRxWake size)
    | _, _ => none
  | .get =>
    match s.isr, s.call with
    | false, .reading size => some (s.fifoRxGet size)
    | _, _ => none
  | .rxPut bytes => if s.isr = true then none else some { s with rb := (s.rb.put bytes).2, isr := true }
  | .rxIsr => if s.isr = false then none else some { s.serialRxIsr with isr := false }

end SerialRx

/-- After `rt_serial_rx_enable` with a configured size, a field of 16 bits that is not 0 and that is
raised to `RT_SERIAL_RX_MINBUFSZ`. -/
structure SerialRxInit (s : SerialRx) : Prop where
  rb : ∃ pool, s.rb = RingBuffer.init pool s.rxBufsz
  min : 64 ≤ s.rxBufsz
  max : s.rxBufsz < 2 ^ 16
  rxCptIndex : s.rxCptIndex = 0
  completed : s.completed = false
  isr : s.isr = false
  call : s.call = .idle

/-- The runs of the reader and the interrupt. -/
def serialRxSystem : System SerialRx RxLabel where
  init := SerialRxInit
  step := SerialRx.step

/-- A read publishes a number of bytes that the ring buffer can hold and does not hold. -/
def serialRxOk (s : SerialRx) : RxLabel → Bool
  | .publish =>
    match s.call with
    | .tested size => decide (s.rb.dataLen < size) && decide (size ≤ s.rb.bufferSize)
    | _ => true
  | _ => true

/-- No read waits, outside the interrupt, for bytes that are there, or with a full ring buffer. -/
def SerialRxLive (s : SerialRx) : Prop :=
  ∀ size, s.call = .waiting size → s.isr = false → ¬ (size ≤ s.rb.dataLen ∨ s.rb.status = .full)

/-! ## The invariant -/

/-- What holds at a place of the reader: the number is published and the flag down while too few bytes
are there outside the interrupt, or the flag is up. -/
def RxCall.Of (s : SerialRx) : RxCall → Prop
  | .idle | .reading _ => s.rxCptIndex = 0 ∧ s.completed = false
  | .tested size => s.rxCptIndex = 0 ∧ s.completed = false ∧ 0 < size ∧ size ≤ s.rxBufsz
  | .published size => 0 < size ∧ size ≤ s.rb.bufferSize ∧
      (s.rxCptIndex = 0 ∧ s.completed = true ∨
        s.rxCptIndex = size ∧ s.completed = false ∧ (s.isr = false → s.rb.dataLen < size))
  | .waiting size => 0 < size ∧ size ≤ s.rb.bufferSize ∧ s.rxCptIndex = size ∧ s.completed = false ∧
      (s.isr = false → s.rb.dataLen < size)
  | .woken _ => s.rxCptIndex = 0 ∧ s.completed = true

/-- The invariant. -/
structure SerialRxInv (s : SerialRx) : Prop where
  holds : ∃ len, s.rb.Holds len
  size : s.rb.bufferSize < 2 ^ 16
  max : s.rxBufsz < 2 ^ 16
  call : s.call.Of s

section

variable {s s' : SerialRx}

theorem SerialRxInv.live (h : SerialRxInv s) : SerialRxLive s := by
  intro size hcall hisr
  have hc := h.call
  rw [hcall] at hc
  obtain ⟨-, hle, -, -, hlt⟩ := hc
  have hlt := hlt hisr
  obtain ⟨len, hl⟩ := h.holds
  rintro (hsize | hfull)
  · omega
  · rw [hl.dataLen, hl.status.mp hfull] at hlt
    omega

/-- The steps of the reader. -/
theorem SerialRxInv.reader (h : SerialRxInv s) {a : RxLabel} (hok : serialRxOk s a = true)
    (ha : ∀ bytes, a ≠ .rxPut bytes) (ha' : a ≠ .rxIsr) (hst : s.step a = some s') :
    SerialRxInv s' := by
  have hc := h.call
  cases a with
  | read size =>
    simp only [SerialRx.step] at hst
    by_cases hcond : s.isr = true ∨ s.call ≠ .idle
    · rw [if_pos hcond] at hst
      cases hst
    rw [if_neg hcond] at hst
    simp only [not_or, not_not] at hcond
    cases hst
    rw [hcond.2] at hc
    unfold SerialRx.fifoRxTest
    by_cases h0 : size = 0
    · rw [if_pos h0]
      exact ⟨h.holds, h.size, h.max, by rw [hcond.2]; exact hc⟩
    rw [if_neg h0]
    by_cases hmax : size > s.rxBufsz
    · rw [if_pos hmax]
      exact ⟨h.holds, h.size, h.max, by rw [hcond.2]; exact hc⟩
    rw [if_neg hmax]
    by_cases hlt : s.rb.dataLen < size
    · rw [if_pos hlt]
      exact ⟨h.holds, h.size, h.max, hc.1, hc.2, Nat.pos_of_ne_zero h0, Nat.not_lt.mp hmax⟩
    · rw [if_neg hlt]
      exact ⟨h.holds, h.size, h.max, hc⟩
  | publish =>
    simp only [SerialRx.step] at hst
    split at hst
    · rename_i size hisr hcall
      cases hst
      rw [hcall] at hc
      simp only [serialRxOk, hcall, Bool.and_eq_true, decide_eq_true_eq] at hok
      obtain ⟨-, hcpt, hpos, hle⟩ := hc
      have hmod : size % 2 ^ 16 = size := Nat.mod_eq_of_lt (Nat.lt_of_le_of_lt hle h.max)
      exact ⟨h.holds, h.size, h.max, hpos, hok.2, .inr ⟨hmod, hcpt, fun _ => hok.1⟩⟩
    · cases hst
  | wait =>
    simp only [SerialRx.step] at hst
    split at hst
    · rename_i size hisr hcall
      cases hst
      rw [hcall] at hc
      obtain ⟨hpos, hle, hcase⟩ := hc
      unfold SerialRx.fifoRxWait
      rcases hcase with ⟨hi, hcpt⟩ | ⟨hi, hcpt, hlt⟩
      · rw [if_neg (by simp [hcpt])]
        exact ⟨h.holds, h.size, h.max, hi, rfl⟩
      · rw [if_pos hcpt]
        exact ⟨h.holds, h.size, h.max, hpos, hle, hi, hcpt, hlt⟩
    · cases hst
  | wake =>
    simp only [SerialRx.step] at hst
    split at hst
    · rename_i size hisr hcall
      cases hst
      rw [hcall] at hc
      exact ⟨h.holds, h.size, h.max, hc.1, rfl⟩
    · cases hst
  | get =>
    simp only [SerialRx.step] at hst
    split at hst
    · rename_i size hisr hcall
      cases hst
      rw [hcall] at hc
      obtain ⟨len, hl⟩ := h.holds
      refine ⟨⟨_, (RingBuffer.get_spec hl size).2.2.1⟩, ?_, h.max, hc⟩
      show (s.rb.get size).2.2.bufferSize < 2 ^ 16
      rw [RingBuffer.get_bufferSize]
      exact h.size
    · cases hst
  | rxPut bytes => exact absurd rfl (ha bytes)
  | rxIsr => exact absurd rfl ha'

/-- Bytes are put in. -/
theorem SerialRxInv.rxPut (h : SerialRxInv s) {bytes : List UInt8}
    (hst : s.step (.rxPut bytes) = some s') : SerialRxInv s' := by
  simp only [SerialRx.step] at hst
  by_cases hisr : s.isr = true
  · rw [if_pos hisr] at hst
    cases hst
  rw [if_neg hisr] at hst
  cases hst
  obtain ⟨len, hl⟩ := h.holds
  have hsize : (s.rb.put bytes).2.bufferSize = s.rb.bufferSize := (RingBuffer.put_frame s.rb bytes).1
  refine ⟨⟨_, (RingBuffer.put_spec hl bytes).2.1⟩, by rw [hsize]; exact h.size, h.max, ?_⟩
  have hc := h.call
  show RxCall.Of _ s.call
  cases hcall : s.call with
  | idle =>
    rw [hcall] at hc
    exact hc
  | tested size =>
    rw [hcall] at hc
    exact hc
  | reading size =>
    rw [hcall] at hc
    exact hc
  | woken size =>
    rw [hcall] at hc
    exact hc
  | published size =>
    rw [hcall] at hc
    obtain ⟨hpos, hle, hcase⟩ := hc
    refine ⟨hpos, by rw [hsize]; exact hle, hcase.imp id fun ⟨h1, h2, _⟩ => ⟨h1, h2, ?_⟩⟩
    exact fun hf => (nomatch hf)
  | waiting size =>
    rw [hcall] at hc
    obtain ⟨hpos, hle, h1, h2, -⟩ := hc
    exact ⟨hpos, by rw [hsize]; exact hle, h1, h2, fun hf => (nomatch hf)⟩

/-- The receive interrupt. -/
theorem SerialRxInv.rxIsr (h : SerialRxInv s) (hst : s.step .rxIsr = some s') : SerialRxInv s' := by
  simp only [SerialRx.step] at hst
  by_cases hisr : s.isr = false
  · rw [if_pos hisr] at hst
    cases hst
  rw [if_neg hisr] at hst
  cases hst
  have hc := h.call
  -- the test of the interrupt fails: the ring buffer holds too few bytes, or nothing is published
  by_cases htest : s.rxCptIndex ≠ 0 ∧ s.rb.dataLen ≥ s.rxCptIndex
  · have hne : s.rb.dataLen ≠ 0 := by omega
    have hrun : s.serialRxIsr = { s with rxCptIndex := 0 }.completionDone := by
      unfold SerialRx.serialRxIsr
      simp only [if_neg hne, if_pos htest]
    rw [hrun]
    unfold SerialRx.completionDone
    cases hcall : s.call with
    | idle =>
      rw [hcall] at hc
      exact absurd hc.1 htest.1
    | tested size =>
      rw [hcall] at hc
      exact absurd hc.1 htest.1
    | reading size =>
      rw [hcall] at hc
      exact absurd hc.1 htest.1
    | woken size =>
      rw [hcall] at hc
      exact absurd hc.1 htest.1
    | published size =>
      rw [hcall] at hc
      obtain ⟨hpos, hle, ⟨h1, -⟩ | ⟨-, h2, -⟩⟩ := hc
      · exact absurd h1 htest.1
      · simp only [h2, Bool.false_eq_true, if_false]
        exact ⟨h.holds, h.size, h.max, hpos, hle, .inl ⟨rfl, rfl⟩⟩
    | waiting size =>
      rw [hcall] at hc
      obtain ⟨hpos, hle, -, h2, -⟩ := hc
      simp only [h2, Bool.false_eq_true, if_false]
      exact ⟨h.holds, h.size, h.max, rfl, rfl⟩
  · have hrun : s.serialRxIsr = s := by
      unfold SerialRx.serialRxIsr
      by_cases hne : s.rb.dataLen = 0
      · simp only [if_pos hne]
      · simp only [if_neg hne, if_neg htest]
    rw [hrun]
    refine ⟨h.holds, h.size, h.max, ?_⟩
    show RxCall.Of _ s.call
    cases hcall : s.call with
    | idle =>
      rw [hcall] at hc
      exact hc
    | tested size =>
      rw [hcall] at hc
      exact hc
    | reading size =>
      rw [hcall] at hc
      exact hc
    | woken size =>
      rw [hcall] at hc
      exact hc
    | published size =>
      rw [hcall] at hc
      obtain ⟨hpos, hle, hcase⟩ := hc
      refine ⟨hpos, hle, hcase.imp id fun ⟨h1, h2, _⟩ => ⟨h1, h2, fun _ => ?_⟩⟩
      show s.rb.dataLen < size
      omega
    | waiting size =>
      rw [hcall] at hc
      obtain ⟨hpos, hle, h1, h2, -⟩ := hc
      refine ⟨hpos, hle, h1, h2, fun _ => ?_⟩
      show s.rb.dataLen < size
      omega

theorem serialRxStep_inv (h : SerialRxInv s) {a : RxLabel} (hok : serialRxOk s a = true)
    (hst : s.step a = some s') : SerialRxInv s' := by
  cases a with
  | rxPut bytes => exact h.rxPut hst
  | rxIsr => exact h.rxIsr hst
  | _ => exact h.reader hok (fun _ he => (nomatch he)) (fun he => (nomatch he)) hst

theorem SerialRxInit.inv (h : SerialRxInit s) : SerialRxInv s := by
  obtain ⟨pool, hrb⟩ := h.rb
  have hmin := h.min
  have hmax := h.max
  have hh : s.rb.Holds 0 := by
    rw [hrb]
    exact RingBuffer.init_holds pool (by unfold rtAlignSize; omega)
  refine ⟨⟨0, hh⟩, ?_, hmax, ?_⟩
  · rw [hrb]
    show rtAlignDown s.rxBufsz < 2 ^ 16
    unfold rtAlignDown rtAlignSize
    omega
  · rw [h.call]
    exact ⟨h.rxCptIndex, h.completed⟩

/-- **Blocking reads are not lost.** In every run in which a read publishes a number of bytes that the
ring buffer can hold and does not hold, no read waits for bytes that are there. -/
theorem serialRx_live (hs : serialRxSystem.Reach serialRxOk s) : SerialRxLive s := by
  have hinv : SerialRxInv s := hs.invariant (I := SerialRxInv) (fun _ h => SerialRxInit.inv h)
    fun _ _ _ h hok hst => serialRxStep_inv h hok hst
  exact hinv.live

end

/-! ## Runs -/

/-- A buffer of 66 bytes, of which the ring buffer uses 64. -/
def serialRxStart : SerialRx where
  rb := RingBuffer.init (fun _ => 0) 66
  rxBufsz := 66
  rxCptIndex := 0
  completed := false
  isr := false
  call := .idle
  ret := []

theorem serialRxStart_init : SerialRxInit serialRxStart :=
  ⟨⟨fun _ => 0, rfl⟩, by decide, by decide, rfl, rfl, rfl, rfl⟩

/-- A read of two bytes waits with one byte there, and returns when the second one has arrived. -/
theorem serialRx_live_waiting :
    (∃ s, serialRxSystem.Reach serialRxOk s ∧ (s.call = .waiting 2 ∧ s.rb.dataLen = 1) ∧
      SerialRxLive s) ∧
    ∃ s, serialRxSystem.Reach serialRxOk s ∧ (s.call = .idle ∧ s.ret = [7, 8]) ∧ SerialRxLive s := by
  constructor
  · obtain ⟨s, hs, hp⟩ := System.exists_reach serialRxSystem serialRxOk
      (fun s => decide (s.call = .waiting 2 ∧ s.rb.dataLen = 1)) serialRxStart_init
      [.read 2, .publish, .wait, .rxPut [7], .rxIsr] (by decide)
    exact ⟨s, hs, of_decide_eq_true hp, serialRx_live hs⟩
  · obtain ⟨s, hs, hp⟩ := System.exists_reach serialRxSystem serialRxOk
      (fun s => decide (s.call = .idle ∧ s.ret = [7, 8])) serialRxStart_init
      [.read 2, .publish, .wait, .rxPut [7], .rxIsr, .rxPut [8], .rxIsr, .wake, .get]
      (by decide)
    exact ⟨s, hs, of_decide_eq_true hp, serialRx_live hs⟩

/-- **A lost read**: the bytes arrive after the test and before the number is published. -/
theorem serialRx_lost : ¬ ∀ s, serialRxSystem.Reach System.anyStep s → SerialRxLive s := by
  intro h
  obtain ⟨s, hs, hp⟩ := System.exists_reach serialRxSystem System.anyStep
    (fun s => decide (s.call = .waiting 2 ∧ s.isr = false ∧ 2 ≤ s.rb.dataLen)) serialRxStart_init
    [.read 2, .rxPut [7, 8], .rxIsr, .publish, .wait] (by decide)
  obtain ⟨hcall, hisr, hlen⟩ := of_decide_eq_true hp
  exact h s hs 2 hcall hisr (.inl hlen)

end RtThread
