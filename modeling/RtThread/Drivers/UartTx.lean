import RtThread.Drivers.RingBuffer

/-!
# Transmission of the UART by interrupts

`hpm_uart_transmit` and the transmit part of `hpm_uart_isr` in `drv_uart_v2.c`: both hand bytes of the
ring buffer to the UART and switch the interrupt for a free transmit slot. A writer puts its bytes into
the ring buffer and calls `hpm_uart_transmit`; the interrupt comes between any two of its steps.

* `uartDrain`, `uartIsrTx`: the loop over the bytes, and the interrupt;
* `UartTxPc`, `UartTx.next`, `UartTx.step`: the steps of `hpm_uart_transmit`, the writers, the interrupt;
* `UartTxInv`, `UartTxInv.step`: what every step keeps;
* **`uart_tx_armed`**: after the call the ring buffer is empty or the interrupt is enabled, in every
  run whose calls find a free slot, an enabled interrupt or nothing to send; `uart_tx_stuck`.
-/

namespace RtThread

/-- Where `hpm_uart_transmit` is: not called, before the test of the status, before
`uart_disable_irq`, before the sizes are read, in the loop before `rt_ringbuffer_getchar` and before
`uart_write_byte`, and before `uart_enable_irq`. -/
inductive UartTxPc where
  | idle
  | status
  | disable
  | sizes
  | getchar (n : ℕ) (ch : UInt8)
  | write (n : ℕ) (ch : UInt8)
  | enable
  deriving DecidableEq

/-- The transmit FIFO, `uart_intr_tx_slot_avail` in the interrupt enable register, the call of
`hpm_uart_transmit`, whether bytes were put in since it began, and the bytes that were put in and those
written to the UART so far. -/
structure UartTx where
  rb : RingBuffer
  irq : Bool
  pc : UartTxPc
  owed : Bool
  accepted : List UInt8
  handed : List UInt8

/-- A writer puts bytes in; `hpm_uart_transmit` is called, finds a free slot or none, and goes on; the
interrupt comes. -/
inductive UartTxLabel where
  | put (buffer : List UInt8)
  | call (size : ℕ)
  | status (avail : Bool)
  | next
  | isr (avail : Bool)
  deriving DecidableEq

/-- The bytes of the loop in the interrupt, and what it leaves of the ring buffer. -/
def uartDrain : ℕ → UInt8 → RingBuffer → List UInt8 × RingBuffer
  | 0, _, rb => ([], rb)
  | n + 1, ch, rb =>
    let ch := rb.getchar.2.1.headD ch
    let r := uartDrain n ch rb.getchar.2.2
    (ch :: r.1, r.2)

/-- `tx_size`. -/
def uartTxSize (fifoSize : ℕ) (rb : RingBuffer) : ℕ :=
  if rb.dataLen > fifoSize then fifoSize else rb.dataLen

namespace UartTx

variable (fifoSize : ℕ) (s : UartTx)

/-- The transmit part of `hpm_uart_isr`, for the status that it has read. -/
def isrTx (avail : Bool) : UartTx :=
  if avail then
    let s := { s with irq := false }
    if s.rb.dataLen ≤ 0 then s
    else
      let r := uartDrain (uartTxSize fifoSize s.rb) 0 s.rb
      { s with handed := s.handed ++ r.1, rb := r.2, irq := true }
  else s

/-- The next step of `hpm_uart_transmit` behind the test of the status. -/
def next : Option UartTx :=
  match s.pc with
  | .disable => some { s with irq := false, pc := .sizes }
  | .sizes => some { s with pc := .getchar (uartTxSize fifoSize s.rb) 0 }
  | .getchar 0 _ => some { s with pc := .enable }
  | .getchar (n + 1) ch =>
    let r := s.rb.getchar
    some { s with rb := r.2.2, pc := .write n (r.2.1.headD ch) }
  | .write n ch => some { s with handed := s.handed ++ [ch], pc := .getchar n ch }
  | .enable => some { s with irq := true, pc := .idle }
  | _ => none

/-- One step. The identification register names the transmit slot only while its interrupt is
enabled; the line status, whose number has the same bit, is never enabled. -/
def step : UartTxLabel → Option UartTx
  | .put buffer =>
    some { s with
      rb := (s.rb.put buffer).2
      accepted := s.accepted ++ buffer.take (s.rb.put buffer).1
      owed := true }
  | .call size =>
    if s.pc = .idle ∧ size ≠ 0 then some { s with pc := .status, owed := false } else none
  | .status avail =>
    if s.pc = .status then some { s with pc := if avail then .disable else .idle } else none
  | .next => s.next fifoSize
  | .isr avail => if s.irq then some (s.isrTx fifoSize avail) else none

end UartTx

/-- After `rt_serial_tx_enable`. -/
structure UartTxInit (s : UartTx) : Prop where
  rb : ∃ pool size, rtAlignSize ≤ size ∧ s.rb = RingBuffer.init pool size
  pc : s.pc = .idle
  owed : s.owed = false
  accepted : s.accepted = []
  handed : s.handed = []

/-- The runs of the writers, the calls and the interrupt. -/
def uartTxSystem (fifoSize : ℕ) : System UartTx UartTxLabel where
  init := UartTxInit
  step := UartTx.step fifoSize

/-- **The condition**: a call that finds no free slot finds the interrupt enabled, or nothing to send. -/
def uartTxOk (s : UartTx) : UartTxLabel → Bool
  | .status avail => avail || s.irq || decide (s.rb.dataLen = 0)
  | _ => true

/-- **The interrupt is armed**: what was written is what was put in, in order, but for what the ring
buffer holds and the byte in hand; and when no call is in progress and none is owed, all has been written
or the interrupt is enabled. -/
structure UartTxArmed (s : UartTx) : Prop where
  exact : s.handed <+: s.accepted
  armed : s.pc = .idle → s.owed = false → s.rb.dataLen = 0 ∧ s.handed = s.accepted ∨ s.irq = true

/-! ## The loop -/

section

variable {s s' : UartTx} {rb : RingBuffer} {len n fifoSize : ℕ} {ch : UInt8}

/-- One byte of the ring buffer. -/
theorem getchar_spec (h : rb.Holds len) (hpos : 0 < len) :
    ∃ c, rb.getchar.2.1 = [c] ∧ rb.contents = c :: rb.getchar.2.2.contents ∧
      rb.getchar.2.2.Holds (len - 1) := by
  obtain ⟨-, h2, h3, h4⟩ := RingBuffer.get_spec h 1
  have hlen := h.contents_length
  rw [Nat.min_eq_left hpos] at h3
  rw [RingBuffer.getchar_eq h, h2, h4]
  cases hc : rb.contents with
  | nil =>
    rw [hc, List.length_nil] at hlen
    omega
  | cons c rest => exact ⟨c, rfl, rfl, h3⟩

variable (ch) in
/-- **The loop writes the first bytes** of the ring buffer. -/
theorem uartDrain_spec (h : rb.Holds len) (hn : n ≤ len) :
    (uartDrain n ch rb).1 = rb.contents.take n ∧
      (uartDrain n ch rb).2.contents = rb.contents.drop n ∧
      (uartDrain n ch rb).2.Holds (len - n) := by
  induction n generalizing rb len ch with
  | zero => exact ⟨rfl, rfl, h⟩
  | succ n ih =>
    obtain ⟨c, h1, h2, h3⟩ := getchar_spec h (by omega)
    rw [uartDrain]
    dsimp only
    obtain ⟨h4, h5, h6⟩ := ih (rb.getchar.2.1.headD ch) h3 (by omega)
    rw [h4, h5, h1, h2, List.take_succ_cons, List.drop_succ_cons]
    refine ⟨rfl, rfl, ?_⟩
    rw [← h1]
    have hlen : len - (n + 1) = len - 1 - n := by omega
    rw [hlen]
    exact h6

variable (fifoSize) in
theorem uartTxSize_le (h : rb.Holds len) : uartTxSize fifoSize rb ≤ len := by
  unfold uartTxSize
  rw [h.dataLen]
  split <;> omega

/-! ## The invariant -/

/-- The byte that is taken out and not yet written. -/
def UartTxPc.inHand : UartTxPc → List UInt8
  | .write _ ch => [ch]
  | _ => []

/-- What holds at each place of `hpm_uart_transmit`: between the two switches the interrupt is disabled
and there are enough bytes for the loop. -/
def UartTx.At (s : UartTx) : UartTxPc → Prop
  | .idle => s.owed = false → s.rb.contents = [] ∨ s.irq = true
  | .status => True
  | .disable => True
  | .sizes => s.irq = false
  | .getchar n _ => s.irq = false ∧ n ≤ s.rb.contents.length
  | .write n _ => s.irq = false ∧ n ≤ s.rb.contents.length
  | .enable => s.irq = false

/-- **The invariant.** -/
structure UartTxInv (s : UartTx) : Prop where
  holds : ∃ len, s.rb.Holds len
  exact : s.accepted = s.handed ++ s.pc.inHand ++ s.rb.contents
  place : s.At s.pc

theorem contents_nil (h : rb.Holds len) : rb.contents = [] ↔ rb.dataLen = 0 := by
  rw [h.dataLen, ← h.contents_length, List.length_eq_zero_iff]

theorem UartTxInv.armed (h : UartTxInv s) : UartTxArmed s := by
  obtain ⟨⟨len, hl⟩, he, hp⟩ := h
  refine ⟨?_, fun hpc hown => ?_⟩
  · rw [he, List.append_assoc]
    exact List.prefix_append _ _
  · rw [hpc] at hp he
    rcases hp hown with hc | hirq
    · left
      refine ⟨(contents_nil hl).mp hc, ?_⟩
      have hhand : UartTxPc.idle.inHand = [] := rfl
      rw [he, hc, hhand, List.append_nil, List.append_nil]
    · exact .inr hirq

/-- Bytes are put in. -/
theorem UartTxInv.put (h : UartTxInv s) (buffer : List UInt8) :
    UartTxInv { s with
      rb := (s.rb.put buffer).2
      accepted := s.accepted ++ buffer.take (s.rb.put buffer).1
      owed := true } := by
  obtain ⟨⟨len, hl⟩, he, hp⟩ := h
  obtain ⟨hn, hh, hc⟩ := RingBuffer.put_spec hl buffer
  have htake : buffer.take (s.rb.bufferSize - len) = buffer.take (s.rb.put buffer).1 := by
    rw [hn, Nat.min_comm, ← List.take_take, List.take_length]
  rw [htake] at hc
  have hle : s.rb.contents.length ≤ (s.rb.put buffer).2.contents.length := by
    rw [hc, List.length_append]
    exact Nat.le_add_right _ _
  refine ⟨⟨_, hh⟩, ?_, ?_⟩
  · show s.accepted ++ _ = s.handed ++ s.pc.inHand ++ (s.rb.put buffer).2.contents
    rw [hc, he, List.append_assoc (s.handed ++ s.pc.inHand)]
  · revert hp
    unfold UartTx.At
    cases s.pc with
    | idle => exact fun _ hown => absurd hown (by simp)
    | status => exact id
    | disable => exact id
    | sizes => exact id
    | getchar n ch => exact fun hp => ⟨hp.1, Nat.le_trans hp.2 hle⟩
    | write n ch => exact fun hp => ⟨hp.1, Nat.le_trans hp.2 hle⟩
    | enable => exact id

/-- **The interrupt** comes outside the two switches: it leaves the ring buffer empty or is enabled. -/
theorem UartTxInv.isrTx (h : UartTxInv s) (hirq : s.irq = true) (avail : Bool) :
    UartTxInv (s.isrTx fifoSize avail) := by
  cases avail with
  | false => exact h
  | true =>
    obtain ⟨⟨len, hl⟩, he, hp⟩ := h
    have hpc : s.pc = .idle ∨ s.pc = .status ∨ s.pc = .disable := by
      revert hp
      unfold UartTx.At
      cases s.pc with
      | idle => exact fun _ => .inl rfl
      | status => exact fun _ => .inr (.inl rfl)
      | disable => exact fun _ => .inr (.inr rfl)
      | sizes => simp [hirq]
      | getchar n ch => simp [hirq]
      | write n ch => simp [hirq]
      | enable => simp [hirq]
    have hhand : s.pc.inHand = [] := by
      rcases hpc with h | h | h <;> rw [h] <;> rfl
    have hplace : ∀ s' : UartTx, s'.pc = s.pc → (s'.rb.contents = [] ∨ s'.irq = true) →
        s'.At s'.pc := by
      intro s' he hor
      rw [he]
      rcases hpc with h | h | h <;> rw [h]
      · exact fun _ => hor
      · trivial
      · trivial
    unfold UartTx.isrTx
    rw [if_pos rfl]
    dsimp only
    by_cases hempty : s.rb.dataLen ≤ 0
    · rw [if_pos hempty]
      exact ⟨⟨len, hl⟩, he, hplace _ rfl (.inl ((contents_nil hl).mpr (Nat.le_zero.mp hempty)))⟩
    · rw [if_neg hempty]
      obtain ⟨h1, h2, h3⟩ := uartDrain_spec 0 hl (uartTxSize_le fifoSize hl)
      refine ⟨⟨_, h3⟩, ?_, hplace _ rfl (.inr rfl)⟩
      show s.accepted = s.handed ++ _ ++ s.pc.inHand ++ _
      rw [he, hhand, h1, h2, List.append_nil, List.append_nil, List.append_assoc,
        List.take_append_drop]

/-- The steps of `hpm_uart_transmit` behind the test. -/
theorem UartTxInv.next (h : UartTxInv s) (hst : s.next fifoSize = some s') : UartTxInv s' := by
  obtain ⟨⟨len, hl⟩, he, hp⟩ := h
  unfold UartTx.next at hst
  cases hpc : s.pc with
  | idle =>
    rw [hpc] at hst
    cases hst
  | status =>
    rw [hpc] at hst
    cases hst
  | disable =>
    rw [hpc] at hst he
    cases hst
    exact ⟨⟨len, hl⟩, he, rfl⟩
  | sizes =>
    rw [hpc] at hst he hp
    cases hst
    refine ⟨⟨len, hl⟩, he, hp, ?_⟩
    rw [hl.contents_length]
    exact uartTxSize_le fifoSize hl
  | getchar n ch =>
    rw [hpc] at hst he hp
    obtain ⟨hirq, hn⟩ := hp
    cases n with
    | zero =>
      cases hst
      exact ⟨⟨len, hl⟩, he, hirq⟩
    | succ n =>
      cases hst
      rw [hl.contents_length] at hn
      obtain ⟨c, h1, h2, h3⟩ := getchar_spec hl (by omega)
      refine ⟨⟨_, h3⟩, ?_, hirq, ?_⟩
      · show s.accepted = s.handed ++ [s.rb.getchar.2.1.headD ch] ++ s.rb.getchar.2.2.contents
        have hhand : (UartTxPc.getchar (n + 1) ch).inHand = [] := rfl
        rw [he, h1, h2, hhand, List.append_nil, List.append_assoc]
        rfl
      · show n ≤ s.rb.getchar.2.2.contents.length
        rw [h3.contents_length]
        omega
  | write n ch =>
    rw [hpc] at hst he hp
    cases hst
    refine ⟨⟨len, hl⟩, ?_, hp⟩
    show s.accepted = s.handed ++ [ch] ++ [] ++ s.rb.contents
    rw [he, List.append_nil]
    rfl
  | enable =>
    rw [hpc] at hst he
    cases hst
    exact ⟨⟨len, hl⟩, he, fun _ => .inr rfl⟩

/-- **Every step keeps the invariant** under its condition. -/
theorem UartTxInv.step {l : UartTxLabel} (h : UartTxInv s) (hok : uartTxOk s l = true)
    (hst : s.step fifoSize l = some s') : UartTxInv s' := by
  cases l with
  | put buffer =>
    cases hst
    exact h.put buffer
  | call size =>
    obtain ⟨hcond, hst⟩ := Option.ite_none_right_eq_some.mp hst
    cases hst
    obtain ⟨hh, he, -⟩ := h
    rw [hcond.1] at he
    exact ⟨hh, he, trivial⟩
  | status avail =>
    obtain ⟨hpc, hst⟩ := Option.ite_none_right_eq_some.mp hst
    cases hst
    obtain ⟨⟨len, hl⟩, he, -⟩ := h
    rw [hpc] at he
    cases avail with
    | true => exact ⟨⟨len, hl⟩, he, trivial⟩
    | false =>
      refine ⟨⟨len, hl⟩, he, fun _ => ?_⟩
      rw [uartTxOk, Bool.false_or, Bool.or_eq_true, decide_eq_true_eq] at hok
      exact hok.symm.imp_left (contents_nil hl).mpr
  | next => exact h.next hst
  | isr avail =>
    obtain ⟨hirq, hst⟩ := Option.ite_none_right_eq_some.mp hst
    cases hst
    exact h.isrTx hirq avail

theorem UartTxInit.inv (h : UartTxInit s) : UartTxInv s := by
  obtain ⟨pool, size, hsize, hrb⟩ := h.rb
  have hl := RingBuffer.init_holds pool hsize
  rw [← hrb] at hl
  have hnil : s.rb.contents = [] := List.eq_nil_of_length_eq_zero hl.contents_length
  refine ⟨⟨0, hl⟩, ?_, ?_⟩
  · rw [h.accepted, h.handed, h.pc, hnil]
    rfl
  · rw [h.pc]
    exact fun _ => .inl hnil

theorem uartTx_inv (h : (uartTxSystem fifoSize).Reach uartTxOk s) : UartTxInv s :=
  h.invariant (I := UartTxInv) (fun _ h0 => UartTxInit.inv h0) fun _ _ _ hi hok hst => hi.step hok hst

/-- **The interrupt is armed** in every run whose calls meet the condition, and a call that does not
meet it breaks this, unless another writer put bytes in meanwhile. -/
theorem uart_tx_armed (fifoSize : ℕ) (s : UartTx)
    (h : (uartTxSystem fifoSize).Reach uartTxOk s) :
    UartTxArmed s ∧ ∀ avail s', s.step fifoSize (.status avail) = some s' → s.owed = false →
      (UartTxArmed s' ↔ uartTxOk s (.status avail) = true) := by
  have hinv := uartTx_inv h
  refine ⟨hinv.armed, fun avail s' hst hown => ⟨fun harm => ?_, fun hok => (hinv.step hok hst).armed⟩⟩
  obtain ⟨hpc, hst⟩ := Option.ite_none_right_eq_some.mp hst
  cases hst
  cases avail with
  | true => rfl
  | false =>
    rw [uartTxOk, Bool.false_or, Bool.or_eq_true, decide_eq_true_eq]
    rcases harm.armed rfl hown with ⟨hlen, -⟩ | hirq
    · exact .inr hlen
    · exact .inl hirq

/-- A UART that has just been opened, with 64 bytes. -/
def openedUart : UartTx where
  rb := RingBuffer.init (fun _ => 0) 64
  irq := true
  pc := .idle
  owed := false
  accepted := []
  handed := []

theorem openedUart_init : UartTxInit openedUart :=
  ⟨⟨_, 64, by decide, rfl⟩, rfl, rfl, rfl, rfl⟩

/-- Three bytes go out to a UART with room for two, one of them by the interrupt. -/
theorem uart_tx_armed_three : ∃ s, (uartTxSystem 2).Reach uartTxOk s ∧ s.handed = [1, 2, 3] ∧
    UartTxArmed s := by
  obtain ⟨s, hs, hp⟩ := (uartTxSystem 2).exists_reach uartTxOk
    (fun s => decide (s.handed = [1, 2, 3])) openedUart_init
    [.isr true, .put [1, 2, 3], .call 3, .status true, .next, .next, .next, .next, .next, .next,
      .next, .next, .isr true] (by decide)
  exact ⟨s, hs, of_decide_eq_true hp, (uart_tx_armed 2 s hs).1⟩

/-- **A call finds no free slot** while the interrupt is disabled: the byte stays in the ring buffer. -/
theorem uart_tx_stuck :
    ∃ s, (uartTxSystem 16).Reach System.anyStep s ∧ ¬ UartTxArmed s := by
  obtain ⟨s, hs, hp⟩ := (uartTxSystem 16).exists_reach System.anyStep
    (fun s => decide (s.pc = .idle ∧ s.owed = false ∧ s.rb.dataLen = 1 ∧ s.irq = false))
    openedUart_init [.isr true, .put [1], .call 1, .status false] (by decide)
  obtain ⟨hpc, hown, hlen, hirq⟩ := of_decide_eq_true hp
  refine ⟨s, hs, fun harm => ?_⟩
  rcases harm.armed hpc hown with ⟨h, -⟩ | h
  · omega
  · rw [hirq] at h
    cases h

end

end RtThread
