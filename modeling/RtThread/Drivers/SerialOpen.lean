import RtThread.Kernel.Align

/-!
# Opening and closing a serial device

`rt_serial_open` and `rt_serial_close` of `serial_v2.c` over `hpm_uart_control` of `drv_uart_v2.c`,
built with `RT_SERIAL_USING_DMA`. The configuration frees the FIFO that has just been built and replaces
it when its buffer does not lie on cache lines. Each direction has its own FIFO, buffer and pointers.

* `SerialFifo`, `SerialSide`: a FIFO, and a direction with its blocks and the answers of `rt_malloc`;
* `SerialSide.config`, `rxEnable`, `txEnable`, `rxDisable`, `txDisable`: the functions;
* `SideOpen`, `SideClosed`: what is claimed of a direction after the open and after the close;
* `config_replaced`: what the configuration does to a FIFO whose ring buffer is not on cache lines;
* **`serial_open_close`**: this holds exactly when both directions meet `rxOk` and `txOk`.
-/

namespace RtThread

/-- `RT_SERIAL_RX_MINBUFSZ` and `RT_SERIAL_TX_MINBUFSZ`. -/
def serialMinbufsz : ℕ := 64

/-- A FIFO: the pool and the size of its ring buffer, and whether its ring buffer and its completion
were initialised. -/
structure SerialFifo where
  bufferPtr : ℕ
  bufferSize : ℕ
  rbInit : Bool
  cptInit : Bool
  deriving DecidableEq

/-- A direction: `serial_rx` or `serial_tx`, `ringbuf_ptr`, the FIFOs and the other blocks that are
allocated, those of them allocated since the open, what `rt_malloc` will return with what a new FIFO
contains; whether a FIFO that is not allocated was accessed, and whether a block that is not allocated
was freed. -/
structure SerialSide where
  serial : Option ℕ
  ringbuf : Option ℕ
  fifo : ℕ → Option SerialFifo
  buffer : ℕ → Bool
  since : List ℕ
  answers : List (ℕ × SerialFifo)
  badAccess : Bool
  badFree : Bool

/-- The mode of a direction: blocking, by DMA, `rx_bufsz` or `tx_bufsz`, and the offset of `buffer` in
the FIFO. -/
structure SerialMode where
  blocking : Bool
  dma : Bool
  bufsz : ℕ
  offset : ℕ

/-- The size of the buffer after the test for its minimum. -/
def SerialMode.size (m : SerialMode) : ℕ := if m.bufsz < serialMinbufsz then serialMinbufsz else m.bufsz

/-- The ring buffer of a FIFO does not lie on cache lines. -/
def SerialFifo.misplaced (x : SerialFifo) : Bool :=
  x.bufferPtr % cachelineSize ≠ 0 || x.bufferSize % cachelineSize ≠ 0

/-- `rt_ringbuffer_init` of a FIFO. -/
def SerialFifo.ringbufferInit (pool size : ℕ) (x : SerialFifo) : SerialFifo :=
  { x with bufferPtr := pool, bufferSize := rtAlignDown size, rbInit := true }

/-- `rt_memset` of the ring buffer. -/
def SerialFifo.clear (x : SerialFifo) : SerialFifo :=
  { x with bufferPtr := 0, bufferSize := 0, rbInit := true }

/-- `rt_completion_init` of a FIFO. -/
def SerialFifo.completionInit (x : SerialFifo) : SerialFifo := { x with cptInit := true }

namespace SerialSide

variable (m : SerialMode) (s : SerialSide)

/-! ## Blocks -/

/-- The next answer of `rt_malloc`: not NULL, which fails an assertion, and not a block in use. -/
def next : Option (ℕ × SerialFifo × SerialSide) :=
  match s.answers with
  | [] => none
  | (a, garbage) :: answers =>
    if a = 0 ∨ (s.fifo a).isSome ∨ s.buffer a then none
    else some (a, garbage, { s with answers, since := a :: s.since })

/-- `rt_malloc` of a FIFO. -/
def mallocFifo : Option (ℕ × SerialSide) :=
  s.next.map fun (a, garbage, s) =>
    (a, { s with
      fifo := Function.update s.fifo a (some { garbage with rbInit := false, cptInit := false }) })

/-- `rt_malloc` of a buffer. -/
def mallocBuffer : Option (ℕ × SerialSide) :=
  s.next.map fun (a, _, s) => (a, { s with buffer := Function.update s.buffer a true })

/-- `rt_free` of a FIFO. -/
def freeFifo (a : ℕ) : SerialSide :=
  if (s.fifo a).isSome then
    { s with fifo := Function.update s.fifo a none, since := s.since.erase a }
  else { s with badFree := true }

/-- `rt_free` of a buffer. -/
def freeBuffer (a : ℕ) : SerialSide :=
  if s.buffer a then
    { s with buffer := Function.update s.buffer a false, since := s.since.erase a }
  else { s with badFree := true }

/-- An access to a FIFO. -/
def edit (a : ℕ) (f : SerialFifo → SerialFifo) : SerialSide :=
  match s.fifo a with
  | some x => { s with fifo := Function.update s.fifo a (some (f x)) }
  | none => { s with badAccess := true }

/-- A new value of `serial_rx` or `serial_tx`. -/
def setSerial (o : Option ℕ) : SerialSide := { s with serial := o }

/-- A new value of `ringbuf_ptr`. -/
def setRingbuf (o : Option ℕ) : SerialSide := { s with ringbuf := o }

/-! ## The driver -/

/-- `rt_free` of `ringbuf_ptr`, if it is not NULL. -/
def freeRingbuf : SerialSide :=
  match s.ringbuf with
  | some r => s.freeBuffer r
  | none => s

/-- The new FIFO of the configuration, whose ring buffer begins on the next cache line of a new block. -/
def newFifo : Option SerialSide := do
  let (a, s) ← s.mallocFifo
  let (t, s) ← s.mallocBuffer
  let s := s.freeRingbuf.setRingbuf (some t)
  let s := s.edit a (SerialFifo.ringbufferInit (t + (cachelineSize - t % cachelineSize)) m.size)
  some (s.setSerial (some a))

/-- `RT_DEVICE_CTRL_CONFIG` in `hpm_uart_control`, for either direction. -/
def config : Option SerialSide :=
  match s.serial with
  | none => some s
  | some a =>
    match s.fifo a with
    | none => some { s with badAccess := true }
    | some x =>
      if x.misplaced then (s.freeFifo a).newFifo m
      else some s

/-- `RT_DEVICE_CTRL_CLR_INT` in `hpm_uart_control`. -/
def clrInt : SerialSide :=
  if m.dma then s.freeRingbuf.setRingbuf none else s

/-! ## The serial core -/

/-- `rt_serial_rx_enable`. -/
def rxEnable : Option SerialSide :=
  if m.bufsz = 0 then some s
  else do
    let (a, s) ← s.mallocFifo
    let s := s.edit a (SerialFifo.ringbufferInit (a + m.offset) m.size)
    let s := s.setSerial (some a)
    if m.blocking then (s.edit a SerialFifo.completionInit).config m else s.config m

/-- `rt_serial_tx_enable`; by DMA the driver needs no buffer for blocking writes
(`RT_DEVICE_CHECK_OPTMODE`). -/
def txEnable : Option SerialSide :=
  if m.bufsz = 0 then some s
  else if m.blocking then do
    let (a, s) ← s.mallocFifo
    if !m.dma then
      let s := s.edit a (SerialFifo.ringbufferInit (a + m.offset) m.size)
      let s := s.setSerial (some a)
      some (s.edit a SerialFifo.completionInit)
    else
      let s := s.setSerial (some a)
      let s ← s.config m
      let s := s.edit a SerialFifo.clear
      some (s.edit a SerialFifo.completionInit)
  else do
    let (a, s) ← s.mallocFifo
    let s := s.edit a (SerialFifo.ringbufferInit (a + m.offset) m.size)
    let s := s.setSerial (some a)
    s.config m

/-- `rt_serial_rx_disable`. -/
def rxDisable : SerialSide :=
  match s.serial with
  | none => s
  | some a => ((s.clrInt m).freeFifo a).setSerial none

/-- `rt_serial_tx_disable`; `rt_completion_done` accesses the FIFO. -/
def txDisable : SerialSide :=
  match s.serial with
  | none => s
  | some a =>
    let s := if m.blocking then s.edit a id else s
    ((s.clrInt m).freeFifo a).setSerial none

end SerialSide

/-- The two directions of a device. -/
structure Serial where
  rx : SerialSide
  tx : SerialSide

/-- What is configured: the directions that go by DMA, the sizes of the buffers, and the offsets. -/
structure SerialConfig where
  dmaRx : Bool
  dmaTx : Bool
  rxBufsz : ℕ
  txBufsz : ℕ
  rxOffset : ℕ
  txOffset : ℕ

/-- `RT_SERIAL_RX_BLOCKING` in the flags, otherwise not blocking. -/
def SerialConfig.rxMode (c : SerialConfig) (oflag : BitVec 16) : SerialMode :=
  ⟨oflag &&& 0x1000 = 0x1000, c.dmaRx, c.rxBufsz, c.rxOffset⟩

/-- `RT_SERIAL_TX_NON_BLOCKING` in the flags, otherwise blocking. -/
def SerialConfig.txMode (c : SerialConfig) (oflag : BitVec 16) : SerialMode :=
  ⟨!(oflag &&& 0x8000 = 0x8000), c.dmaTx, c.txBufsz, c.txOffset⟩

/-- `rt_serial_open` of a device that is not open. -/
def Serial.open (c : SerialConfig) (s : Serial) (oflag : BitVec 16) : Option Serial := do
  let rx ← s.rx.rxEnable (c.rxMode oflag)
  let tx ← s.tx.txEnable (c.txMode oflag)
  some ⟨rx, tx⟩

/-- `rt_serial_close` of a device with one user. -/
def Serial.close (c : SerialConfig) (s : Serial) (oflag : BitVec 16) : Serial :=
  ⟨s.rx.rxDisable (c.rxMode oflag), s.tx.txDisable (c.txMode oflag)⟩

/-! ## The property -/

/-- A direction that is closed; a buffer of an earlier session may be left. -/
structure SideInit (s : SerialSide) : Prop where
  serial : s.serial = none
  ringbuf : ∀ r, s.ringbuf = some r → s.buffer r = true
  since : s.since = []
  badAccess : s.badAccess = false
  badFree : s.badFree = false

/-- **After the open** the FIFO is allocated, its ring buffer and, in blocking mode, its completion are
initialised, and no freed FIFO was accessed. -/
def SideOpen (m : SerialMode) (s : SerialSide) : Prop :=
  s.badAccess = false ∧ ∃ a x, s.serial = some a ∧ s.fifo a = some x ∧ x.rbInit = true ∧
    (m.blocking = true → x.cptInit = true)

/-- **After the close** every block allocated since the open is freed, each of them once. -/
def SideClosed (s : SerialSide) : Prop := s.since = [] ∧ s.badFree = false

/-- The FIFO that the serial core builds at an address. -/
def SerialMode.built (m : SerialMode) (a : ℕ) (x : SerialFifo) : SerialFifo :=
  x.ringbufferInit (a + m.offset) m.size

/-- **The condition on the receive direction.** -/
def SerialMode.rxOk (m : SerialMode) (s : SerialSide) : Bool :=
  m.bufsz ≠ 0 &&
    (s.answers.head?.all (fun r => !(m.built r.1 r.2).misplaced) || (!m.blocking && m.dma))

/-- **The condition on the transmit direction.** -/
def SerialMode.txOk (m : SerialMode) (s : SerialSide) : Bool :=
  m.bufsz ≠ 0 &&
    if m.blocking then
      !m.dma || s.answers.head?.all (fun r => !r.2.misplaced) ||
        s.answers[0]?.map Prod.fst = s.answers[1]?.map Prod.fst
    else s.answers.head?.all (fun r => !(m.built r.1 r.2).misplaced) || m.dma

/-! ## The blocks of a direction -/

/-- The FIFO at an address is allocated, and `ringbuf_ptr` is another block. -/
structure SideHas (s : SerialSide) (a : ℕ) (x : SerialFifo) : Prop where
  fifo : s.fifo a = some x
  ringbuf : ∀ r, s.ringbuf = some r → s.buffer r = true ∧ r ≠ a
  badAccess : s.badAccess = false
  badFree : s.badFree = false

section

variable {m : SerialMode} {s s' : SerialSide} {a b t : ℕ} {x garbage : SerialFifo}
  {f : SerialFifo → SerialFifo}

theorem next_spec (h : s.next = some (a, garbage, s')) :
    ∃ answers, s.answers = (a, garbage) :: answers ∧ s.fifo a = none ∧ s.buffer a = false ∧
      s' = { s with answers, since := a :: s.since } := by
  unfold SerialSide.next at h
  cases ha : s.answers with
  | nil =>
    rw [ha] at h
    cases h
  | cons r answers =>
    obtain ⟨b, g⟩ := r
    rw [ha] at h
    obtain ⟨hfree, h⟩ := Option.ite_none_left_eq_some.mp h
    cases h
    simp only [not_or, Bool.not_eq_true, Option.isSome_eq_false_iff, Option.isNone_iff_eq_none] at hfree
    exact ⟨answers, rfl, hfree.2.1, hfree.2.2, rfl⟩

theorem mallocFifo_spec (h : s.mallocFifo = some (a, s')) :
    ∃ garbage answers, s.answers = (a, garbage) :: answers ∧ s.fifo a = none ∧ s.buffer a = false ∧
      s' = { s with
        answers
        since := a :: s.since
        fifo := Function.update s.fifo a (some { garbage with rbInit := false, cptInit := false }) } := by
  obtain ⟨⟨b, garbage, s1⟩, hnext, heq⟩ := Option.map_eq_some_iff.mp h
  cases heq
  obtain ⟨answers, h1, h2, h3, rfl⟩ := next_spec hnext
  exact ⟨garbage, answers, h1, h2, h3, rfl⟩

theorem mallocBuffer_spec (h : s.mallocBuffer = some (a, s')) :
    ∃ garbage answers, s.answers = (a, garbage) :: answers ∧ s.fifo a = none ∧ s.buffer a = false ∧
      s' = { s with
        answers
        since := a :: s.since
        buffer := Function.update s.buffer a true } := by
  obtain ⟨⟨b, garbage, s1⟩, hnext, heq⟩ := Option.map_eq_some_iff.mp h
  cases heq
  obtain ⟨answers, h1, h2, h3, rfl⟩ := next_spec hnext
  exact ⟨garbage, answers, h1, h2, h3, rfl⟩

theorem freeFifo_of (h : s.fifo a = some x) : s.freeFifo a =
    { s with fifo := Function.update s.fifo a none, since := s.since.erase a } := by
  rw [SerialSide.freeFifo, if_pos (by rw [h]; rfl)]

theorem freeBuffer_of (h : s.buffer a = true) : s.freeBuffer a =
    { s with buffer := Function.update s.buffer a false, since := s.since.erase a } := by
  rw [SerialSide.freeBuffer, if_pos h]

theorem edit_of (h : s.fifo a = some x) :
    s.edit a f = { s with fifo := Function.update s.fifo a (some (f x)) } := by
  rw [SerialSide.edit, h]

theorem edit_missing (h : s.fifo a = none) : (s.edit a f).badAccess = true := by
  rw [SerialSide.edit, h]

theorem edit_badAccess (h : s.badAccess = true) : (s.edit a f).badAccess = true := by
  unfold SerialSide.edit
  cases s.fifo a with
  | none => rfl
  | some x => exact h

/-- An access that changes nothing. -/
theorem edit_id (h : s.fifo a = some x) : s.edit a id = s := by
  rw [edit_of h, id, ← h, Function.update_eq_self]

theorem SideHas.edit (h : SideHas s a x) : SideHas (s.edit a f) a (f x) := by
  rw [edit_of h.fifo]
  exact ⟨Function.update_self .., h.ringbuf, h.badAccess, h.badFree⟩

theorem edit_serial : (s.edit a f).serial = s.serial := by
  unfold SerialSide.edit
  cases s.fifo a <;> rfl

theorem edit_since : (s.edit a f).since = s.since := by
  unfold SerialSide.edit
  cases s.fifo a <;> rfl

theorem edit_ringbuf : (s.edit a f).ringbuf = s.ringbuf := by
  unfold SerialSide.edit
  cases s.fifo a <;> rfl

/-- The first FIFO of a direction that is closed. -/
theorem SideInit.mallocFifo (h : SideInit s) (hm : s.mallocFifo = some (a, s')) :
    ∃ garbage answers, s.answers = (a, garbage) :: answers ∧ s'.answers = answers ∧
      SideHas s' a { garbage with rbInit := false, cptInit := false } ∧ s'.since = [a] := by
  obtain ⟨garbage, answers, h1, -, hbuf, rfl⟩ := mallocFifo_spec hm
  refine ⟨garbage, answers, h1, rfl,
    ⟨Function.update_self .., fun r hr => ?_, h.badAccess, h.badFree⟩, ?_⟩
  · refine ⟨h.ringbuf r hr, fun he => ?_⟩
    rw [← he, h.ringbuf r hr] at hbuf
    cases hbuf
  · show a :: s.since = [a]
    rw [h.since]

theorem SideHas.setSerial (h : SideHas s a x) (o : Option ℕ) : SideHas (s.setSerial o) a x :=
  ⟨h.fifo, h.ringbuf, h.badAccess, h.badFree⟩

/-! ## The configuration -/

/-- The block of `ringbuf_ptr` is freed. -/
theorem freeRingbuf_spec (h : ∀ r, s.ringbuf = some r → s.buffer r = true) :
    (s.freeRingbuf).fifo = s.fifo ∧ (s.freeRingbuf).since = s.ringbuf.elim s.since s.since.erase ∧
      (s.freeRingbuf).badAccess = s.badAccess ∧ (s.freeRingbuf).badFree = s.badFree ∧
      ∀ t, s.buffer t = true → s.ringbuf ≠ some t → (s.freeRingbuf).buffer t = true := by
  unfold SerialSide.freeRingbuf
  cases hr : s.ringbuf with
  | none => exact ⟨rfl, rfl, rfl, rfl, fun _ ht _ => ht⟩
  | some r =>
    dsimp only
    rw [freeBuffer_of (h r hr)]
    refine ⟨rfl, rfl, rfl, rfl, fun t ht hne => ?_⟩
    show Function.update s.buffer r false t = true
    rw [Function.update_of_ne (fun h => hne (by rw [h])), ht]

/-- A ring buffer on cache lines stays. -/
theorem config_kept (h : SideHas s a x) (hs : s.serial = some a) (hx : x.misplaced = false) :
    s.config m = some s := by
  unfold SerialSide.config
  rw [hs]
  dsimp only
  rw [h.fifo]
  dsimp only
  rw [if_neg (by rw [hx]; exact Bool.false_ne_true)]

/-- The completion of a new FIFO is not initialised. -/
theorem newFifo_spec (hc : s.newFifo m = some s') (hr : ∀ r, s.ringbuf = some r → s.buffer r = true)
    (hsince : s.since = []) (hacc : s.badAccess = false) (hfree : s.badFree = false) :
    ∃ b t y, SideHas s' b y ∧ y.rbInit = true ∧ y.cptInit = false ∧ s'.serial = some b ∧
      s'.ringbuf = some t ∧ s'.since = [t, b] ∧ s.answers[0]?.map Prod.fst = some b ∧
      ∀ a, s.fifo a = none → a ≠ b → s'.fifo a = none := by
  obtain ⟨⟨b, s1⟩, hb, hrest⟩ := Option.bind_eq_some_iff.mp hc
  obtain ⟨⟨t, s2⟩, ht, heq⟩ := Option.bind_eq_some_iff.mp hrest
  obtain ⟨g1, ans1, ha1, -, hbuf1, rfl⟩ := mallocFifo_spec hb
  obtain ⟨g2, ans2, -, hfifo2, hbuf2, hs2⟩ := mallocBuffer_spec ht
  have htb : t ≠ b := by
    intro he
    rw [he] at hfifo2
    simp at hfifo2
  have hfresh : ∀ r, s.ringbuf = some r → r ≠ t ∧ r ≠ b := by
    intro r h
    refine ⟨fun he => ?_, fun he => ?_⟩
    · exact Bool.false_ne_true (hbuf2.symm.trans (he ▸ hr r h))
    · exact Bool.false_ne_true (hbuf1.symm.trans (he ▸ hr r h))
  have hring : s2.ringbuf = s.ringbuf := by rw [hs2]
  have hlive : ∀ r, s2.ringbuf = some r → s2.buffer r = true := by
    intro r h
    rw [hring] at h
    rw [hs2]
    show Function.update s.buffer t true r = true
    rw [Function.update_of_ne (hfresh r h).1, hr r h]
  obtain ⟨h1, h2, h3, h4, h5⟩ := freeRingbuf_spec hlive
  have hs2since : s2.since = [t, b] := by
    rw [hs2]
    show t :: b :: s.since = [t, b]
    rw [hsince]
  have hfreed : s2.freeRingbuf.since = [t, b] := by
    rw [h2, hs2since, hring]
    cases hrs : s.ringbuf with
    | none => rfl
    | some r =>
      obtain ⟨hrt, hrb⟩ := hfresh r hrs
      exact List.erase_of_not_mem (by simp [hrt, hrb])
  have hhas : SideHas (s2.freeRingbuf.setRingbuf (some t)) b
      { g1 with rbInit := false, cptInit := false } := by
    refine ⟨?_, fun r h => ?_, ?_, ?_⟩
    · show s2.freeRingbuf.fifo b = _
      rw [h1, hs2]
      exact Function.update_self ..
    · cases h
      refine ⟨h5 t ?_ ?_, htb⟩
      · rw [hs2]
        exact Function.update_self ..
      · rw [hring]
        exact fun h => (hfresh t h).1 rfl
    · show s2.freeRingbuf.badAccess = false
      rw [h3, hs2]
      exact hacc
    · show s2.freeRingbuf.badFree = false
      rw [h4, hs2]
      exact hfree
  cases heq
  refine ⟨b, t, _, hhas.edit.setSerial _, rfl, rfl, rfl, edit_ringbuf, edit_since.trans hfreed,
    by rw [ha1]; rfl, fun a ha hne => ?_⟩
  rw [edit_of hhas.fifo]
  show Function.update s2.freeRingbuf.fifo b _ a = none
  rw [Function.update_of_ne hne, h1, hs2]
  show Function.update s.fifo b _ a = none
  rw [Function.update_of_ne hne, ha]

/-- **A FIFO whose ring buffer does not lie on cache lines is replaced.** -/
theorem config_replaced (h : SideHas s a x) (hs : s.serial = some a) (hsince : s.since = [a])
    (hx : x.misplaced = true) (hc : s.config m = some s') :
    ∃ b t y, SideHas s' b y ∧ y.rbInit = true ∧ y.cptInit = false ∧ s'.serial = some b ∧
      s'.ringbuf = some t ∧ s'.since = [t, b] ∧ s.answers[0]?.map Prod.fst = some b ∧
      (a ≠ b → s'.fifo a = none) := by
  unfold SerialSide.config at hc
  rw [hs] at hc
  dsimp only at hc
  rw [h.fifo] at hc
  dsimp only at hc
  rw [if_pos hx, freeFifo_of h.fifo, hsince, List.erase_cons_head] at hc
  obtain ⟨b, t, y, h1, h2, h3, h4, h5, h6, h7, h8⟩ :=
    newFifo_spec hc (fun r hr => (h.ringbuf r hr).1) rfl h.badAccess h.badFree
  exact ⟨b, t, y, h1, h2, h3, h4, h5, h6, h7, h8 a (Function.update_self ..)⟩

/-! ## The close -/

theorem clrInt_since (h : SideHas s a x) :
    (s.clrInt m).since = if m.dma then s.ringbuf.elim s.since s.since.erase else s.since := by
  unfold SerialSide.clrInt
  split
  · exact (freeRingbuf_spec fun r hr => (h.ringbuf r hr).1).2.1
  · rfl

theorem SideHas.clrInt (h : SideHas s a x) : SideHas (s.clrInt m) a x := by
  unfold SerialSide.clrInt
  split
  · obtain ⟨h1, -, h3, h4, -⟩ := freeRingbuf_spec fun r hr => (h.ringbuf r hr).1
    exact ⟨(congrFun h1 a).trans h.fifo, fun r hr => (by cases hr), h3.trans h.badAccess,
      h4.trans h.badFree⟩
  · exact h

/-- **What the close leaves** of the blocks. -/
theorem rxDisable_closed (h : SideHas s a x) (hs : s.serial = some a) :
    SideClosed (s.rxDisable m) ↔
      (if m.dma then s.ringbuf.elim s.since s.since.erase else s.since).erase a = [] := by
  unfold SerialSide.rxDisable
  rw [hs]
  dsimp only
  rw [freeFifo_of h.clrInt.fifo, clrInt_since h]
  exact ⟨fun hc => hc.1, fun hc => ⟨hc, h.clrInt.badFree⟩⟩

/-- The close of the transmit direction is the same, its FIFO being allocated. -/
theorem txDisable_eq (h : SideHas s a x) (hs : s.serial = some a) : s.txDisable m = s.rxDisable m := by
  unfold SerialSide.txDisable SerialSide.rxDisable
  rw [hs]
  dsimp only
  rw [edit_id h.fifo, ite_self]

theorem txDisable_nonblocking (hm : ¬ m.blocking = true) : s.txDisable m = s.rxDisable m := by
  unfold SerialSide.txDisable SerialSide.rxDisable
  simp only [if_neg hm]

/-- A FIFO that was not replaced. -/
theorem closed_kept (h : SideHas s a x) (hs : s.serial = some a) (hsince : s.since = [a]) :
    SideClosed (s.rxDisable m) := by
  rw [rxDisable_closed h hs, hsince]
  have herase : s.ringbuf.elim [a] [a].erase = [a] := by
    cases hr : s.ringbuf with
    | none => rfl
    | some r => exact List.erase_of_not_mem (by simp [(h.ringbuf r hr).2])
  rw [herase, ite_self, List.erase_cons_head]

/-- **A FIFO that was replaced**: its buffer is freed only by DMA. -/
theorem closed_replaced (h : SideHas s b x) (hs : s.serial = some b) (ht : s.ringbuf = some t)
    (hsince : s.since = [t, b]) : SideClosed (s.rxDisable m) ↔ m.dma = true := by
  have htb := (h.ringbuf t ht).2
  rw [rxDisable_closed h hs, hsince, ht]
  cases m.dma with
  | true => simp
  | false => simp [htb]

/-! ## The condition -/

theorem sideOpen_iff (h : SideHas s a x) (hs : s.serial = some a) :
    SideOpen m s ↔ x.rbInit = true ∧ (m.blocking = true → x.cptInit = true) := by
  constructor
  · rintro ⟨-, b, y, hb, hy, h1, h2⟩
    cases hs.symm.trans hb
    cases h.fifo.symm.trans hy
    exact ⟨h1, h2⟩
  · exact fun h1 => ⟨h.badAccess, a, x, hs, h.fifo, h1.1, h1.2⟩

/-- **A FIFO that was initialised and is then configured.** -/
theorem config_open_close (h : SideHas s a x) (hs : s.serial = some a) (hsince : s.since = [a])
    (hrb : x.rbInit = true) (hcpt : m.blocking = true → x.cptInit = true) (hc : s.config m = some s') :
    (SideOpen m s' ∧ SideClosed (s'.rxDisable m)) ↔
      (!x.misplaced || (!m.blocking && m.dma)) = true := by
  cases hx : x.misplaced with
  | false =>
    rw [config_kept h hs hx] at hc
    cases hc
    simp only [Bool.not_false, Bool.true_or, iff_true]
    exact ⟨(sideOpen_iff h hs).mpr ⟨hrb, hcpt⟩, closed_kept h hs hsince⟩
  | true =>
    obtain ⟨b, t, y, h1, h2, h3, h4, h5, h6, -⟩ := config_replaced h hs hsince hx hc
    rw [sideOpen_iff h1 h4, closed_replaced h1 h4 h5 h6, h2, h3]
    cases m.blocking <;> simp

/-- Without a buffer there is no FIFO. -/
theorem not_sideOpen (h : SideInit s) : ¬ SideOpen m s := by
  rintro ⟨-, a, x, ha, -⟩
  rw [h.serial] at ha
  cases ha

/-- The first FIFO, with its ring buffer behind it. -/
theorem SideInit.built (h : SideInit s) (ha : s.mallocFifo = some (a, s')) :
    ∃ garbage x, s.answers.head? = some (a, garbage) ∧ x.misplaced = (m.built a garbage).misplaced ∧
      SideHas ((s'.edit a (SerialFifo.ringbufferInit (a + m.offset) m.size)).setSerial (some a)) a x ∧
      x.rbInit = true ∧
      ((s'.edit a (SerialFifo.ringbufferInit (a + m.offset) m.size)).setSerial (some a)).since = [a] := by
  obtain ⟨garbage, answers, hans, -, hhas, hsince⟩ := h.mallocFifo ha
  have hbuilt := (hhas.edit (f := SerialFifo.ringbufferInit (a + m.offset) m.size)).setSerial (some a)
  refine ⟨garbage, _, ?_, ?_, hbuilt, rfl, edit_since.trans hsince⟩
  · rw [hans, List.head?_cons]
  · rfl

/-- **The receive direction.** -/
theorem rx_open_close (h : SideInit s) (hopen : s.rxEnable m = some s') :
    (SideOpen m s' ∧ SideClosed (s'.rxDisable m)) ↔ m.rxOk s = true := by
  unfold SerialSide.rxEnable at hopen
  unfold SerialMode.rxOk
  by_cases hb : m.bufsz = 0
  · rw [if_pos hb] at hopen
    cases hopen
    simp [hb, not_sideOpen h]
  · rw [if_neg hb] at hopen
    obtain ⟨⟨a, s1⟩, ha, hopen⟩ := Option.bind_eq_some_iff.mp hopen
    obtain ⟨garbage, x, hans, hx, hhas, hrb, hsince⟩ := h.built (m := m) ha
    simp only [hb, hans, ← hx, ne_eq, not_false_eq_true, decide_true, Bool.true_and, Option.all_some]
    by_cases hm : m.blocking = true
    · dsimp only at hopen
      rw [if_pos hm] at hopen
      have hcpt := hhas.edit (f := SerialFifo.completionInit)
      have hiff := config_open_close hcpt edit_serial (edit_since.trans hsince) hrb (fun _ => rfl) hopen
      exact hiff
    · dsimp only at hopen
      rw [if_neg hm] at hopen
      exact config_open_close hhas rfl hsince hrb (fun h => absurd h hm) hopen

/-- **By DMA in blocking mode** the serial core goes on with the FIFO that it allocated. -/
theorem txDma_open_close (hdma : m.dma = true) (h : SideInit s)
    (ha : s.mallocFifo = some (a, s1)) (hc : (s1.setSerial (some a)).config m = some s2)
    (hs : s' = (s2.edit a SerialFifo.clear).edit a SerialFifo.completionInit) :
    (SideOpen m s' ∧ SideClosed (s'.txDisable m)) ↔
      (s.answers.head?.all (fun r => !r.2.misplaced) ||
        s.answers[0]?.map Prod.fst = s.answers[1]?.map Prod.fst) = true := by
  obtain ⟨garbage, answers, hans, hans', hhas, hsince⟩ := h.mallocFifo ha
  have hhas1 := hhas.setSerial (some a)
  have hx : (SerialFifo.misplaced { garbage with rbInit := false, cptInit := false }) =
    garbage.misplaced := rfl
  rw [hans, List.head?_cons, Option.all_some]
  cases hg : garbage.misplaced with
  | false =>
    rw [config_kept hhas1 rfl (hx.trans hg)] at hc
    cases hc
    have hlast := (hhas1.edit (f := SerialFifo.clear)).edit (f := SerialFifo.completionInit)
    have hser := (edit_serial (f := SerialFifo.completionInit) (a := a)).trans
      (edit_serial (f := SerialFifo.clear) (a := a) (s := s1.setSerial (some a)))
    have hsin := (edit_since (f := SerialFifo.completionInit) (a := a)).trans
      (edit_since (f := SerialFifo.clear) (a := a) (s := s1.setSerial (some a)))
    rw [← hs] at hlast hser hsin
    simp only [Bool.not_false, Bool.true_or, iff_true]
    rw [txDisable_eq hlast hser]
    exact ⟨(sideOpen_iff hlast hser).mpr ⟨rfl, fun _ => rfl⟩,
      closed_kept hlast hser (hsin.trans hsince)⟩
  | true =>
    obtain ⟨b, t, y, h1, h2, h3, h4, h5, h6, h7, h8⟩ :=
      config_replaced hhas1 rfl hsince (hx.trans hg) hc
    have hb : answers[0]?.map Prod.fst = some b := by
      rw [← hans']
      exact h7
    have hcond : (!true || decide (((a, garbage) :: answers)[0]?.map Prod.fst =
        ((a, garbage) :: answers)[1]?.map Prod.fst)) = true ↔ a = b := by
      rw [Bool.not_true, Bool.false_or, decide_eq_true_eq]
      show some a = answers[0]?.map Prod.fst ↔ a = b
      rw [hb, Option.some_inj]
    rw [hcond]
    by_cases hab : a = b
    · rw [hab] at hs
      have hlast := (h1.edit (f := SerialFifo.clear)).edit (f := SerialFifo.completionInit)
      rw [← hs] at hlast
      have hser : s'.serial = some b := by rw [hs, edit_serial, edit_serial, h4]
      have hring : s'.ringbuf = some t := by rw [hs, edit_ringbuf, edit_ringbuf, h5]
      have hsin : s'.since = [t, b] := by rw [hs, edit_since, edit_since, h6]
      rw [txDisable_eq hlast hser, closed_replaced hlast hser hring hsin, sideOpen_iff hlast hser]
      exact ⟨fun _ => hab, fun _ => ⟨⟨rfl, fun _ => rfl⟩, hdma⟩⟩
    · have hnone := h8 hab
      refine ⟨fun hp => ?_, fun he => absurd he hab⟩
      have hacc : s'.badAccess = true := by
        rw [hs]
        exact edit_badAccess (edit_missing hnone)
      exact absurd (hacc.symm.trans hp.1.1) (by decide)

/-- **The transmit direction.** -/
theorem tx_open_close (h : SideInit s) (hopen : s.txEnable m = some s') :
    (SideOpen m s' ∧ SideClosed (s'.txDisable m)) ↔ m.txOk s = true := by
  unfold SerialSide.txEnable at hopen
  unfold SerialMode.txOk
  by_cases hb : m.bufsz = 0
  · rw [if_pos hb] at hopen
    cases hopen
    simp [hb, not_sideOpen h]
  rw [if_neg hb] at hopen
  by_cases hm : m.blocking = true
  · rw [if_pos hm] at hopen
    obtain ⟨⟨a, s1⟩, ha, hopen⟩ := Option.bind_eq_some_iff.mp hopen
    by_cases hdma : m.dma = true
    · dsimp only at hopen
      rw [if_neg (by simp [hdma])] at hopen
      obtain ⟨s2, hc, heq⟩ := Option.bind_eq_some_iff.mp hopen
      cases heq
      rw [txDma_open_close hdma h ha hc rfl]
      simp [hb, hm, hdma]
    · dsimp only at hopen
      rw [if_pos (by simp [hdma])] at hopen
      cases hopen
      obtain ⟨garbage, x, hans, hx, hhas, hrb, hsince⟩ := h.built (m := m) ha
      have hcpt := hhas.edit (f := SerialFifo.completionInit)
      rw [txDisable_eq hcpt edit_serial]
      simp only [hb, hm, hdma, ne_eq, not_false_eq_true, decide_true, Bool.true_and, if_true,
        Bool.not_false, Bool.true_or, iff_true]
      exact ⟨(sideOpen_iff hcpt edit_serial).mpr ⟨hrb, fun _ => rfl⟩,
        closed_kept hcpt edit_serial (edit_since.trans hsince)⟩
  · rw [if_neg hm] at hopen
    obtain ⟨⟨a, s1⟩, ha, hopen⟩ := Option.bind_eq_some_iff.mp hopen
    obtain ⟨garbage, x, hans, hx, hhas, hrb, hsince⟩ := h.built (m := m) ha
    have hiff := config_open_close hhas rfl hsince hrb (fun h => absurd h hm) hopen
    have hclose : s'.txDisable m = s'.rxDisable m := txDisable_nonblocking hm
    rw [hclose, hiff]
    simp [hb, hm, hans, hx]

end

/-- What is claimed of the device that has been opened. -/
def SerialRight (c : SerialConfig) (oflag : BitVec 16) (s : Serial) : Prop :=
  (SideOpen (c.rxMode oflag) s.rx ∧ SideClosed (s.close c oflag).rx) ∧
    SideOpen (c.txMode oflag) s.tx ∧ SideClosed (s.close c oflag).tx

/-- **The open leaves valid FIFOs and the close frees everything** exactly when both directions meet their
conditions. -/
theorem serial_open_close (c : SerialConfig) (oflag : BitVec 16) (s s' : Serial)
    (hrx : SideInit s.rx) (htx : SideInit s.tx) (hopen : s.open c oflag = some s') :
    SerialRight c oflag s' ↔ ((c.rxMode oflag).rxOk s.rx && (c.txMode oflag).txOk s.tx) = true := by
  obtain ⟨rx, hr, hopen⟩ := Option.bind_eq_some_iff.mp hopen
  obtain ⟨tx, ht, hopen⟩ := Option.bind_eq_some_iff.mp hopen
  cases hopen
  rw [Bool.and_eq_true, ← rx_open_close hrx hr, ← tx_open_close htx ht]
  rfl

/-- A direction before its first open, with what `rt_malloc` will return. -/
def newSide (answers : List (ℕ × SerialFifo)) : SerialSide where
  serial := none
  ringbuf := none
  fifo := fun _ => none
  buffer := fun _ => false
  since := []
  answers := answers
  badAccess := false
  badFree := false

theorem newSide_init (answers : List (ℕ × SerialFifo)) : SideInit (newSide answers) :=
  ⟨rfl, fun _ h => (nomatch h), rfl, rfl, rfl⟩

/-- Both directions by DMA, with buffers of 128 bytes that begin 48 and 40 bytes behind the FIFO. -/
def dmaConfig : SerialConfig := ⟨true, true, 128, 128, 48, 40⟩

/-- Not blocking in both directions, with FIFOs at 4096 and 8192 that are replaced. -/
theorem serial_open_close_dma :
    let x : SerialFifo := ⟨0, 0, false, false⟩
    let s : Serial := ⟨newSide [(4096, x), (4160, x), (5120, x)],
      newSide [(8192, x), (8256, x), (9216, x)]⟩
    ∃ s', s.open dmaConfig 0x8000 = some s' ∧ SerialRight dmaConfig 0x8000 s' := by
  intro x s
  obtain ⟨s', hopen⟩ : ∃ s', s.open dmaConfig 0x8000 = some s' :=
    Option.isSome_iff_exists.mp (by decide)
  exact ⟨s', hopen, (serial_open_close dmaConfig 0x8000 s s' (newSide_init _) (newSide_init _) hopen).mpr
    (by decide)⟩

/-- By default the transmit direction blocks: the FIFO at 8192, whose memory contains an address that is
not on a cache line, is freed and replaced by one at 8256, and then initialised after that. -/
theorem serial_open_freed :
    let x : SerialFifo := ⟨0, 0, false, false⟩
    let y : SerialFifo := ⟨100, 0, false, false⟩
    let s : Serial := ⟨newSide [(4096, x), (4160, x), (5120, x)],
      newSide [(8192, y), (8256, x), (9216, x)]⟩
    SideInit s.rx ∧ SideInit s.tx ∧ ∃ s', s.open dmaConfig 0 = some s' ∧ s'.tx.badAccess = true ∧
      ¬ SerialRight dmaConfig 0 s' := by
  intro x y s
  obtain ⟨s', hopen, hbad⟩ : ∃ s', s.open dmaConfig 0 = some s' ∧ s'.tx.badAccess = true := by
    refine ⟨(s.open dmaConfig 0).get (by decide), Option.some_get _ |>.symm, by decide⟩
  refine ⟨newSide_init _, newSide_init _, s', hopen, hbad, fun h => ?_⟩
  exact absurd (hbad.symm.trans h.2.1.1) (by decide)

end RtThread
