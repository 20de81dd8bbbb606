import RtThread.Lib.System

/-!
# The SPI bus and its owner

Devices share a bus that is configured for one of them, its owner. A transfer configures the bus
when the device is not the owner; `rt_spi_configure` stores the configuration, and configures the
bus when the device is.

* `Spi`: the devices, the buses with their owners and the configuration the hardware runs with;
* `configure`, `transfer`, `sendThenRecv`, `transferMessage`, `takeBus`: the functions, over
  `acquire` and `onBus`;
* `Consistent`: the hardware runs with the configuration of the owner; `Consistent.call`;
* **`spi_configuration`**: every transfer runs with the configuration last requested for its device
  exactly when the reconfigurations of owners succeed.
-/

set_option linter.unusedSectionVars false

namespace RtThread

/-! ## The functions -/

/-- `struct rt_spi_configuration`. -/
structure SpiConfiguration where
  mode : BitVec 8 := 0
  dataWidth : BitVec 8 := 0
  maxHz : BitVec 32 := 0
deriving DecidableEq

/-- `RT_SPI_CS_HIGH`. -/
def spiCsHigh : BitVec 8 := 0x10

/-- `RT_SPI_MODE_MASK`. -/
def spiModeMask : BitVec 8 := 0xff

/-- `struct rt_spi_message`; a chain is a list of messages. -/
structure SpiMessage where
  sendBuf : Option ℕ
  recvBuf : Option ℕ
  length : ℕ
  csTake : Bool
  csRelease : Bool
deriving DecidableEq

/-- `struct rt_spi_device`. -/
structure SpiDevice (B : Type) where
  bus : Option B := none
  config : SpiConfiguration := {}
  csPin : Option ℕ := none

/-- `struct rt_spi_bus`, with the configuration the hardware runs with. -/
structure SpiBus (D : Type) where
  owner : Option D := none
  hardware : SpiConfiguration := {}

/-- The devices and the buses. -/
structure Spi (D B : Type) where
  dev : D → SpiDevice B
  bus : B → SpiBus D

/-- What a call makes the pins and the hardware do: a level on a pin; `ops->xfer` of a device with a
chain, and the configuration it runs with. -/
inductive SpiEvent (D : Type) where
  | pin (pin : ℕ) (high : Bool)
  | xfer (device : D) (message : List SpiMessage) (hardware : SpiConfiguration)
deriving DecidableEq

/-- What the code outside answers: `rt_mutex_take`, `rt_mutex_release`, `ops->configure`, and
`ops->xfer` call by call. -/
structure SpiAnswer where
  take : ℤ := 0
  release : ℤ := 0
  configure : ℤ := 0
  xfer : ℕ → ℤ := fun _ => 1

/-- The end of a call: its result, the state and the events. -/
structure SpiOut (D B R : Type) where
  result : R
  spi : Spi D B
  events : List (SpiEvent D) := []

/-- `-RT_EBUSY`. -/
def spiBusy : ℤ := -7

/-- `-RT_EIO`. -/
def spiIoError : ℤ := -8

/-- The loop of `rt_spi_transfer_message`: `xfer` of every message, with the chain that begins at
it, up to the first that fails. -/
def transmitEach {M σ : Type} (xfer : List M → σ → ℤ × σ) : List M → σ → List M × σ
  | [], s => ([], s)
  | index :: next, s =>
    let r := xfer (index :: next) s
    if r.1 < 0 then (index :: next, r.2) else transmitEach xfer next r.2

namespace Spi

variable {D B R : Type} [DecidableEq D] [DecidableEq B]

section
variable (s : Spi D B) (device : D) (b : B) (a : SpiAnswer)

/-- Store the configuration of a device. -/
def setConfig (config : SpiConfiguration) : Spi D B :=
  { s with dev := Function.update s.dev device { s.dev device with config } }

/-- The hardware takes the configuration of a device, which owns the bus. -/
def setOwner : Spi D B :=
  { s with bus := Function.update s.bus b ⟨some device, (s.dev device).config⟩ }

/-- "not the same owner as current, re-configure SPI bus": the test that begins every transfer. -/
def acquire : ℤ × Spi D B :=
  if (s.bus b).owner = some device then (0, s)
  else if a.configure = 0 then (a.configure, s.setOwner device b)
  else (a.configure, s)

/-- `ops->xfer`, the next one of a call. -/
def xfer (message : List SpiMessage) (events : List (SpiEvent D)) : ℤ × List (SpiEvent D) :=
  (a.xfer events.length, events ++ [.xfer device message (s.bus b).hardware])

/-- `rt_spi_configure`. -/
def configure (cfg : SpiConfiguration) : SpiOut D B ℤ :=
  if (s.dev device).config.dataWidth = cfg.dataWidth ∧
      (s.dev device).config.mode = cfg.mode &&& spiModeMask ∧
      (s.dev device).config.maxHz = cfg.maxHz then
    ⟨0, s, []⟩
  else
    let config : SpiConfiguration := { cfg with mode := cfg.mode &&& spiModeMask }
    let s := s.setConfig device config
    let pins := (s.dev device).csPin.toList.map fun pin =>
      SpiEvent.pin pin (config.mode &&& spiCsHigh == 0)
    match (s.dev device).bus with
    | none => ⟨0, s, pins⟩
    | some b =>
      if a.take ≠ 0 then ⟨a.take, s, pins⟩
      else if (s.bus b).owner = some device then
        -- a failure leaves the owner, the stored configuration and the hardware
        ⟨a.configure, if a.configure = 0 then s.setOwner device b else s, pins⟩
      else ⟨0, s, pins⟩

/-- The frame of a transfer: the assertion on the bus, the lock and the owner test. -/
def onBus (failed : ℤ → R) (body : B → Spi D B → SpiOut D B R) (lockError : R) :
    Option (SpiOut D B R) :=
  (s.dev device).bus.map fun b =>
    if a.take ≠ 0 then ⟨lockError, s, []⟩
    else
      let r := s.acquire device b a
      if r.1 ≠ 0 then ⟨failed r.1, r.2, []⟩ else body b r.2

/-- `rt_spi_transfer`. -/
def transfer (sendBuf recvBuf : Option ℕ) (length : ℕ) : Option (SpiOut D B ℤ) :=
  s.onBus device a id (fun b s =>
    let r := s.xfer device b a [⟨sendBuf, recvBuf, length, true, true⟩] []
    ⟨r.1, s, r.2⟩) spiIoError

/-- Two messages one after the other, the first takes and the second releases the chip select. -/
def xferThen (first second : SpiMessage) : Option (SpiOut D B ℤ) :=
  s.onBus device a id (fun b s =>
    let r := s.xfer device b a [first] []
    if r.1 < 0 then ⟨r.1, s, r.2⟩
    else
      let r := s.xfer device b a [second] r.2
      if r.1 < 0 then ⟨r.1, s, r.2⟩ else ⟨0, s, r.2⟩) spiIoError

/-- `rt_spi_send_then_send`. -/
def sendThenSend (sendBuf1 : Option ℕ) (length1 : ℕ) (sendBuf2 : Option ℕ) (length2 : ℕ) :
    Option (SpiOut D B ℤ) :=
  s.xferThen device a ⟨sendBuf1, none, length1, true, false⟩ ⟨sendBuf2, none, length2, false, true⟩

/-- `rt_spi_send_then_recv`. -/
def sendThenRecv (sendBuf : Option ℕ) (sendLength : ℕ) (recvBuf : Option ℕ) (recvLength : ℕ) :
    Option (SpiOut D B ℤ) :=
  s.xferThen device a ⟨sendBuf, none, sendLength, true, false⟩
    ⟨none, recvBuf, recvLength, false, true⟩

/-- `rt_spi_transfer_message`, which returns the message it stopped at. -/
def transferMessage (message : List SpiMessage) : Option (SpiOut D B (List SpiMessage)) :=
  if message = [] then some ⟨message, s, []⟩
  else s.onBus device a (fun _ => message) (fun b s =>
    let r := transmitEach (s.xfer device b a) message []
    ⟨r.1, s, r.2⟩) message

/-- `rt_spi_take_bus`. -/
def takeBus : Option (SpiOut D B ℤ) :=
  s.onBus device a id (fun _ s => ⟨0, s, []⟩) spiBusy

/-- `rt_spi_release_bus`. -/
def releaseBus : Option (SpiOut D B ℤ) :=
  (s.dev device).bus.bind fun b =>
    if (s.bus b).owner = some device then some ⟨a.release, s, []⟩ else none

end

/-! ## Runs -/

end Spi

/-- A call, with the answers to it. -/
inductive SpiCall (D : Type) where
  | configure (device : D) (cfg : SpiConfiguration) (a : SpiAnswer)
  | transfer (device : D) (sendBuf recvBuf : Option ℕ) (length : ℕ) (a : SpiAnswer)
  | sendThenSend (device : D) (sendBuf1 : Option ℕ) (length1 : ℕ) (sendBuf2 : Option ℕ)
      (length2 : ℕ) (a : SpiAnswer)
  | sendThenRecv (device : D) (sendBuf : Option ℕ) (sendLength : ℕ) (recvBuf : Option ℕ)
      (recvLength : ℕ) (a : SpiAnswer)
  | transferMessage (device : D) (message : List SpiMessage) (a : SpiAnswer)
  | takeBus (device : D) (a : SpiAnswer)
  | releaseBus (device : D) (a : SpiAnswer)

/-- What a call leaves, whatever its result. -/
def SpiOut.done {D B R : Type} (o : SpiOut D B R) : Spi D B × List (SpiEvent D) :=
  (o.spi, o.events)

/-- A transfer runs with the configuration of its device. -/
def SpiEvent.Follows {D : Type} (config : D → SpiConfiguration) : SpiEvent D → Prop
  | .pin _ _ => True
  | .xfer device _ hardware => hardware = config device

/-- The bus, and the configuration last requested for every device. -/
structure SpiRun (D B : Type) where
  spi : Spi D B
  requested : D → SpiConfiguration

section

variable {D B R : Type} [DecidableEq D] [DecidableEq B]

/-- A call; `none` is a failed assertion. -/
def Spi.call (s : Spi D B) : SpiCall D → Option (Spi D B × List (SpiEvent D))
  | .configure device cfg a => some (s.configure device a cfg).done
  | .transfer device sendBuf recvBuf length a =>
    (s.transfer device a sendBuf recvBuf length).map SpiOut.done
  | .sendThenSend device sendBuf1 length1 sendBuf2 length2 a =>
    (s.sendThenSend device a sendBuf1 length1 sendBuf2 length2).map SpiOut.done
  | .sendThenRecv device sendBuf sendLength recvBuf recvLength a =>
    (s.sendThenRecv device a sendBuf sendLength recvBuf recvLength).map SpiOut.done
  | .transferMessage device message a => (s.transferMessage device a message).map SpiOut.done
  | .takeBus device a => (s.takeBus device a).map SpiOut.done
  | .releaseBus device a => (s.releaseBus device a).map SpiOut.done

/-- The configurations requested after a call. -/
def SpiRun.request (r : SpiRun D B) : SpiCall D → D → SpiConfiguration
  | .configure device cfg _ => Function.update r.requested device cfg
  | _ => r.requested

/-- The runs of a bus that nobody owns at the start. -/
def spiRuns (D B : Type) [DecidableEq D] [DecidableEq B] : System (SpiRun D B) (SpiCall D) where
  init r := (∀ b, (r.spi.bus b).owner = none) ∧ ∀ d, r.requested d = (r.spi.dev d).config
  step r c := (r.spi.call c).map fun o => ⟨o.1, r.request c⟩

/-- **The configuration follows the device**: every transfer that a call starts runs with the
configuration of its device, which is the one last requested. -/
def SpiRun.Follows (r : SpiRun D B) : Prop :=
  (∀ d, (r.spi.dev d).config = r.requested d) ∧
  ∀ c o, r.spi.call c = some o → ∀ e ∈ o.2, e.Follows r.requested

/-- **The condition**: when the owner of the bus requests another configuration, the lock and
`ops->configure` succeed. -/
def SpiRun.reconfigured (r : SpiRun D B) : SpiCall D → Bool
  | .configure device cfg a =>
    match (r.spi.dev device).bus with
    | none => true
    | some b => decide ((r.spi.bus b).owner = some device → (r.spi.dev device).config ≠ cfg →
        a.take = 0 ∧ a.configure = 0)
  | _ => true

end

/-! ## The hardware and the owner -/

namespace Spi

variable {D B R : Type} [DecidableEq D] [DecidableEq B] {s s' : Spi D B} {device d : D} {b b' : B}
  {a : SpiAnswer} {cfg : SpiConfiguration} {c : SpiCall D}

/-- A bus that is owned runs with the configuration of its owner, one of its devices. -/
def ConsistentAt (s : Spi D B) (b : B) : Prop :=
  ∀ d, (s.bus b).owner = some d →
    (s.dev d).bus = some b ∧ (s.bus b).hardware = (s.dev d).config

/-- Every bus runs with the configuration of its owner. -/
def Consistent (s : Spi D B) : Prop := ∀ b, s.ConsistentAt b

@[simp] theorem setConfig_bus : (s.setConfig device cfg).bus = s.bus := rfl

@[simp] theorem setConfig_dev_bus : ((s.setConfig device cfg).dev d).bus = (s.dev d).bus := by
  by_cases h : d = device
  · subst h
    simp [setConfig]
  · simp [setConfig, h]

theorem setConfig_config :
    ((s.setConfig device cfg).dev d).config =
      Function.update (fun d => (s.dev d).config) device cfg d := by
  by_cases h : d = device
  · subst h
    simp [setConfig]
  · simp [setConfig, h]

@[simp] theorem setOwner_dev : (s.setOwner device b).dev = s.dev := rfl

@[simp] theorem setOwner_bus_self :
    (s.setOwner device b).bus b = ⟨some device, (s.dev device).config⟩ := by
  simp [setOwner]

theorem setOwner_bus_of_ne (h : b' ≠ b) : (s.setOwner device b).bus b' = s.bus b' := by
  simp [setOwner, h]

namespace ConsistentAt

theorem setOwner_self (hb : (s.dev device).bus = some b) :
    (s.setOwner device b).ConsistentAt b := by
  intro d hd
  rw [setOwner_bus_self] at hd ⊢
  cases hd
  exact ⟨hb, rfl⟩

theorem setOwner_of_ne (h : s.ConsistentAt b') (hne : b' ≠ b) :
    (s.setOwner device b).ConsistentAt b' := by
  intro d hd
  rw [setOwner_bus_of_ne hne] at hd ⊢
  exact h d hd

/-- The configuration of a device that does not own the bus is stored. -/
theorem setConfig (h : s.ConsistentAt b) (hno : (s.bus b).owner ≠ some device) :
    (s.setConfig device cfg).ConsistentAt b := by
  intro d hd
  have hne : d ≠ device := fun heq => hno (heq ▸ hd)
  rw [setConfig_dev_bus, setConfig_config, Function.update_of_ne hne]
  exact h d hd

end ConsistentAt

/-- A device owns no bus but its own. -/
theorem Consistent.owner_ne (h : s.Consistent) (hb : (s.dev device).bus ≠ some b) :
    (s.bus b).owner ≠ some device := fun ho => hb (h b device ho).1

/-! ## What a call does -/

theorem and_spiModeMask (m : BitVec 8) : m &&& spiModeMask = m := BitVec.and_allOnes

/-- **What `rt_spi_configure` does**: nothing when the configuration is the stored one; else it is
stored, and given to the hardware when the device is the owner and the answers are good. -/
theorem configure_cases (s : Spi D B) (device : D) (a : SpiAnswer) (cfg : SpiConfiguration) :
    (∀ e ∈ (s.configure device a cfg).events, ∃ pin high, e = .pin pin high) ∧
    ((s.dev device).config = cfg ∧ (s.configure device a cfg).spi = s ∨
      (s.dev device).config ≠ cfg ∧
      ((∃ b, (s.dev device).bus = some b ∧ (s.bus b).owner = some device ∧ a.take = 0 ∧
          a.configure = 0 ∧
          (s.configure device a cfg).spi = (s.setConfig device cfg).setOwner device b) ∨
        (∀ b, (s.dev device).bus = some b → (s.bus b).owner = some device →
          ¬ (a.take = 0 ∧ a.configure = 0)) ∧
        (s.configure device a cfg).spi = s.setConfig device cfg)) := by
  have hpins : ∀ (pin : Option ℕ) (high : Bool),
      ∀ e ∈ pin.toList.map fun p => (SpiEvent.pin p high : SpiEvent D), ∃ p h, e = .pin p h := by
    intro pin high e he
    obtain ⟨p, -, rfl⟩ := List.mem_map.mp he
    exact ⟨p, high, rfl⟩
  have hcfg : ({ cfg with mode := cfg.mode &&& spiModeMask } : SpiConfiguration) = cfg := by
    rw [and_spiModeMask]
  unfold configure
  split
  case isTrue hsame =>
    rw [and_spiModeMask] at hsame
    refine ⟨fun e he => absurd he List.not_mem_nil, .inl ⟨?_, rfl⟩⟩
    rcases hc : (s.dev device).config with ⟨m, w, z⟩
    rw [hc] at hsame
    obtain ⟨rfl, rfl, rfl⟩ := hsame
    rfl
  case isFalse hsame =>
    have hne : (s.dev device).config ≠ cfg := by
      intro heq
      rw [heq, and_spiModeMask] at hsame
      exact hsame ⟨rfl, rfl, rfl⟩
    simp only [hcfg, setConfig_dev_bus, setConfig_bus]
    rcases hb : (s.dev device).bus with _ | b
    · exact ⟨hpins _ _, .inr ⟨hne, .inr ⟨(fun _ h => nomatch h), rfl⟩⟩⟩
    · dsimp only
      split_ifs with htake ho hans
      · refine ⟨hpins _ _, .inr ⟨hne, .inr ⟨?_, rfl⟩⟩⟩
        exact fun _ _ _ h => htake h.1
      · exact ⟨hpins _ _, .inr ⟨hne, .inl ⟨b, rfl, ho, not_not.mp htake, hans, rfl⟩⟩⟩
      · refine ⟨hpins _ _, .inr ⟨hne, .inr ⟨?_, rfl⟩⟩⟩
        exact fun _ _ _ h => hans h.2
      · refine ⟨hpins _ _, .inr ⟨hne, .inr ⟨?_, rfl⟩⟩⟩
        intro b' hb' ho'
        cases hb'
        exact absurd ho' ho

/-- The events are transfers of one device with one configuration of the hardware. -/
def Xfers (device : D) (hardware : SpiConfiguration) (events : List (SpiEvent D)) : Prop :=
  ∀ e ∈ events, ∃ message, e = .xfer device message hardware

theorem Xfers.xfer {events : List (SpiEvent D)} (h : Xfers device (s.bus b).hardware events)
    (a : SpiAnswer) (message : List SpiMessage) :
    Xfers device (s.bus b).hardware (s.xfer device b a message events).2 := by
  intro e he
  rcases List.mem_append.mp he with he | he
  · exact h e he
  · exact ⟨message, List.mem_singleton.mp he⟩

/-- What every `xfer` of the loop keeps, the loop keeps. -/
theorem transmitEach_keep {M σ : Type} {xfer : List M → σ → ℤ × σ} {P : σ → Prop}
    (h : ∀ l s, P s → P (xfer l s).2) (l : List M) {s : σ} (hs : P s) :
    P (transmitEach xfer l s).2 := by
  induction l generalizing s with
  | nil => exact hs
  | cons index next ih =>
    rw [transmitEach]
    split_ifs
    · exact h _ _ hs
    · exact ih (h _ _ hs)

/-- What a transfer does: nothing, or it owns the bus `b` in `s'` and transfers. -/
structure Transfers (s s' : Spi D B) (device : D) (b : B) (events : List (SpiEvent D)) : Prop where
  bus : (s.dev device).bus = some b
  owner : (s.bus b).owner = some device ∧ s' = s ∨
    (s.bus b).owner ≠ some device ∧ s' = s.setOwner device b
  xfers : Xfers device (s'.bus b).hardware events

/-- The frame of a transfer around a body that keeps the state and only transfers. -/
theorem onBus_cases {failed : ℤ → R} {body : B → Spi D B → SpiOut D B R} {lockError : R}
    {o : SpiOut D B R} (h : s.onBus device a failed body lockError = some o)
    (hbody : ∀ b s', (body b s').spi = s' ∧
      Xfers device (s'.bus b).hardware (body b s').events) :
    o.spi = s ∧ o.events = [] ∨ ∃ b, Transfers s o.spi device b o.events := by
  obtain ⟨b, hb, rfl⟩ := Option.map_eq_some_iff.mp h
  dsimp only
  by_cases htake : a.take = 0
  · rw [if_neg (not_not.mpr htake)]
    unfold acquire
    by_cases ho : (s.bus b).owner = some device
    · rw [if_pos ho]
      refine .inr ⟨b, hb, .inl ⟨ho, (hbody b s).1⟩, ?_⟩
      have hs := (hbody b s).1
      simp only [ne_eq, not_true_eq_false, if_false, hs]
      exact (hbody b s).2
    · rw [if_neg ho]
      by_cases hans : a.configure = 0
      · rw [if_pos hans]
        have hs := hbody b (s.setOwner device b)
        refine .inr ⟨b, hb, .inr ⟨ho, ?_⟩, ?_⟩
        · simp only [hans, ne_eq, not_true_eq_false, if_false, hs.1]
        · simp only [hans, ne_eq, not_true_eq_false, if_false, hs.1]
          exact hs.2
      · rw [if_neg hans, if_pos hans]
        exact .inl ⟨rfl, rfl⟩
  · rw [if_pos htake]
    exact .inl ⟨rfl, rfl⟩

section

variable {o : Spi D B × List (SpiEvent D)}

theorem onBus_done {failed : ℤ → R} {body : B → Spi D B → SpiOut D B R} {lockError : R}
    (h : (s.onBus device a failed body lockError).map SpiOut.done = some o)
    (hbody : ∀ b s', (body b s').spi = s' ∧
      Xfers device (s'.bus b).hardware (body b s').events) :
    o = (s, []) ∨ ∃ device b, Transfers s o.1 device b o.2 := by
  obtain ⟨o', ho', rfl⟩ := Option.map_eq_some_iff.mp h
  rcases onBus_cases ho' hbody with ⟨hs, he⟩ | ⟨b, hb⟩
  · exact .inl (Prod.ext hs he)
  · exact .inr ⟨device, b, hb⟩

theorem xfers_nil {hardware : SpiConfiguration} : Xfers device hardware [] :=
  fun _ h => absurd h List.not_mem_nil

theorem xferThen_done {first second : SpiMessage}
    (h : (s.xferThen device a first second).map SpiOut.done = some o) :
    o = (s, []) ∨ ∃ device b, Transfers s o.1 device b o.2 := by
  refine onBus_done h fun b s' => ?_
  dsimp only
  split_ifs
  · exact ⟨rfl, xfers_nil.xfer a _⟩
  · exact ⟨rfl, (xfers_nil.xfer a _).xfer a _⟩
  · exact ⟨rfl, (xfers_nil.xfer a _).xfer a _⟩

/-- **What the other calls do**: nothing, or they own the bus of a device and transfer for it. -/
theorem call_cases (h : s.call c = some o) (hc : ∀ device cfg a, c ≠ .configure device cfg a) :
    o = (s, []) ∨ ∃ device b, Transfers s o.1 device b o.2 := by
  cases c with
  | configure device cfg a => exact absurd rfl (hc device cfg a)
  | transfer device sendBuf recvBuf length a =>
    exact onBus_done h fun b s' => ⟨rfl, xfers_nil.xfer a _⟩
  | sendThenSend device sendBuf1 length1 sendBuf2 length2 a => exact xferThen_done h
  | sendThenRecv device sendBuf sendLength recvBuf recvLength a => exact xferThen_done h
  | transferMessage device message a =>
    change (if message = [] then _ else _ : Option _).map _ = _ at h
    split_ifs at h
    · cases h
      exact .inl rfl
    · refine onBus_done h fun b s' => ⟨rfl, ?_⟩
      exact transmitEach_keep (P := Xfers device (s'.bus b).hardware)
        (fun l events he => Xfers.xfer he a l) message xfers_nil
  | takeBus device a => exact onBus_done h fun b s' => ⟨rfl, xfers_nil⟩
  | releaseBus device a =>
    obtain ⟨o', ho', rfl⟩ := Option.map_eq_some_iff.mp h
    obtain ⟨b, -, ho⟩ := Option.bind_eq_some_iff.mp ho'
    split_ifs at ho
    cases ho
    exact .inl rfl

end

/-- A transfer leaves the devices, and its bus with the configuration of its device. -/
theorem Transfers.dev {events : List (SpiEvent D)} (h : Transfers s s' device b events) :
    s'.dev = s.dev := by
  rcases h.owner with ⟨-, rfl⟩ | ⟨-, rfl⟩ <;> rfl

theorem Transfers.consistent {events : List (SpiEvent D)} (h : Transfers s s' device b events)
    (hs : s.Consistent) : s'.Consistent := by
  rcases h.owner with ⟨-, rfl⟩ | ⟨-, rfl⟩
  · exact hs
  · intro b'
    by_cases hb : b' = b
    · rw [hb]
      exact ConsistentAt.setOwner_self h.bus
    · exact (hs b').setOwner_of_ne hb

theorem Transfers.hardware {events : List (SpiEvent D)} (h : Transfers s s' device b events)
    (hs : s.Consistent) : (s'.bus b).hardware = (s.dev device).config := by
  rcases h.owner with ⟨ho, rfl⟩ | ⟨-, rfl⟩
  · exact (hs b device ho).2
  · rw [setOwner_bus_self]

/-- A stored configuration keeps the buses consistent when the device owns none. -/
theorem Consistent.setConfig (hs : s.Consistent)
    (hno : ∀ b, (s.dev device).bus = some b → (s.bus b).owner ≠ some device) :
    (s.setConfig device cfg).Consistent := by
  intro b
  refine (hs b).setConfig fun ho => ?_
  exact hno b (hs b device ho).1 ho

/-- The owner's bus takes the new configuration. -/
theorem Consistent.reconfigure (hs : s.Consistent) (hb : (s.dev device).bus = some b) :
    ((s.setConfig device cfg).setOwner device b).Consistent := by
  intro b'
  by_cases h : b' = b
  · rw [h]
    exact ConsistentAt.setOwner_self (setConfig_dev_bus.trans hb)
  · refine ConsistentAt.setOwner_of_ne ((hs b').setConfig ?_) h
    exact hs.owner_ne fun h' => h (Option.some.inj (h'.symm.trans hb))

end Spi

namespace SpiRun

variable {D B : Type} [DecidableEq D] [DecidableEq B] {r r' : SpiRun D B} {c : SpiCall D}

/-- The buses are consistent, and the stored configurations are the requested ones. -/
structure Inv (r : SpiRun D B) : Prop where
  consistent : r.spi.Consistent
  config : ∀ d, (r.spi.dev d).config = r.requested d

/-- **No transfer runs with another configuration.** -/
theorem Inv.follows (h : r.Inv) : r.Follows := by
  refine ⟨h.config, fun c o ho e he => ?_⟩
  cases c with
  | configure device cfg a =>
    cases ho
    obtain ⟨pin, high, rfl⟩ := (Spi.configure_cases r.spi device a cfg).1 e he
    trivial
  | _ =>
    rcases Spi.call_cases ho (by simp) with rfl | ⟨device, b, ht⟩
    · exact absurd he List.not_mem_nil
    · obtain ⟨message, rfl⟩ := ht.xfers e he
      exact (ht.hardware h.consistent).trans (h.config device)

/-- The stored configurations after `rt_spi_configure`. -/
theorem Inv.config_setConfig (h : r.Inv) (device d : D) (cfg : SpiConfiguration) :
    ((r.spi.setConfig device cfg).dev d).config = Function.update r.requested device cfg d := by
  rw [Spi.setConfig_config]
  congr 1
  funext d
  exact h.config d

/-- **The step lemma.** -/
theorem Inv.step (h : r.Inv) (hok : r.reconfigured c = true)
    (hstep : (spiRuns D B).step r c = some r') : r'.Inv := by
  obtain ⟨o, ho, rfl⟩ := Option.map_eq_some_iff.mp hstep
  cases c with
  | configure device cfg a =>
    cases ho
    change Inv (⟨(r.spi.configure device a cfg).spi, Function.update r.requested device cfg⟩ :
      SpiRun D B)
    rcases (Spi.configure_cases r.spi device a cfg).2 with ⟨hsame, hs⟩ | ⟨hne, hcase⟩
    · rw [hs, ← hsame, h.config device, Function.update_eq_self]
      exact h
    · rcases hcase with ⟨b, hb, -, -, -, hs⟩ | ⟨hfail, hs⟩
      · rw [hs]
        exact ⟨h.consistent.reconfigure hb, fun d => h.config_setConfig device d cfg⟩
      · rw [hs]
        refine ⟨h.consistent.setConfig fun b hb hown => ?_,
          fun d => h.config_setConfig device d cfg⟩
        simp only [reconfigured, hb, decide_eq_true_eq] at hok
        exact hfail b hb hown (hok hown hne)
  | _ =>
    rcases Spi.call_cases ho (by simp) with rfl | ⟨device, b, ht⟩
    · exact h
    · refine ⟨ht.consistent h.consistent, fun d => ?_⟩
      change (o.1.dev d).config = r.requested d
      rw [ht.dev]
      exact h.config d

/-- **A failed reconfiguration shows**: the next transfer of the owner runs with the configuration
it had before. -/
theorem Inv.not_follows (h : r.Inv) (hbad : ¬ r.reconfigured c = true)
    (hstep : (spiRuns D B).step r c = some r') : ¬ r'.Follows := by
  obtain ⟨o, ho, rfl⟩ := Option.map_eq_some_iff.mp hstep
  cases c with
  | configure device cfg a =>
    cases ho
    rcases hb : (r.spi.dev device).bus with _ | b
    · exact absurd (by simp only [reconfigured, hb]) hbad
    simp only [reconfigured, hb, decide_eq_true_eq] at hbad
    obtain ⟨hown, hrest⟩ := Classical.not_imp.mp hbad
    obtain ⟨hne, hans⟩ := Classical.not_imp.mp hrest
    have hs : (r.spi.configure device a cfg).spi = r.spi.setConfig device cfg := by
      rcases (Spi.configure_cases r.spi device a cfg).2 with ⟨hsame, -⟩ | ⟨-, hcase⟩
      · exact absurd hsame hne
      · rcases hcase with ⟨b', -, -, h1, h2, -⟩ | ⟨-, hs⟩
        · exact absurd ⟨h1, h2⟩ hans
        · exact hs
    intro hf
    have hcall : (r.spi.setConfig device cfg).call (.transfer device none none 0 {}) =
        some (r.spi.setConfig device cfg,
          [.xfer device [⟨none, none, 0, true, true⟩] (r.spi.bus b).hardware]) := by
      simp [Spi.call, Spi.transfer, Spi.onBus, Spi.acquire, hb, hown, Spi.xfer, SpiOut.done]
    have hx := hf.2 (.transfer device none none 0 {}) _ (hs ▸ hcall) _ (List.mem_singleton_self _)
    change (r.spi.bus b).hardware = Function.update r.requested device cfg device at hx
    rw [Function.update_self] at hx
    exact hne ((h.consistent b device hown).2.symm.trans hx)
  | _ => exact absurd rfl hbad

end SpiRun

section

variable {D B : Type} [DecidableEq D] [DecidableEq B]

/-- **The hardware follows the device** in the runs in which a new configuration of the owner of a
bus reaches the hardware: every transfer that is started runs with the configuration of its device,
the last one requested; and a step keeps this exactly when it meets the condition. -/
theorem spi_configuration {r : SpiRun D B} (h : (spiRuns D B).Reach SpiRun.reconfigured r) :
    r.Follows ∧ ∀ c r', (spiRuns D B).step r c = some r' →
      (r'.Follows ↔ r.reconfigured c = true) := by
  have hinv : r.Inv := by
    refine h.invariant (fun r hr => ⟨fun b d ho => ?_, fun d => (hr.2 d).symm⟩)
      fun r c r' hr hok hstep => hr.step hok hstep
    exact nomatch (hr.1 b).symm.trans ho
  refine ⟨hinv.follows, fun c r' hstep => ⟨fun hf => ?_, fun hok => (hinv.step hok hstep).follows⟩⟩
  by_contra hbad
  exact hinv.not_follows hbad hstep hf

end

/-- Two devices of one bus. -/
def spiTwo : SpiRun Bool Unit := ⟨⟨fun _ => { bus := some () }, fun _ => {}⟩, fun _ => {}⟩

/-- Eight bits at a rate. -/
def spiRate (maxHz : BitVec 32) : SpiConfiguration := ⟨0, 8, maxHz⟩

/-- Two devices in turn, the second at another rate. -/
theorem spi_configuration_two : ∃ r, (spiRuns Bool Unit).Reach SpiRun.reconfigured r ∧
    (r.spi.bus ()).owner = some true ∧ r.Follows := by
  obtain ⟨r, h, hp⟩ := (spiRuns Bool Unit).exists_reach SpiRun.reconfigured
    (fun r => decide ((r.spi.bus ()).owner = some true)) (s := spiTwo)
    ⟨fun _ => rfl, fun _ => rfl⟩
    [.configure false (spiRate 1000) {}, .transfer false (some 0) none 4 {},
      .configure true (spiRate 2000) {}, .sendThenRecv true (some 0) 1 (some 8) 4 {}] (by decide)
  exact ⟨r, h, of_decide_eq_true hp, (spi_configuration h).1⟩

/-- **A failed reconfiguration**: the owner requests another rate, and the next transfer runs at the
old one. -/
theorem spi_stale : ∃ r, (spiRuns Bool Unit).Reach System.anyStep r ∧ ¬ r.Follows := by
  obtain ⟨r, h, hp⟩ := (spiRuns Bool Unit).exists_reach System.anyStep
    (fun r => decide ((r.spi.call (.transfer false (some 0) none 4 {})).map Prod.snd =
        some [.xfer false [⟨some 0, none, 4, true, true⟩] (spiRate 1000)] ∧
      r.requested false = spiRate 2000)) (s := spiTwo) ⟨fun _ => rfl, fun _ => rfl⟩
    [.configure false (spiRate 1000) {}, .transfer false (some 0) none 4 {},
      .configure false (spiRate 2000) { configure := 10 }] (by decide)
  refine ⟨r, h, fun hf => ?_⟩
  obtain ⟨hcall, hreq⟩ := of_decide_eq_true hp
  obtain ⟨o, ho, he⟩ := Option.map_eq_some_iff.mp hcall
  have hx := hf.2 _ o ho _ (he ▸ List.mem_singleton_self _)
  exact absurd (Eq.trans hx hreq) (by decide)

end RtThread
